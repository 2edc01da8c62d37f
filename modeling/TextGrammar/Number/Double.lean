import TextGrammar.Number.Rounding

/-! Binary64 numbers, decoded: every operation rounds the exact result once, ties to even. -/
namespace TextGrammar

def signed (negative : Bool) (magnitude : Nat) : Int := if negative then -magnitude else magnitude

/-- A finite number is the significand times two to the exponent, under its sign. Operations
return the significand below `2 ^ 53` and the least exponent that allows it, from `-1074` on. -/
inductive Double where
  | nan
  | infinite (negative : Bool)
  | finite (negative : Bool) (significand : Nat) (exponent : Int)
  deriving DecidableEq

namespace Double

instance : Inhabited Double := ⟨nan⟩

/-- The positive quotient `num / den` times `2 ^ exponent`, as a quotient of naturals. -/
def scaled (num den : Nat) (exponent : Int) : Nat × Nat :=
  (num <<< exponent.toNat, den <<< (-exponent).toNat)

/-- The exponent at which a positive quotient has a significand of exactly 53 bits, if it is not
too small for that. -/
def fittingExponent (num den : Nat) : Int :=
  let estimate := (num.log2 : Int) - den.log2
  let (n, d) := scaled num den (-estimate)
  max (-1074) (if d ≤ n then estimate - 52 else estimate - 53)

/-- The quotient `num / den` times `2 ^ exponent`, rounded at that exponent, which has to be the
fitting one. A magnitude that rounds to `2 ^ 1024` is infinite. -/
def roundedAt (negative : Bool) (exponent : Int) (num den : Nat) : Double :=
  let significand := nearest num den
  if significand = twoPower 53 then
    if exponent ≥ 971 then infinite negative else finite negative (twoPower 52) (exponent + 1)
  else if exponent > 971 then infinite negative
  else finite negative significand exponent

/-- The number nearest to `±num / den`. -/
def ofQuotient (negative : Bool) (num den : Nat) : Double :=
  if num = 0 then finite negative 0 (-1074)
  else
    let exponent := fittingExponent num den
    let (n, d) := scaled num den (-exponent)
    roundedAt negative exponent n d

/-- The number nearest to `±significand * 2 ^ exponent`. -/
def ofScaled (negative : Bool) (significand : Nat) (exponent : Int) : Double :=
  if significand = 0 then finite negative 0 (-1074)
  else
    let fitting := max (-1074) (exponent + significand.log2 - 52)
    let (n, d) := scaled significand 1 (exponent - fitting)
    roundedAt negative fitting n d

def ofInt (n : Int) : Double := ofScaled (n < 0) n.natAbs 0

instance (n : Nat) : OfNat Double n := ⟨ofInt n⟩
instance : NatCast Double := ⟨fun n => ofInt n⟩

/-- The value of a finite number as a quotient of an integer and a natural. -/
def quotient? : Double → Option (Int × Nat)
  | finite negative significand exponent =>
    let (num, den) := scaled significand 1 exponent
    some (signed negative num, den)
  | _ => none

def isNan : Double → Bool
  | nan => true
  | _ => false

def isNegative : Double → Bool
  | nan => false
  | infinite negative => negative
  | finite negative _ _ => negative

def neg : Double → Double
  | nan => nan
  | infinite negative => infinite !negative
  | finite negative significand exponent => finite (!negative) significand exponent

def abs : Double → Double
  | nan => nan
  | infinite _ => infinite false
  | finite _ significand exponent => finite false significand exponent

/-- A significand under its sign, moved to an exponent that is not above its own. -/
def aligned (negative : Bool) (significand : Nat) (exponent target : Int) : Int :=
  signed negative (significand <<< (exponent - target).toNat)

/-- A sum of exactly zero is positive unless both terms are negative. -/
def add : Double → Double → Double
  | finite s m e, finite t n f =>
    let exponent := min e f
    let sum := aligned s m e exponent + aligned t n f exponent
    ofScaled (if sum = 0 then s && t else sum < 0) sum.natAbs exponent
  | nan, _ | _, nan => nan
  | infinite s, infinite t => if s = t then infinite s else nan
  | infinite s, finite .. | finite .., infinite s => infinite s

def mul : Double → Double → Double
  | finite s m e, finite t n f => ofScaled (s != t) (m * n) (e + f)
  | nan, _ | _, nan => nan
  | infinite s, infinite t => infinite (s != t)
  | infinite s, finite t n _ | finite t n _, infinite s => if n = 0 then nan else infinite (s != t)

def div : Double → Double → Double
  | finite s m e, finite t n f =>
    if n = 0 then (if m = 0 then nan else infinite (s != t))
    else
      let (num, den) := scaled m n (e - f)
      ofQuotient (s != t) num den
  | nan, _ | _, nan => nan
  | infinite _, infinite _ => nan
  | infinite s, finite t .. => infinite (s != t)
  | finite s .., infinite t => finite (s != t) 0 (-1074)

instance : Neg Double := ⟨neg⟩
instance : Add Double := ⟨add⟩
instance : Sub Double := ⟨fun x y => add x (neg y)⟩
instance : Mul Double := ⟨mul⟩
instance : Div Double := ⟨div⟩

/-- How a number compares with a quotient of an integer and a positive natural. -/
def compareQuotient? : Double → Int → Nat → Option Ordering
  | nan, _, _ => none
  | infinite negative, _, _ => some (if negative then .lt else .gt)
  | finite negative significand exponent, num, den =>
    let (n, d) := scaled significand 1 exponent
    some (compare (signed negative n * den) (num * d))

/-- How two magnitudes compare, brought to one exponent. -/
def compareMagnitudes (m : Nat) (e : Int) (n : Nat) (f : Int) : Ordering :=
  if e ≤ f then compare m (n <<< (f - e).toNat) else compare (m <<< (e - f).toNat) n

/-- Nothing compares with what is not a number, and the two zeros are equal. -/
def compare? : Double → Double → Option Ordering
  | nan, _ | _, nan => none
  | infinite s, infinite t => some (if s = t then .eq else if s then .lt else .gt)
  | finite .., infinite t => some (if t then .gt else .lt)
  | infinite s, finite .. => some (if s then .lt else .gt)
  | finite s m e, finite t n f =>
    some (
      if m = 0 && n = 0 then .eq
      else if s = t then
        if s then compareMagnitudes n f m e else compareMagnitudes m e n f
      else if s then .lt
      else .gt)

def le (x y : Double) : Bool := compare? x y matches some .lt | some .eq
def lt (x y : Double) : Bool := compare? x y matches some .lt

/-- Zero counts as nothing, everything else as something. -/
def isZero : Double → Bool
  | finite _ significand _ => significand == 0
  | _ => false

end Double

/-- Why a number could not become an integer or a text, or an integer or quotient no number, or why
something could not be repeated so often. -/
inductive NumberFault where
  | infiniteToInteger
  | nanToInteger
  | integerTooLarge
  | quotientTooLarge
  | sumTooLarge
  | tooManyDigits
  | countTooLarge
  | textTooLong
  | bytesTooLong
  deriving DecidableEq

def NumberFault.message : NumberFault → String
  | infiniteToInteger => "cannot convert float infinity to integer"
  | nanToInteger => "cannot convert float NaN to integer"
  | integerTooLarge => "int too large to convert to float"
  | quotientTooLarge => "integer division result too large for a float"
  | sumTooLarge => "intermediate overflow in fsum"
  | tooManyDigits =>
    "Exceeds the limit (4300 digits) for integer string conversion; " ++
      "use sys.set_int_max_str_digits() to increase the limit"
  | countTooLarge => "cannot fit 'int' into an index-sized integer"
  | textTooLong => "repeated string is too long"
  | bytesTooLong => "repeated bytes are too long"

namespace Double

/-- Only a magnitude beyond the finite numbers is refused; any other integer is rounded. -/
def ofInt? (n : Int) : Except NumberFault Double :=
  match ofInt n with
  | infinite _ => .error .integerTooLarge
  | x => .ok x

/-- The quotient of two integers, rounded once. -/
def ofIntQuotient? (num : Int) (den : Nat) : Except NumberFault Double :=
  match ofQuotient (num < 0) num.natAbs den with
  | infinite _ => .error .quotientTooLarge
  | x => .ok x

def toInt? (round : Int → Nat → Int) (x : Double) : Except NumberFault Int :=
  match x.quotient? with
  | some (num, den) => .ok (round num den)
  | none => .error (if x.isNan then .nanToInteger else .infiniteToInteger)

def floor? (x : Double) : Except NumberFault Int := x.toInt? fun num den => Int.fdiv num den

/-- The fraction is dropped, towards zero. -/
def truncate? (x : Double) : Except NumberFault Int := x.toInt? fun num den => Int.tdiv num den

def isIntegral (x : Double) : Bool :=
  match x.quotient? with
  | some (num, den) => num % den == 0
  | none => false

def isFinite : Double → Bool
  | finite .. => true
  | _ => false

/-- Adds a term to the parts of a sum, from the first one on. What is lost by rounding at a part
stays behind in its place; the last sum comes with what stays. -/
def addToParts (term : Double) : List Double → Double × List Double
  | [] => (term, [])
  | part :: rest =>
    let (large, small) := if term.abs.lt part.abs then (part, term) else (term, part)
    let sum := large + small
    let lost := small - (sum - large)
    let (last, parts) := addToParts sum rest
    (last, if lost.isZero then parts else lost :: parts)

/-- The parts after one more term. They add up exactly, which is why none may become infinite. A
term that is infinite itself starts them afresh. -/
def withTerm (parts : List Double) (term : Double) : Except NumberFault (List Double) :=
  let (last, parts) := addToParts term parts
  if last.isZero then .ok parts
  else if last.isFinite then .ok (parts ++ [last])
  else if term.isFinite then .error .sumTooLarge
  else .ok []

/-- The sum of terms that are finite, rounded only once. -/
def roundedSum (terms : List Double) : Double :=
  let exponent := terms.foldl (fun low x => match x with | finite _ _ e => min low e | _ => low) 0
  let sum : Int := terms.foldl (fun sum x => match x with
    | finite s m e => sum + aligned s m e exponent
    | _ => sum) 0
  ofScaled (sum < 0) sum.natAbs exponent

/-- The sum of all terms, rounded only once at the end, unless the parts become too large on the
way. -/
def exactSum (terms : List Double) : Except NumberFault Double := do
  let _ ← terms.foldlM withTerm []
  if terms.all isFinite then return roundedSum terms
  else return (terms.filter (!·.isFinite)).foldl add 0

end Double

end TextGrammar
