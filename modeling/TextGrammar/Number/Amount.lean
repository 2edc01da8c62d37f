import TextGrammar.Number.Numeral
import TextGrammar.Number.Shortest

/-! Whole numbers of any size and binary64 numbers, which a whole one turns into beside one. -/
namespace TextGrammar

inductive Amount where
  | whole (n : Int)
  | real (x : Double)
  deriving DecidableEq

namespace Amount

instance : Inhabited Amount := ⟨whole 0⟩
instance (n : Nat) : OfNat Amount n := ⟨whole n⟩

def toDouble? : Amount → Except NumberFault Double
  | whole n => Double.ofInt? n
  | real x => .ok x

def combine (exact : Int → Int → Int) (rounded : Double → Double → Double) :
    Amount → Amount → Except NumberFault Amount
  | whole m, whole n => .ok (whole (exact m n))
  | a, b => do return real (rounded (← a.toDouble?) (← b.toDouble?))

def add? : Amount → Amount → Except NumberFault Amount := combine (· + ·) (· + ·)
def sub? : Amount → Amount → Except NumberFault Amount := combine (· - ·) (· - ·)
def mul? : Amount → Amount → Except NumberFault Amount := combine (· * ·) (· * ·)

/-- The quotient by a positive amount, which is never whole. -/
def div? : Amount → Amount → Except NumberFault Double
  | whole m, whole n => Double.ofIntQuotient? (if n < 0 then -m else m) n.natAbs
  | a, b => do return (← a.toDouble?) / (← b.toDouble?)

def floor? : Amount → Except NumberFault Int
  | whole n => .ok n
  | real x => x.floor?

/-- Comparison never rounds: a whole number and a binary64 number compare by their exact values. -/
def compare? : Amount → Amount → Option Ordering
  | whole m, whole n => some (compare m n)
  | real x, real y => x.compare? y
  | real x, whole n => x.compareQuotient? n 1
  | whole n, real x => (x.compareQuotient? n 1).map Ordering.swap

def le (a b : Amount) : Bool := compare? a b matches some .lt | some .eq
def lt (a b : Amount) : Bool := compare? a b matches some .lt

def isNan : Amount → Bool
  | whole _ => false
  | real x => x.isNan

def text : Amount → String
  | whole n => toString n
  | real x => x.text

/-- A whole value is written without a decimal part, however it was computed. -/
def plainText : Amount → String
  | whole n => toString n
  | real x => match x.quotient? with
    | some (num, den) => if num % den == 0 then toString (num / den) else x.text
    | none => x.text

/-- A whole number of more digits than a numeral may have is not written out. -/
def checkWritable (n : Int) : Except NumberFault Unit :=
  if n.natAbs < tenPower maxNumeralDigits then .ok () else .error .tooManyDigits

def plainText? (amount : Amount) : Except NumberFault String := do
  if let whole n := amount then checkWritable n
  return amount.plainText

end Amount

end TextGrammar
