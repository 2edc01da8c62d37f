import TextGrammar.Number.Double

/-! Decimal text of binary64 numbers: the shortest that reads back, and a fixed number of places. -/
namespace TextGrammar.Double

/-- `⌊log₁₀⌋` of a positive number: the estimate from the binary logarithm is at most one off. -/
def decimalExponent (significand : Nat) (exponent : Int) : Int :=
  let guess := (((significand.log2 : Int) + exponent) * 1233).fdiv 4096
  let isBelow (power : Int) : Bool :=
    let (num, den) := scaled significand 1 exponent
    num * tenPower (-power).toNat < tenPower power.toNat * den
  if isBelow guess then guess - 1 else if isBelow (guess + 1) then guess else guess + 1

/-- Twice the distance of a grid point from the number, both counted in quarters of the number's
last binary place and over a common denominator. -/
structure Grid where
  value : Nat
  unit : Nat
  below : Nat
  above : Nat

/-- The grid of multiples of `10 ^ power` around `significand * 2 ^ exponent`. What rounds to the
number reaches half a place to both sides, but half as far below a power of two. -/
def grid (significand : Nat) (exponent power : Int) : Grid :=
  let binary := exponent - 2
  let place := twoPower binary.toNat * tenPower (-power).toNat
  let reach := if significand = twoPower 52 && exponent > -1074 then 1 else 2
  { value := 4 * significand * place
    unit := tenPower power.toNat * twoPower (-binary).toNat
    below := reach * place
    above := 2 * place }

/-- The multiple of the grid's unit that reads back as the number, the nearer one if both
neighbours do; the ends of the interval read back if the significand is even. -/
def Grid.pick? (g : Grid) (closed : Bool) : Option Nat :=
  let low := g.value / g.unit
  let lowGap := g.value - low * g.unit
  let highGap := (low + 1) * g.unit - g.value
  let fits (gap reach : Nat) : Bool := gap < reach || (closed && gap == reach)
  match fits lowGap g.below, fits highGap g.above with
  | true, true =>
    some (if lowGap < highGap || (lowGap == highGap && low % 2 == 0) then low else low + 1)
  | true, false => some low
  | false, true => some (low + 1)
  | false, false => none

/-- The digits that read back with so many places after the first one, and the power of ten of the
last one. -/
def digitsTo? (significand : Nat) (exponent top : Int) (places : Nat) : Option (Nat × Int) :=
  let power := top - (places : Int)
  ((grid significand exponent power).pick? (significand % 2 == 0)).map (·, power)

/-- The fewest digits that read back, at most 17, and the power of ten of the last one. A finer grid
has all points of a coarser one, so if 15 digits do not read back, fewer do not either. -/
def shortestDigits (significand : Nat) (exponent : Int) : Nat × Int :=
  let digits? := digitsTo? significand exponent (decimalExponent significand exponent)
  let places := if (digits? 14).isSome then List.range 15 else [15, 16]
  (places.findSome? digits?).getD (0, 0)

/-- The digits of a decimal, its point and, outside `10 ^ -4` to `10 ^ 16`, its exponent of at
least two digits; a whole number ends in `.0`. -/
def decimalText (digits : Nat) (power : Int) : String :=
  let shown := (Nat.toDigits 10 digits).reverse.dropWhile (· == '0') |>.reverse
  let top : Int := power + (Nat.toDigits 10 digits).length - 1
  let zeros (n : Int) : List Char := List.replicate n.toNat '0'
  if -4 ≤ top && top < 16 then
    if top < 0 then String.ofList ('0' :: '.' :: zeros (-top - 1) ++ shown)
    else
      let whole := shown.take (top.toNat + 1) ++ zeros (top + 1 - shown.length)
      let part := shown.drop (top.toNat + 1)
      String.ofList (whole ++ '.' :: (if part.isEmpty then ['0'] else part))
  else
    let size := Nat.toDigits 10 top.natAbs
    let size := if size.length < 2 then '0' :: size else size
    let part := if shown.length ≤ 1 then [] else '.' :: shown.drop 1
    String.ofList (shown.take 1 ++ part ++ ['e', if top < 0 then '-' else '+'] ++ size)

/-- The shortest decimal that reads back as the number. -/
def text : Double → String
  | nan => "nan"
  | infinite negative => if negative then "-inf" else "inf"
  | finite negative significand exponent =>
    let magnitude :=
      if significand = 0 then "0.0"
      else
        let (digits, power) := shortestDigits significand exponent
        decimalText digits power
    if negative then "-" ++ magnitude else magnitude

instance : ToString Double := ⟨text⟩

/-- The number rounded to the given number of places, a tie to the even last digit. -/
def textFixed (places : Nat) : Double → String
  | finite negative significand exponent =>
    let (num, den) := scaled significand 1 exponent
    let digits := Nat.toDigits 10 (nearest (num * tenPower places) den)
    let digits := List.replicate (places + 1 - digits.length) '0' ++ digits
    let (whole, part) := digits.splitAt (digits.length - places)
    String.ofList ((if negative then ['-'] else []) ++ whole ++ '.' :: part)
  | x => x.text

end TextGrammar.Double
