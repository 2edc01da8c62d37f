import TextGrammar.Number.Double

/-! The binary logarithm, digit by binary digit: squaring a number doubles its logarithm. -/
namespace TextGrammar.Double

/-- The working precision of the squarings, in bits after the point. -/
def logPrecision : Nat := 160

/-- The next digits of the logarithm of `mantissa / 2 ^ logPrecision`, which lies in `[1, 2)`. -/
def logDigits : Nat → Nat → Nat → Nat
  | 0, _, digits => digits
  | count + 1, mantissa, digits =>
    let square := (mantissa * mantissa) >>> logPrecision
    if square ≥ 2 <<< logPrecision then logDigits count (square >>> 1) (2 * digits + 1)
    else logDigits count square (2 * digits)

/-- Exact for powers of two, and within `2 ^ -64` otherwise before the final rounding. -/
def log2 : Double → Double
  | finite false significand exponent =>
    if significand = 0 then infinite true
    else
      let whole : Int := significand.log2 + exponent
      let mantissa := significand <<< (logPrecision - significand.log2)
      let value := whole * twoPower 64 + logDigits 64 mantissa 0
      ofScaled (value < 0) value.natAbs (-64)
  | finite true 0 _ => infinite true
  | infinite false => infinite false
  | _ => nan

end TextGrammar.Double
