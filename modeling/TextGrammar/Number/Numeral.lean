import TextGrammar.Number.Double
import TextGrammar.Text.Blank
import TextGrammar.Text.Digit
import TextGrammar.Text.Pieces

/-! Integers and binary64 numbers from text, with digits of any script and single underscores. -/
namespace TextGrammar

inductive NumeralFault where
  | notANumeral
  | tooLong (digits : Nat)
  deriving DecidableEq

/-- The most digits an integer numeral may have. -/
def maxNumeralDigits : Nat := 4300

/-- Beyond ASCII, digits are read as their values and blanks as spaces. -/
def plainChar (c : Char) : Char :=
  if c.toNat < 0x80 then c
  else match digitValue? c with
    | some d => Char.ofNat (0x30 + d)
    | none => if isBlank c then ' ' else c

/-- Of the blanks in ASCII, the information separators do not count around a numeral. -/
def isNumeralBlank (c : Char) : Bool := c == ' ' || (0x9 ≤ c.toNat && c.toNat ≤ 0xD)

/-- The numeral proper, without the blanks at its ends. -/
def numeralBody (text : String) : List Char :=
  let plain := text.toList.map plainChar
  ((plain.dropWhile isNumeralBlank).reverse.dropWhile isNumeralBlank).reverse

/-- Whether the sign is a minus, and what follows the sign. -/
def takeSign : List Char → Bool × List Char
  | '-' :: rest => (true, rest)
  | '+' :: rest => (false, rest)
  | rest => (false, rest)

/-- The digits of a group, if each underscore in it stands between two digits. -/
def groupDigits? (group : List Char) : Option (List Char) :=
  let parts := pieces ['_'] group
  if parts.all fun part => !part.isEmpty && part.all Char.isDigit then some parts.flatten else none

def digitsValue (digits : List Char) : Nat := digits.foldl (fun n c => 10 * n + (c.toNat - 0x30)) 0

/-- A group and what follows it; an empty group has no digits. -/
def takeGroup? (text : List Char) : Option (List Char × List Char) :=
  let group := text.takeWhile fun c => c.isDigit || c == '_'
  let rest := text.dropWhile fun c => c.isDigit || c == '_'
  if group.isEmpty then some ([], rest) else (groupDigits? group).map (·, rest)

/-- Too many digits are noticed before what follows them. -/
def readInteger (text : String) : Except NumeralFault Int :=
  let (negative, rest) := takeSign (numeralBody text)
  match takeGroup? rest with
  | none => .error .notANumeral
  | some (digits, after) =>
    if digits.length > maxNumeralDigits then .error (.tooLong digits.length)
    else if digits.isEmpty || !after.isEmpty then .error .notANumeral
    else .ok (signed negative (digitsValue digits))

/-- The value of an exponent mark, its sign and its digits; no mark means zero. -/
def readExponent? : List Char → Option Int
  | [] => some 0
  | mark :: rest =>
    if mark = 'e' || mark = 'E' then
      let (negative, rest) := takeSign rest
      (groupDigits? rest).map fun digits => signed negative (digitsValue digits)
    else none

/-- Decimals far outside the range of the numbers are not multiplied out. -/
def ofDecimal (negative : Bool) (digits : List Char) (power : Int) : Double :=
  let value := digitsValue digits
  if value = 0 then .finite negative 0 (-1074)
  else if power > 400 then .infinite negative
  else if power + digits.length < -400 then .finite negative 0 (-1074)
  else .ofQuotient negative (value * tenPower power.toNat) (tenPower (-power).toNat)

def readDouble? (text : String) : Option Double := do
  let (negative, rest) := takeSign (numeralBody text)
  let lower := String.ofList (rest.map Char.toLower)
  if lower == "nan" then return .nan
  if lower == "inf" || lower == "infinity" then return .infinite negative
  let (whole, rest) ← takeGroup? rest
  let (part, rest) ← match rest with
    | '.' :: rest => takeGroup? rest
    | _ => some ([], rest)
  if whole.isEmpty && part.isEmpty then none
  let exponent ← readExponent? rest
  return ofDecimal negative (whole ++ part) (exponent - part.length)

end TextGrammar
