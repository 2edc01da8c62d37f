import TextGrammar.Data.Operations
import TextGrammar.Text.Pattern

/-! Ordinal numbers from cardinal ones. -/
namespace TextGrammar.English

/-- The numbers that end in 11, 12 and 13 are exceptions to the rule of the last digit. -/
def ordinalSuffix (n : Int) : List Char :=
  if n % 100 ∈ [11, 12, 13] then ['t', 'h']
  else if n % 10 = 1 then ['s', 't']
  else if n % 10 = 2 then ['n', 'd']
  else if n % 10 = 3 then ['r', 'd']
  else ['t', 'h']

/-- A numeral with its suffix; the numeral is left as it is written. -/
def ordinalOf {φ μ : Type} (numeral : Data φ μ) : Except Failure (Data φ μ) := do
  numeral.followedBy (String.ofList (ordinalSuffix (← numeral.toInteger)))

/-- The value of decimal digits of any script. -/
def digitRunValue (digits : List Char) : Nat :=
  digits.foldl (fun n c => 10 * n + (digitValue? c).getD 0) 0

/-- The digits that stand alone as a word at the start of a text. -/
def loneDigits (before : Option Char) (text : List Char) : List Char :=
  if wordBefore before then []
  else
    let word := text.takeWhile isWord
    if word.all isDigit then word else []

/-- A word of digits only gets its suffix. -/
def ordinalPattern : Pattern := fun before text =>
  let digits := loneDigits before text
  if digits.isEmpty then none
  else some (digits ++ ordinalSuffix (digitRunValue digits), digits.length)

/-- The first word of digits that is too long to be read as a number. -/
def overlongDigits? : Option Char → List Char → Option Nat
  | _, [] => none
  | before, c :: text =>
    let size := (loneDigits before (c :: text)).length
    if size > maxNumeralDigits then some size else overlongDigits? (some c) text

def withOrdinals (text : List Char) : Except Failure (List Char) :=
  match overlongDigits? none text with
  | some size => .error (.value (.integerTooLong size))
  | none => .ok (ordinalPattern.substitute text)

end TextGrammar.English
