import TextGrammar.Number.Numeral
import TextGrammar.Text.Code

/-! Reading JSON. A fault carries the rest of the text that starts where the reader stopped. -/
namespace TextGrammar

/-- Numbers are recognised only, since nothing here asks for their value. -/
inductive Json where
  | null
  | bool (value : Bool)
  | number
  | text (value : String)
  | list (items : List Json)
  | object (members : List (String × Json))

namespace Json

inductive Problem where
  | byteOrderMark
  | valueExpected
  | nameExpected
  | colonExpected
  | commaExpected
  | extraData
  | unterminatedText
  | controlCharacter
  | badEscape
  | badCodeEscape
  deriving DecidableEq

def Problem.message : Problem → String
  | byteOrderMark => "Unexpected UTF-8 BOM (decode using utf-8-sig)"
  | valueExpected => "Expecting value"
  | nameExpected => "Expecting property name enclosed in double quotes"
  | colonExpected => "Expecting ':' delimiter"
  | commaExpected => "Expecting ',' delimiter"
  | extraData => "Extra data"
  | unterminatedText => "Unterminated string starting at"
  | controlCharacter => "Invalid control character at"
  | badEscape => "Invalid \\escape"
  | badCodeEscape => "Invalid \\uXXXX escape"

/-- What is wrong, and the text from there on; or an integer that has too many digits to be read. -/
inductive Stop where
  | problem (problem : Problem) (rest : List Char)
  | integerTooLong (digits : Nat)

/-- A value, or a part of one, and the text after it. -/
abbrev Reader (α : Type) := List Char → Except Stop (α × List Char)

def isSpace (c : Char) : Bool := c == ' ' || c == '\t' || c == '\n' || c == '\r'

def skipSpace (input : List Char) : List Char := input.dropWhile isSpace

def hexValue? (c : Char) : Option Nat :=
  if c.isDigit then some (c.toNat - 0x30)
  else if 'a' ≤ c && c ≤ 'f' then some (c.toNat - 0x61 + 10)
  else if 'A' ≤ c && c ≤ 'F' then some (c.toNat - 0x41 + 10)
  else none

/-- The value of the four hexadecimal digits that the text starts with. -/
def codeUnit? (input : List Char) : Option Nat :=
  let digits := (input.take 4).filterMap hexValue?
  if digits.length = 4 then some (digits.foldl (fun n d => 16 * n + d) 0) else none

/-- The letter that the code escape after a backslash stands for, and how many characters it takes.
At least one character, the closing quote if no other, has to follow the digits. -/
def codeEscape (input : List Char) : Except Stop (List Char × Nat) :=
  let digits := input.drop 1
  match codeUnit? digits with
  | none => .error (.problem .badCodeEscape input)
  | some unit =>
    let after := digits.drop 4
    if after.isEmpty then .error (.problem .badCodeEscape input)
    else if isHighSurrogate unit && after.take 2 == ['\\', 'u']
        && (lettersOf (after.take 14)).length > 6 then
      match codeUnit? (after.drop 2) with
      | none => .error (.problem .badCodeEscape (after.drop 1))
      | some low =>
        if isLowSurrogate low then .ok (spelled (joinedCode unit low), 11)
        else .ok (spelled unit, 5)
    else .ok (spelled unit, 5)

/-- The letter that an escape stands for, and how many characters follow the backslash. -/
def escape (backslash : List Char) : Except Stop (List Char × Nat) :=
  match backslash.drop 1 with
  | '"' :: _ => .ok (['"'], 1)
  | '\\' :: _ => .ok (['\\'], 1)
  | '/' :: _ => .ok (['/'], 1)
  | 'b' :: _ => .ok (['\x08'], 1)
  | 'f' :: _ => .ok (['\x0c'], 1)
  | 'n' :: _ => .ok (['\n'], 1)
  | 'r' :: _ => .ok (['\r'], 1)
  | 't' :: _ => .ok (['\t'], 1)
  | 'u' :: rest => codeEscape ('u' :: rest)
  | _ => .error (.problem .badEscape backslash)

/-- The characters up to the closing quote; while `skip` is positive, the scan is still inside an
escape. -/
def readChars (opening : List Char) : Nat → Reader (List Char)
  | _, [] => .error (.problem .unterminatedText opening)
  | skip + 1, _ :: rest => readChars opening skip rest
  | 0, c :: rest =>
    if c = '"' then .ok ([], rest)
    else if c = '\\' then
      if rest.isEmpty then .error (.problem .unterminatedText opening)
      else do
        let (letter, size) ← escape (c :: rest)
        let (chars, rest) ← readChars opening size rest
        return (letter ++ chars, rest)
    else if c.toNat < 0x20 then .error (.problem .controlCharacter (c :: rest))
    else do
      let (chars, rest) ← readChars opening 0 rest
      return (c :: chars, rest)

/-- The text that starts with its opening quote. -/
def readText : Reader String := fun opening => do
  let (chars, rest) ← readChars opening 0 (opening.drop 1)
  return (String.ofList chars, rest)

def skipDigits (input : List Char) : List Char := input.dropWhile Char.isDigit

/-- A point counts only before a digit. -/
def skipFraction : List Char → List Char
  | '.' :: d :: rest => if d.isDigit then skipDigits rest else '.' :: d :: rest
  | input => input

/-- An exponent mark counts only if digits follow, after a sign or at once. -/
def skipExponent (input : List Char) : List Char :=
  match input with
  | mark :: rest =>
    let digits := match rest with
      | sign :: more => if sign = '+' || sign = '-' then more else rest
      | [] => []
    if (mark = 'e' || mark = 'E') && digits.head?.any Char.isDigit then skipDigits digits else input
  | [] => []

/-- The text after the number that it starts with. No zero leads a longer number. -/
def skipNumber? (input : List Char) : Option (List Char) :=
  let body := match input with
    | '-' :: rest => rest
    | _ => input
  match body with
  | d :: rest =>
    if d = '0' then some (skipExponent (skipFraction rest))
    else if d.isDigit then some (skipExponent (skipFraction (skipDigits rest)))
    else none
  | [] => none

/-- The digits of an integer that has too many of them, given the text after it. A point or an
exponent mark makes a number of any length readable. -/
def overlongInteger? (input rest : List Char) : Option Nat :=
  let body := (takeSign input).2
  let digits := (body.takeWhile Char.isDigit).length
  if digits > maxNumeralDigits && rest.length + digits = body.length then some digits else none

/-- The words that are values; the numbers that are not finite have words of their own. -/
def words : List (String × Json) :=
  [("null", null), ("true", bool true), ("false", bool false), ("NaN", number),
   ("Infinity", number), ("-Infinity", number)]

def readWord? (input : List Char) : Option (Json × List Char) :=
  words.findSome? fun (word, value) =>
    if word.toList.isPrefixOf input then some (value, input.drop word.length) else none

mutual

/-- The depth bounds how far values nest and how many stand side by side. -/
def readValue : Nat → Reader Json
  | 0, input => .error (.problem .valueExpected input)
  | depth + 1, input =>
    match input with
    | '"' :: _ => do
      let (value, rest) ← readText input
      return (.text value, rest)
    | '[' :: rest =>
      match skipSpace rest with
      | ']' :: rest => .ok (.list [], rest)
      | rest => do
        let (items, rest) ← readItems depth rest
        return (.list items, rest)
    | '\x7b' :: rest =>
      match skipSpace rest with
      | '\x7d' :: rest => .ok (.object [], rest)
      | rest => do
        let (members, rest) ← readMembers depth rest
        return (.object members, rest)
    | _ =>
      match readWord? input with
      | some found => .ok found
      | none =>
        match skipNumber? input with
        | some rest =>
          match overlongInteger? input rest with
          | some digits => .error (.integerTooLong digits)
          | none => .ok (.number, rest)
        | none => .error (.problem .valueExpected input)

/-- The items of a list up to its end. -/
def readItems : Nat → Reader (List Json)
  | 0, input => .error (.problem .valueExpected input)
  | depth + 1, input => do
    let (item, rest) ← readValue depth input
    match skipSpace rest with
    | ']' :: rest => return ([item], rest)
    | ',' :: rest => do
      let (items, rest) ← readItems depth (skipSpace rest)
      return (item :: items, rest)
    | rest => throw (.problem .commaExpected rest)

/-- The members of an object up to its end. -/
def readMembers : Nat → Reader (List (String × Json))
  | 0, input => .error (.problem .nameExpected input)
  | depth + 1, input => do
    if input.head? ≠ some '"' then throw (.problem .nameExpected input)
    let (name, rest) ← readText input
    let afterColon ← match skipSpace rest with
      | ':' :: rest => pure (skipSpace rest)
      | rest => throw (.problem .colonExpected rest)
    let (value, rest) ← readValue depth afterColon
    match skipSpace rest with
    | '\x7d' :: rest => return ([(name, value)], rest)
    | ',' :: rest => do
      let (members, rest) ← readMembers depth (skipSpace rest)
      return ((name, value) :: members, rest)
    | rest => throw (.problem .commaExpected rest)

end

/-- The place of a fault, counted in letters from zero and in lines and columns from one. -/
structure Fault where
  problem : Problem
  place : Nat
  line : Nat
  column : Nat
  deriving DecidableEq

/-- A column is counted from the last line feed before the place. -/
def Fault.after (before : List Char) (problem : Problem) : Fault :=
  let letters := lettersOf before
  { problem
    place := letters.length
    line := letters.count ['\n'] + 1
    column := (letters.reverse.takeWhile (· ≠ ['\n'])).length + 1 }

def Fault.message (fault : Fault) : String :=
  s!"{fault.problem.message}: line {fault.line} column {fault.column} (char {fault.place})"

/-- Why a text could not be read. -/
inductive Refusal where
  | malformed (fault : Fault)
  | integerTooLong (digits : Nat)
  deriving DecidableEq

/-- Reads characters that make up one value and nothing else but space. Twice their number is more
depth than any value in them takes. -/
def readAll (chars : List Char) : Except Refusal Json :=
  let fault (problem : Problem) (rest : List Char) : Except Refusal Json :=
    .error (.malformed (.after (chars.take (chars.length - rest.length)) problem))
  match readValue (2 * chars.length + 2) (skipSpace chars) with
  | .error (.problem problem rest) => fault problem rest
  | .error (.integerTooLong digits) => .error (.integerTooLong digits)
  | .ok (value, rest) =>
    if (skipSpace rest).isEmpty then .ok value else fault .extraData (skipSpace rest)

/-- Reads a text, which no byte order mark may lead. -/
def read (text : String) : Except Refusal Json :=
  let chars := text.toList
  if chars.head? = some '\uFEFF' then .error (.malformed (.after [] .byteOrderMark))
  else readAll chars

end Json

end TextGrammar
