import TextGrammar.Json
import TextGrammar.Text.Quoted

/-! Writing JSON in ASCII. -/
namespace TextGrammar.Json

/-- The escape of a 16-bit unit by its four digits. -/
def unitEscape (unit : Nat) : List Char := '\\' :: 'u' :: hexDigits 4 unit

/-- Codes beyond 16 bits are escaped as a pair of surrogates, halves that stand alone as they
are. -/
def asciiEscape (code : Nat) : List Char :=
  if code < 0x10000 then unitEscape code
  else
    let offset := code - 0x10000
    unitEscape (0xD800 + offset / 0x400) ++ unitEscape (0xDC00 + offset % 0x400)

def writtenChar (c : Char) : List Char :=
  if c = '"' || c = '\\' then ['\\', c]
  else if c = '\n' then ['\\', 'n']
  else if c = '\r' then ['\\', 'r']
  else if c = '\t' then ['\\', 't']
  else if c = '\x08' then ['\\', 'b']
  else if c = '\x0c' then ['\\', 'f']
  else if ' ' ≤ c && c ≤ '~' then [c]
  else asciiEscape c.toNat

def writtenLetter (letter : List Char) : List Char :=
  match letter with
  | [c] => writtenChar c
  | _ => asciiEscape (letterCode letter)

def writtenText (text : String) : String :=
  String.ofList ('"' :: (lettersOf text.toList).flatMap writtenLetter ++ ['"'])

def writtenBool (value : Bool) : String := if value then "true" else "false"

/-- An object of values that are written already, one member to a line. -/
def writtenObject (members : List (String × String)) : String :=
  let line (name value : String) : String := "  " ++ writtenText name ++ ": " ++ value
  "\x7b\n" ++ ",\n".intercalate (members.map fun (name, value) => line name value) ++ "\n\x7d"

end TextGrammar.Json
