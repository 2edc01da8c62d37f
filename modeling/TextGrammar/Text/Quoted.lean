import TextGrammar.Text.Code
import TextGrammar.Text.Printable

/-! Texts between quotes, on one line and in printable characters only. -/
namespace TextGrammar

/-- The hexadecimal digits of a number, filled up with zeros to a width. -/
def hexDigits (width n : Nat) : List Char :=
  let digits := Nat.toDigits 16 n
  List.replicate (width - digits.length) '0' ++ digits

/-- The escape of a character by its code, in as few digits as its plane allows. -/
def escapedCode (code : Nat) : List Char :=
  if code < 0x100 then '\\' :: 'x' :: hexDigits 2 code
  else if code < 0x10000 then '\\' :: 'u' :: hexDigits 4 code
  else '\\' :: 'U' :: hexDigits 8 code

def escapeChar (quote c : Char) : List Char :=
  if c = quote || c = '\\' then ['\\', c]
  else if c = '\n' then ['\\', 'n']
  else if c = '\r' then ['\\', 'r']
  else if c = '\t' then ['\\', 't']
  else if isPrintable c then [c]
  else escapedCode c.toNat

/-- A letter of two characters is not printable. -/
def escapeLetter (quote : Char) (letter : List Char) : List Char :=
  match letter with
  | [c] => escapeChar quote c
  | _ => escapedCode (letterCode letter)

/-- Double quotes are used only where they spare escapes: around a text with single quotes and
without double ones. -/
def quoteFor (text : List Char) : Char :=
  if text.contains '\'' && !text.contains '"' then '"' else '\''

def quoted (text : String) : String :=
  let quote := quoteFor text.toList
  String.ofList (quote :: (lettersOf text.toList).flatMap (escapeLetter quote) ++ [quote])

/-- The bytes of a byte text are escaped beyond ASCII, each by its two hexadecimal digits. -/
def quotedBytes (bytes : List UInt8) : String :=
  let chars := bytes.map fun b => Char.ofNat b.toNat
  let quote := quoteFor chars
  let escape (c : Char) : List Char :=
    if c.toNat < 0x80 then escapeChar quote c else '\\' :: 'x' :: hexDigits 2 c.toNat
  String.ofList ('b' :: quote :: chars.flatMap escape ++ [quote])

end TextGrammar
