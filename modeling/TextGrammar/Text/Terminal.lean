import TextGrammar.Text.Pattern
import TextGrammar.Text.Quoted

/-! Line breaks and the escape sequences of terminals. -/
namespace TextGrammar

/-- Every way of breaking lines becomes a line feed. -/
def plainBreaks : List Char → List Char
  | [] => []
  | '\r' :: '\n' :: text => '\n' :: plainBreaks text
  | c :: text => (if c = '\r' then '\n' else c) :: plainBreaks text

/-- The characters between two codes in ASCII. -/
def isWithin (low high : Nat) (c : Char) : Bool := low ≤ c.toNat && c.toNat ≤ high

/-- An escape, a bracket, parameters, intermediates and a final character, with nothing in their
place. The three kinds of characters after the bracket have no character in common. -/
def escapeSequence : Pattern
  | _, '\x1b' :: '[' :: text =>
    let parameters := text.takeWhile (isWithin 0x30 0x3F)
    let rest := text.dropWhile (isWithin 0x30 0x3F)
    let intermediates := rest.takeWhile (isWithin 0x20 0x2F)
    if (rest.dropWhile (isWithin 0x20 0x2F)).head?.any (isWithin 0x40 0x7E) then
      some ([], parameters.length + intermediates.length + 3)
    else none
  | _, _ => none

/-- A text for readers that are no terminals. -/
def withoutEscapes (text : String) : String := String.ofList (escapeSequence.substitute text.toList)

/-- Where nothing else can be written, halves of surrogate pairs are escaped by their digits. -/
def withEscapedHalves (text : String) : String :=
  String.ofList ((lettersOf text.toList).flatMap fun letter =>
    if isSurrogate (letterCode letter) then escapedCode (letterCode letter) else letter)

end TextGrammar
