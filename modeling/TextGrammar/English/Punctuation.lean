import TextGrammar.Text.Blank
import TextGrammar.Text.Case
import TextGrammar.Text.Pattern

/-! Blanks around punctuation, and capitals after it. -/
namespace TextGrammar.English

def isMark (c : Char) : Bool := c ∈ [',', '.', '!', '?', ';', ':']

/-- The marks that end a sentence. -/
def isStop (c : Char) : Bool := c ∈ ['.', '!', '?']

/-- Two or more blanks become one space. -/
def blankRunPattern : Pattern := fun _ text =>
  let blanks := text.takeWhile isBlank
  if blanks.length ≥ 2 then some ([' '], blanks.length) else none

/-- A blank before a mark is dropped. -/
def blankBeforeMarkPattern : Pattern
  | _, c :: mark :: _ => if isBlank c && isMark mark then some ([mark], 2) else none
  | _, _ => none

/-- A space comes between a stop and a capital. -/
def stopBeforeCapitalPattern : Pattern
  | _, stop :: c :: _ => if isStop stop && isUpper c then some ([stop, ' ', c], 2) else none
  | _, _ => none

def tidyBlanks (text : List Char) : List Char :=
  let spaced := blankRunPattern.substitute text
  stopBeforeCapitalPattern.substitute (blankBeforeMarkPattern.substitute spaced)

/-- Only blanks call for tidying; a stop before a capital alone does not. -/
def hasUntidyBlanks (text : List Char) : Bool :=
  blankBeforeMarkPattern.occurs text || blankRunPattern.occurs text

/-- The small letter after a stop and blanks becomes a capital. -/
def sentenceStartPattern : Pattern
  | _, stop :: text =>
    if isStop stop then
      let blanks := text.takeWhile isBlank
      match text.dropWhile isBlank with
      | c :: _ =>
        if !blanks.isEmpty && isLower c then
          some (stop :: blanks ++ [upperChar c], blanks.length + 2)
        else none
      | [] => none
    else none
  | _, [] => none

end TextGrammar.English
