import TextGrammar.Text.Blank
import TextGrammar.Text.Case
import TextGrammar.Text.Pattern

/-! Agreement of a subject with the verb right after it. -/
namespace TextGrammar.English

def folded (word : List Char) : String := String.ofList (word.map foldChar)

/-- The word that starts at a text and the verb that comes next, if blanks stand between them and
the verb is a word of its own: the word, its folded form, and the size of both together. -/
def subjectOf? (verb : String) (before : Option Char) (text : List Char) :
    Option (List Char × String × Nat) :=
  if wordBefore before || !wordAhead text then none
  else
    let word := text.takeWhile isWord
    let rest := text.dropWhile isWord
    let blanks := rest.takeWhile isBlank
    let tail := rest.dropWhile isBlank
    if !blanks.isEmpty && folded (tail.take verb.length) == verb
        && !wordAhead (tail.drop verb.length) then
      some (word, folded word, word.length + blanks.length + verb.length)
    else none

def singularPronouns : List String := ["he", "she", "it"]
def pluralPronouns : List String := ["they", "we", "you"]

/-- Puts the right verb after one of the pronouns, with a single space between. -/
def verbPattern (pronouns : List String) (wrong right : String) : Pattern := fun before text =>
  match subjectOf? wrong before text with
  | some (word, subject, size) =>
    if subject ∈ pronouns then some (word ++ ' ' :: right.toList, size) else none
  | none => none

/-- A verb after a subject of a certain form. -/
def disagreement (verb : String) (subjects : String → Bool) : Pattern := fun before text =>
  match subjectOf? verb before text with
  | some (word, subject, size) => if subjects subject then some (word, size) else none
  | none => none

/-- Whether a word is longer than an ending it has. -/
def hasEnding (ending word : String) : Bool := word.length > ending.length && word.endsWith ending

/-- Words in `ing` and `ed` call for a look as well as the pronouns. -/
def singularWithAre : Pattern := disagreement "are" fun subject =>
  singularPronouns.contains subject || hasEnding "ing" subject || hasEnding "ed" subject

def pluralWithIs : Pattern := disagreement "is" fun subject =>
  pluralPronouns.contains subject || hasEnding "s" subject

def hasDisagreement (text : List Char) : Bool :=
  singularWithAre.occurs text || pluralWithIs.occurs text

def withAgreement (text : List Char) : List Char :=
  (verbPattern pluralPronouns "is" "are").substitute
    ((verbPattern singularPronouns "are" "is").substitute text)

end TextGrammar.English
