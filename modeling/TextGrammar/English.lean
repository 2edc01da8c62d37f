import TextGrammar.Data.Operations
import TextGrammar.English.Plural
import TextGrammar.English.Possessive
import TextGrammar.English.Punctuation
import TextGrammar.Modifier

/-! The modifiers for English texts. -/
namespace TextGrammar.English

/-- A modifier that looks at the text only. -/
def textModifier (name : String) (priority : Nat) (condition : List Char → Bool)
    (transform : List Char → Except Failure (List Char)) : Modifier where
  name := name
  condition text _ := text.searched.map fun text => condition text.toList
  transform text _ := do return .text (String.ofList (← transform (← text.searched).toList))
  priority := .whole priority

def articles (forms : BaseForms) : Modifier :=
  textModifier "englishArticles" 10 (articlePattern forms).occurs fun text =>
    .ok ((articlePattern forms).substitute text)

def punctuation : Modifier :=
  textModifier "englishPunctuationCleanup" 9 hasUntidyBlanks fun text => .ok (tidyBlanks text)

def ordinals : Modifier := textModifier "englishOrdinals" 8 ordinalPattern.occurs withOrdinals

def capitalization : Modifier :=
  textModifier "englishCapitalization" 7 sentenceStartPattern.occurs fun text =>
    .ok (sentenceStartPattern.substitute text)

/-- A list that holds the marker calls for this modifier as well, but only a text can be split. -/
def possessives : Modifier where
  name := "englishPossessive"
  condition text _ := text.holds (String.ofList ownerMarker)
  transform text _ :=
    match text.text? with
    | some value => .ok (.text (String.ofList (withPossessives value.toList)))
    | none => .error (text.noMethod "split" (.notAContainer "bytes"))
  priority := 6

def agreement : Modifier :=
  textModifier "englishVerbAgreement" 5 hasDisagreement fun text => .ok (withAgreement text)

def plurals (forms : BaseForms) : Modifier :=
  textModifier "englishPluralization" 4 (pluralPattern forms).occurs (withPlurals forms)

def allModifiers (forms : BaseForms) : List Modifier :=
  [articles forms, plurals forms, ordinals, capitalization, possessives, agreement, punctuation]

/-- Ordinals change every number that stands alone, so they are left out. -/
def defaultModifiers (forms : BaseForms) : List Modifier :=
  [articles forms, plurals forms, capitalization, possessives, agreement, punctuation]

end TextGrammar.English
