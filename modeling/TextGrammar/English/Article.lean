import TextGrammar.English.BaseForms
import TextGrammar.Text.Blank
import TextGrammar.Text.Case
import TextGrammar.Text.Pattern

/-! The indefinite article before a vowel. -/
namespace TextGrammar.English

/-- The article of a word, without the word. -/
def articleFor (forms : BaseForms) (word : List Char) : List Char :=
  (forms.withArticle word).takeWhile (· != ' ')

def capitalized : List Char → List Char
  | [] => []
  | c :: rest => upperChar c :: rest

/-- A lone `a`, blanks and a word that starts with a vowel. -/
def articlePattern (forms : BaseForms) : Pattern
  | before, article :: text =>
    if (article = 'a' || article = 'A') && !wordBefore before then
      let blanks := text.takeWhile isBlank
      let word := (text.dropWhile isBlank).takeWhile isWord
      if !blanks.isEmpty && word.head?.any isVowelAnyCase then
        let fixed := articleFor forms word
        let fixed := if article = 'A' then capitalized fixed else fixed
        some (fixed ++ blanks ++ word, 1 + blanks.length + word.length)
      else none
    else none
  | _, [] => none

end TextGrammar.English
