/-! Forms of English words that a library makes. -/
namespace TextGrammar.English

def isVowel (c : Char) : Bool := c ∈ ['a', 'e', 'i', 'o', 'u']

def isVowelAnyCase (c : Char) : Bool := isVowel c || c ∈ ['A', 'E', 'I', 'O', 'U']

/-- The forms that are not made here, for words that are not empty. -/
structure BaseForms where
  /-- A word with its indefinite article and a space before it. -/
  withArticle : List Char → List Char
  /-- The regular plural of a noun. -/
  plural : List Char → List Char

/-- A `u` whose next letter but one is an `i`, as in "unicorn". -/
def startsSoft : List Char → Bool
  | u :: _ :: i :: _ => (u = 'u' || u = 'U') && (i = 'i' || i = 'I')
  | _ => false

/-- The forms that the program is run with. -/
def baseEnglish : BaseForms where
  withArticle word :=
    if startsSoft word then 'a' :: ' ' :: word
    else if word.head?.any isVowelAnyCase then 'a' :: 'n' :: ' ' :: word
    else 'a' :: ' ' :: word
  plural noun :=
    match noun.reverse with
    | 'y' :: before =>
      if before.head?.any isVowel then noun ++ ['s'] else before.reverse ++ ['i', 'e', 's']
    | c :: _ => if c ∈ ['s', 'h', 'x'] then noun ++ ['e', 's'] else noun ++ ['s']
    | [] => ['s']

end TextGrammar.English
