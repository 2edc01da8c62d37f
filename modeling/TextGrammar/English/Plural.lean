import TextGrammar.English.Article
import TextGrammar.English.Ordinal
import TextGrammar.English.Agreement

/-! Plurals of nouns, and the nouns after a quantifier that take them. -/
namespace TextGrammar.English

def irregulars : List (String × String) :=
  [("addendum", "addenda"), ("aircraft", "aircraft"), ("alumna", "alumnae"),
   ("alumnus", "alumni"), ("analysis", "analyses"), ("antenna", "antennae"),
   ("antithesis", "antitheses"), ("apex", "apices"), ("appendix", "appendices"),
   ("axis", "axes"), ("bacillus", "bacilli"), ("bacterium", "bacteria"), ("basis", "bases"),
   ("beau", "beaux"), ("bison", "bison"), ("bureau", "bureaux"), ("cactus", "cacti"),
   ("child", "children"), ("codex", "codices"), ("concerto", "concerti"), ("corpus", "corpora"),
   ("crisis", "crises"), ("criterion", "criteria"), ("curriculum", "curricula"),
   ("datum", "data"), ("deer", "deer"), ("diagnosis", "diagnoses"), ("die", "dice"),
   ("dwarf", "dwarves"), ("ellipsis", "ellipses"), ("erratum", "errata"), ("fez", "fezzes"),
   ("fish", "fish"), ("focus", "foci"), ("foot", "feet"), ("formula", "formulae"),
   ("fungus", "fungi"), ("genus", "genera"), ("goose", "geese"), ("graffito", "graffiti"),
   ("grouse", "grouse"), ("half", "halves"), ("hoof", "hooves"), ("hypothesis", "hypotheses"),
   ("index", "indices"), ("larva", "larvae"), ("libretto", "libretti"), ("loaf", "loaves"),
   ("locus", "loci"), ("louse", "lice"), ("man", "men"), ("matrix", "matrices"),
   ("medium", "media"), ("memorandum", "memoranda"), ("minutia", "minutiae"), ("moose", "moose"),
   ("mouse", "mice"), ("nebula", "nebulae"), ("nucleus", "nuclei"), ("oasis", "oases"),
   ("offspring", "offspring"), ("opus", "opera"), ("ovum", "ova"), ("ox", "oxen"),
   ("parenthesis", "parentheses"), ("person", "people"), ("phenomenon", "phenomena"),
   ("phylum", "phyla"), ("quiz", "quizzes"), ("radius", "radii"), ("referendum", "referenda"),
   ("salmon", "salmon"), ("scarf", "scarves"), ("self", "selves"), ("series", "series"),
   ("sheep", "sheep"), ("shrimp", "shrimp"), ("species", "species"), ("stimulus", "stimuli"),
   ("stratum", "strata"), ("swine", "swine"), ("syllabus", "syllabi"), ("symposium", "symposia"),
   ("synopsis", "synopses"), ("tableau", "tableaux"), ("thesis", "theses"), ("thief", "thieves"),
   ("tooth", "teeth"), ("trout", "trout"), ("tuna", "tuna"), ("vertebra", "vertebrae"),
   ("vertex", "vertices"), ("vita", "vitae"), ("vortex", "vortices"), ("wharf", "wharves"),
   ("wife", "wives"), ("wolf", "wolves"), ("woman", "women")]

/-- Nouns in `f` and `fe` that take a plain `s`. -/
def regularInF : List String :=
  ["belief", "chief", "cliff", "proof", "roof", "safe", "chef", "handkerchief"]

/-- Nouns in `o` after a consonant that take a plain `s`. -/
def regularInO : List String :=
  ["photo", "piano", "halo", "disco", "studio", "radio", "video", "auto", "memo", "pro",
   "casino", "patio", "portfolio", "logo", "commando", "solo", "soprano", "alto", "kimono"]

/-- Words that often follow a quantifier and are no nouns. -/
def otherWords : List String :=
  ["the", "a", "an", "of", "and", "or", "my", "your", "his", "her", "its", "our", "their",
   "these", "those", "this", "that", "more", "other", "such", "less", "longer", "one", "is",
   "are", "was", "were"]

/-- Words that call for a plural, besides numbers. -/
def countWords : List String :=
  ["many", "several", "multiple", "some", "few", "all", "both", "various", "numerous", "zero",
   "no", "two", "three", "four", "five", "six", "seven", "eight", "nine", "ten", "eleven",
   "twelve", "thirteen", "fourteen", "fifteen", "sixteen", "seventeen", "eighteen", "nineteen",
   "twenty"]

def irregularPlural? (lower : String) : Option String := irregulars.lookup lower

/-- Gives a word the case of another one: all capitals, a capital at the start, or its own case.
Only letters of ASCII get here, since no other letter turns into one of an irregular noun. -/
def inCaseOf (model word : List Char) : List Char :=
  if model.all (fun c => !isLower c) && model.length > 1 then word.map upperChar
  else if model.head?.any (fun c => !isLower c) then capitalized word
  else word

/-- The text before a final line break, and the line break. -/
def splitFinalBreak (text : List Char) : List Char × List Char :=
  if text.getLast? = some '\n' then (text.dropLast, ['\n']) else (text, [])

/-- What remains of a noun before its final `f` or `fe`, and the line break after it, if any. -/
def stemInF? (noun : List Char) : Option (List Char × List Char) :=
  let (line, ending) := splitFinalBreak noun
  match (line.reverse.map foldChar), line.reverse with
  | 'f' :: _, _ :: stem => some (stem.reverse, ending)
  | 'e' :: 'f' :: _, _ :: _ :: stem => some (stem.reverse, ending)
  | _, _ => none

/-- Whether a noun ends in an `o` after anything but a vowel, maybe before a line break. -/
def isConsonantAndO (lower : List Char) : Bool :=
  let endsSo (text : List Char) : Bool :=
    match text.reverse with
    | 'o' :: c :: _ => !isVowel c
    | _ => false
  endsSo lower || endsSo (splitFinalBreak lower).1

def pluralOf (forms : BaseForms) (noun : List Char) : List Char :=
  let lower := lowerText noun
  let word := String.ofList lower
  if lower.length < 2 then noun ++ ['s']
  else
    match irregularPlural? word with
    | some plural => inCaseOf noun plural.toList
    | none =>
      if word.endsWith "z" then noun ++ ['e', 's']
      else if word.endsWith "h" && !word.endsWith "sh" && !word.endsWith "ch" then noun ++ ['s']
      else
        match stemInF? noun with
        | some (stem, ending) =>
          if word ∈ regularInF || word.endsWith "ff" then noun ++ ['s']
          else stem ++ ['v', 'e', 's'] ++ ending
        | none =>
          if isConsonantAndO lower && !regularInO.contains word then noun ++ ['e', 's']
          else forms.plural noun

/-- Only a text has a plural. -/
def plural {φ μ : Type} (forms : BaseForms) (noun : Data φ μ) : Except Failure (Data φ μ) :=
  match noun, noun.text? with
  | _, some value => .ok (.text (String.ofList (pluralOf forms value.toList)))
  | .bytes value, _ =>
    .error (.kind (if value.length < 2 then .notAddable "bytes" "str" else .notAnEnding))
  | _, _ => .error (.noAttribute noun.found "lower")

/-- A noun that is an irregular singular is no plural, whatever it ends in. -/
def isPluralForm (noun : List Char) : Bool :=
  let word := String.ofList (lowerText noun)
  if (irregularPlural? word).isSome then false
  else if irregulars.any (·.2 == word) then true
  else word.endsWith "s" && !(word.endsWith "ss" || word.endsWith "us" || word.endsWith "is")

/-- A number or a quantifier, blanks and a word of letters: the three parts of the text. -/
def quantified? (before : Option Char) (text : List Char) :
    Option (List Char × List Char × List Char) :=
  if wordBefore before || !wordAhead text then none
  else
    let quantifier := text.takeWhile isWord
    let rest := text.dropWhile isWord
    let blanks := rest.takeWhile isBlank
    let tail := rest.dropWhile isBlank
    let noun := tail.takeWhile isLetter
    if (quantifier.all isDigit || countWords.contains (folded quantifier)) && !blanks.isEmpty
        && !noun.isEmpty && !wordAhead (tail.dropWhile isLetter) then
      some (quantifier, blanks, noun)
    else none

/-- A number one, a word that is no noun and a plural are left as they are. -/
def pluralPattern (forms : BaseForms) : Pattern := fun before text =>
  match quantified? before text with
  | none => none
  | some (quantifier, blanks, noun) =>
    let size := quantifier.length + blanks.length + noun.length
    let isOne := quantifier.all isDigit && digitRunValue quantifier == 1
    if isOne || otherWords.contains (String.ofList (lowerText noun)) || isPluralForm noun then
      some (quantifier ++ blanks ++ noun, size)
    else some (quantifier ++ ' ' :: pluralOf forms noun, size)

/-- The size of the first number before a noun that is too long to be read. -/
def overlongQuantifier? : Option Char → List Char → Option Nat
  | _, [] => none
  | before, c :: text =>
    match quantified? before (c :: text) with
    | some (quantifier, _, _) =>
      if quantifier.all isDigit && quantifier.length > maxNumeralDigits then some quantifier.length
      else overlongQuantifier? (some c) text
    | none => overlongQuantifier? (some c) text

def withPlurals (forms : BaseForms) (text : List Char) : Except Failure (List Char) :=
  match overlongQuantifier? none text with
  | some size => .error (.value (.integerTooLong size))
  | none => .ok ((pluralPattern forms).substitute text)

end TextGrammar.English
