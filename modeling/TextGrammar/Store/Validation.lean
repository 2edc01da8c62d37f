import TextGrammar.Store
import TextGrammar.Text.Blank
import TextGrammar.Text.Case

/-! Structural findings about a grammar: missing, self-referring, empty and unreachable rules. -/
namespace TextGrammar

/-- Conventional names of rules that a text starts from. -/
def rootNames : List String :=
  ["main", "start", "root", "entry", "begin", "sentence", "story", "text", "output", "origin",
   "template", "pattern", "format"]

/-- Case does not matter for a root name, and a line break may end it. -/
def isRootName (name : String) : Bool :=
  let folded := name.toList.map foldChar
  rootNames.any fun root => folded = root.toList || folded = root.toList ++ ['\n']

structure Validation where
  missing : List String
  circular : List String
  empty : List String
  unreachable : List String
  warnings : List String
  deriving DecidableEq

namespace Validation

def isValid (validation : Validation) : Bool :=
  validation.missing.isEmpty && validation.circular.isEmpty && validation.empty.isEmpty

end Validation

/-- The names that the values of a rule ask for. -/
def references (values : List String) : List String :=
  values.flatMap fun value => (tokenNames value).filter (!isReplay ·)

def isBlankText (text : String) : Bool := text.toList.all isBlank

namespace Store

variable (store : Store)

/-- Only static rules are searched for references, but a rule of any kind answers one. -/
def referencedNames : List String :=
  store.staticValues.entries.flatMap fun rule => references rule.2

def unreachableNames : List String :=
  let referenced := store.referencedNames
  store.names.filter fun name => !referenced.contains name && !isRootName name

def validationWarnings (empty unreachable : Nat) : List String :=
  let rules := store.names.length
  (if empty > 0 then [s!"Found {empty} empty rules that may cause issues"] else [])
    ++ (if unreachable > 5 then
        [s!"Found {unreachable} unreachable rules - consider cleanup"] else [])
    ++ (if rules > 100 then
        [s!"Large grammar with {rules} rules - consider organizing into groups"] else [])
    ++ (if rules = 0 then ["Grammar has no rules"] else [])

def validate : Validation :=
  let rules := store.staticValues.entries
  let empty := (rules.filter fun rule => rule.2.all isBlankText).map Prod.fst
  let unreachable := store.unreachableNames
  { missing := (store.referencedNames.filter (!store.hasName ·)).eraseDups
    circular := (rules.filter fun rule => (references rule.2).contains rule.1).map Prod.fst
    empty, unreachable
    warnings := store.validationWarnings empty.length unreachable.length }

end Store

def commaList (names : List String) : String := ", ".intercalate names

/-- At most five names, and a sign that there are more. -/
def shortList (names : List String) : String :=
  commaList (names.take 5) ++ (if names.length > 5 then "..." else "")

namespace Validation

/-- A line for each finding that there is. -/
def summary (validation : Validation) : String :=
  let line (label : String) (names : List String) (shown : List String → String) : List String :=
    if names.isEmpty then [] else [label ++ ": " ++ shown names]
  "\n".intercalate (
    [if validation.isValid then "Grammar validation passed" else "Grammar validation failed"]
    ++ line "Missing rules" validation.missing commaList
    ++ line "Circular references" validation.circular commaList
    ++ line "Empty rules" validation.empty commaList
    ++ line "Unreachable rules" validation.unreachable shortList
    ++ (if validation.warnings.isEmpty then []
        else "Warnings:" :: validation.warnings.map ("  - " ++ ·)))

end Validation

end TextGrammar
