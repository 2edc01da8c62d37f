import TextGrammar.Data
import TextGrammar.Sorting
import TextGrammar.Table

/-! Modifiers change a text once its tokens are expanded, each if its condition holds. -/
namespace TextGrammar

/-- What a modifier may know besides the text. -/
structure Background where
  /-- The text before its tokens were expanded. -/
  input : Value := .nothing
  ruleName : Value := .nothing
  values : Value := .mapping []

abbrev Condition := Value → Background → Except Failure Bool
abbrev Transform := Value → Background → Except Failure Value

structure Modifier where
  name : String
  condition : Condition
  transform : Transform
  priority : Amount

def Modifier.apply (modifier : Modifier) (context : Background) (text : Value) :
    Except Failure Value := do
  if ← modifier.condition text context then modifier.transform text context else return text

/-- Modifiers by name. A modifier that replaces another takes over its place. -/
structure Pipeline where
  modifiers : Table Modifier

namespace Pipeline

instance : EmptyCollection Pipeline := ⟨⟨∅⟩⟩

def add (pipeline : Pipeline) (modifier : Modifier) : Pipeline :=
  ⟨pipeline.modifiers.put modifier.name modifier⟩

def addAll (pipeline : Pipeline) (modifiers : List Modifier) : Pipeline :=
  modifiers.foldl add pipeline

def has (pipeline : Pipeline) (name : String) : Bool := pipeline.modifiers.has name

def erase (pipeline : Pipeline) (name : String) : Pipeline := ⟨pipeline.modifiers.erase name⟩

def size (pipeline : Pipeline) : Nat := pipeline.modifiers.size

/-- Higher priorities first; the sort is stable, so equal priorities keep the order of places. With
a priority that is no number there is no order to keep, and the comparisons that are made decide. -/
def ordered (pipeline : Pipeline) : List Modifier :=
  let modifiers := pipeline.modifiers.entries.map Prod.snd
  if modifiers.any (·.priority.isNan) then
    (Sorting.sortedByRuns (fun a b => a.priority.lt b.priority) modifiers.reverse).reverse
  else modifiers.mergeSort fun a b => !a.priority.lt b.priority

/-- Each modifier sees what the ones before it left. -/
def apply (pipeline : Pipeline) (context : Background) (text : Value) : Except Failure Value :=
  pipeline.ordered.foldlM (fun text modifier => modifier.apply context text) text

end Pipeline

end TextGrammar
