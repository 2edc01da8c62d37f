/-! The seven kinds of rules, in order of precedence. -/
namespace TextGrammar

/-- Of several rules under one name, the first kind is the one that is drawn from. -/
inductive RuleKind where
  | function
  | conditional
  | sequential
  | range
  | template
  | weighted
  | static
  deriving DecidableEq

namespace RuleKind

def all : List RuleKind := [function, conditional, sequential, range, template, weighted, static]

def text : RuleKind → String
  | function => "function"
  | conditional => "conditional"
  | sequential => "sequential"
  | range => "range"
  | template => "template"
  | weighted => "weighted"
  | static => "static"

/-- A kind as it is shown by itself rather than as its word. -/
def shown (kind : RuleKind) : String := "RuleType." ++ kind.text.toUpper

/-- How many kinds take precedence. -/
def rank (kind : RuleKind) : Nat := all.idxOf kind

theorem mem_all (kind : RuleKind) : kind ∈ all := by cases kind <;> decide

end RuleKind

end TextGrammar
