import TextGrammar.Data
import TextGrammar.Random
import TextGrammar.Table
import TextGrammar.Text.Pieces
import TextGrammar.Token

/-! Rules: seven ways of producing a raw value, which may still hold tokens. -/
namespace TextGrammar

/-- The value last given to each name in the current run. -/
abbrev Context := Table String

/-- What the tests of branches look at: the values of a run, or whatever is given in place of
them. -/
inductive Scope where
  | run (values : Context)
  | other (value : Value)

/-- A scope as data. -/
def Scope.value : Scope → Value
  | run values => .mapping (values.entries.map fun (name, value) => (.text name, .text value))
  | other value => value

structure Rule.Static where
  values : List String
  deriving DecidableEq

/-- What a generator gives back: values, which are written as texts when they are drawn, something
that is no list of values, or a failure. -/
inductive Answer where
  | values (values : List Value)
  | other (found : String)
  | failed (message : String)

/-- A generator is known by what each of its calls answers, and keeps count of them. -/
structure Rule.Function where
  answer : Nat → Answer
  calls : Nat

/-- The running totals from a start on, each rounded as a term is added. -/
def totalsFrom (start : Double) : List Double → List Double
  | [] => []
  | weight :: rest => (start + weight) :: totalsFrom (start + weight) rest

structure Rule.Weighted where
  values : List String
  weights : List Double
  /-- The running totals of the weights. -/
  bounds : List Double := totalsFrom 0 weights
  bounds_eq : bounds = totalsFrom 0 weights := by rfl
  deriving DecidableEq

abbrev Predicate := Scope → Except Failure Bool

inductive Branch where
  | given (test : Predicate) (values : List String)
  | otherwise (values : List String)

structure Rule.Conditional where
  branches : List Branch

/-- The index is the place of the next value, or the length if the last one was just given. -/
structure Rule.Sequential where
  values : List String
  cycle : Bool
  index : Nat
  deriving DecidableEq

inductive RangeKind where
  | integer
  | decimal
  deriving DecidableEq

def RangeKind.text : RangeKind → String
  | integer => "integer"
  | decimal => "float"

structure Rule.Range where
  low : Amount
  high : Amount
  step : Option Amount
  kind : RangeKind
  deriving DecidableEq

structure Rule.Template where
  template : String
  /-- Values by keys. Tokens ask for texts; any other key is kept, but never asked for. -/
  choices : List (Value × List String)

inductive Rule where
  | function (rule : Rule.Function)
  | conditional (rule : Rule.Conditional)
  | sequential (rule : Rule.Sequential)
  | range (rule : Rule.Range)
  | template (rule : Rule.Template)
  | weighted (rule : Rule.Weighted)
  | static (rule : Rule.Static)

def Rule.kind : Rule → RuleKind
  | function _ => .function
  | conditional _ => .conditional
  | sequential _ => .sequential
  | range _ => .range
  | template _ => .template
  | weighted _ => .weighted
  | static _ => .static

def Branch.values : Branch → List String
  | given _ values => values
  | otherwise values => values

def Branch.isOtherwise : Branch → Bool
  | given .. => false
  | otherwise _ => true

/-- The names of the template's tokens that its own choices fill; replays are left. -/
def Rule.Template.openNames (rule : Rule.Template) : List String :=
  (tokenNames rule.template).filter (!isReplay ·)

/-- The values that fill an open name. -/
def Rule.Template.values? (rule : Rule.Template) (name : String) : Option (List String) :=
  (rule.choices.find? fun choice => choice.1.text? = some name).map Prod.snd

/-- Fills in every occurrence of a token. -/
def fillToken (name value text : String) : String :=
  String.ofList (replaceAll (Segment.tokenText name).toList value.toList text.toList)

end TextGrammar
