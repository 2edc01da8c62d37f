import TextGrammar.Number.Limit
import TextGrammar.Store

/-! How many outcomes a rule has: the tokens of a value multiply, the values of a rule add up. -/
namespace TextGrammar

inductive Count where
  | finite (n : Nat)
  | infinite
  deriving DecidableEq

namespace Count

def isFinite : Count → Bool
  | finite _ => true
  | infinite => false

def add : Count → Count → Count
  | finite m, finite n => finite (m + n)
  | _, _ => infinite

def mul : Count → Count → Count
  | finite m, finite n => finite (m * n)
  | _, _ => infinite

/-- A finite count has to stay in the range of binary64 numbers. -/
def check (count : Count) : Except NumberFault Unit :=
  match count with
  | finite n => (Double.ofInt? n).map fun _ => ()
  | infinite => .ok ()

end Count

namespace Complexity

/-- What the count could not take into account. -/
inductive Warning where
  | circular (name : String)
  | tooDeep (limit : Bound)
  | tooDeepAt (limit : Bound) (name : String)
  | missing (name owner : String)
  | dynamic (name : String)
  | openRange (name : String)
  deriving DecidableEq

def Warning.message : Warning → String
  | circular name => s!"Circular reference detected for rule '{name}'"
  | tooDeep limit =>
    s!"Maximum depth ({limit.limit.text}) reached, complexity may be underestimated"
  | tooDeepAt limit name =>
    s!"Maximum depth ({limit.limit.text}) reached while analyzing '{name}', " ++
      "complexity may be underestimated"
  | missing name owner => s!"Missing rule '{name}' referenced in '{owner}'"
  | dynamic name => s!"Function rule '{name}' has infinite complexity (cannot be calculated)"
  | openRange name => s!"Range rule '{name}' has no step; continuous ranges are unbounded"

def Warning.isCircular : Warning → Bool
  | circular _ => true
  | _ => false

/-- A count, the names asked for on the way, and the warnings, in order. -/
structure Tally where
  count : Count
  names : List String := []
  warnings : List Warning := []

namespace Tally

/-- Goes on after a first tally, unless that one is infinite already: then nothing more is
counted. -/
def andThen (first : Tally) (join : Count → Count → Count)
    (next : Unit → Except NumberFault Tally) : Except NumberFault Tally :=
  if first.count.isFinite then do
    let second ← next ()
    return {
      count := join first.count second.count
      names := first.names ++ second.names
      warnings := first.warnings ++ second.warnings }
  else .ok first

end Tally

/-- What an analysis looks at. -/
structure Setting where
  store : Store
  limit : Bound
  openRangesInfinite : Bool

/-- Counts a rule, whose name starts the path already; warnings show its name as it is given. -/
abbrev RuleCounter := List String → String → Rule → Except NumberFault Tally

variable (setting : Setting) (nested : Option RuleCounter) (path : List String) (owner : String)

/-- One token. What cannot be followed counts once and leaves a warning. -/
def tokenTally (name : String) : Except NumberFault Tally :=
  let once (warnings : List Warning) : Except NumberFault Tally :=
    .ok { count := .finite 1, names := [name], warnings }
  if isReplay name then once []
  else if name ∈ path then once [.circular name]
  else
    match nested, setting.store.rule? name with
    | none, _ => once [.tooDeepAt setting.limit name]
    | some _, none => once [.missing name owner]
    | some counter, some rule => do
      let tally ← counter (name :: path) name rule
      return { tally with names := [name] }

def segmentsTally : List Segment → Except NumberFault Tally
  | [] => .ok { count := .finite 1 }
  | .literal _ :: rest => segmentsTally rest
  | .token name :: rest => do
    (← tokenTally setting nested path owner name).andThen .mul fun () => segmentsTally rest

def valuesTally : List String → Except NumberFault Tally
  | [] => .ok { count := .finite 0 }
  | value :: rest => do
    let tally ← segmentsTally setting nested path owner (Segment.split value)
    tally.count.check
    tally.andThen .add fun () => valuesTally rest

/-- All occurrences of an open name share one choice. -/
def choicesTally (template : Rule.Template) : List String → Except NumberFault Tally
  | [] => .ok { count := .finite 1 }
  | name :: rest => do
    let tally ← valuesTally setting nested path owner ((template.values? name).getD [])
    tally.count.check
    { tally with names := name :: tally.names }.andThen .mul fun () => choicesTally template rest

def rangeTally (range : Rule.Range) : Except NumberFault Tally :=
  if range.step.isNone && setting.openRangesInfinite then
    .ok { count := .infinite, warnings := [.openRange owner] }
  else do return { count := .finite (← range.size) }

def ruleTally (rule : Rule) : Except NumberFault Tally := do
  let tally ← match rule with
    | .function _ => .ok { count := .infinite, warnings := [.dynamic owner] }
    | .range rule => rangeTally setting owner rule
    | .template rule => choicesTally setting nested path owner rule rule.openNames
    | .conditional rule =>
      valuesTally setting nested path owner (rule.branches.flatMap Branch.values)
    | .static { values } | .weighted { values, .. } | .sequential { values, .. } =>
      valuesTally setting nested path owner values
  tally.count.check
  return tally

/-- Counts a rule with the given number of depths left below it. -/
def tallyWithin : Nat → RuleCounter
  | 0 => ruleTally setting none
  | room + 1 => ruleTally setting (some (tallyWithin room))

end Complexity

/-- Why a rule was counted as it was. -/
inductive Verdict where
  | counted (kind : RuleKind)
  | circular
  | tooDeep
  deriving DecidableEq

def Verdict.text : Verdict → String
  | counted kind => kind.text
  | circular => "circular"
  | tooDeep => "max-depth"

structure RuleComplexity where
  name : String
  count : Count
  verdict : Verdict
  names : List String
  depth : Nat
  warnings : List Complexity.Warning

/-- The number of outcomes of a rule that lies below the visited ones; messages show its name in a
way of their own. -/
def complexityShown (setting : Complexity.Setting) (visited : List String) (shown name : String) :
    Except Failure RuleComplexity :=
  let depth := visited.length
  match setting.store.rule? name with
  | none => .error (.unknownRule shown)
  | some rule =>
    if name ∈ visited then
      .ok { name, count := .finite 1, verdict := .circular, names := [], depth
            warnings := [.circular shown] }
    else if setting.limit.value ≤ depth then
      .ok { name, count := .finite 1, verdict := .tooDeep, names := [], depth
            warnings := [.tooDeep setting.limit] }
    else
      let room := (setting.limit.value - depth - 1).toNat
      match Complexity.tallyWithin setting room (name :: visited) shown rule with
      | .error fault => .error (.number fault)
      | .ok tally =>
        .ok { name, count := tally.count, verdict := .counted rule.kind
              names := tally.names.eraseDups, depth, warnings := tally.warnings }

def complexityOf (setting : Complexity.Setting) (visited : List String) (name : String) :
    Except Failure RuleComplexity :=
  complexityShown setting visited name name

structure TotalComplexity where
  total : Count
  rules : List RuleComplexity
  average : Double
  mostComplex : List RuleComplexity
  warnings : List String
  circular : List String

/-- All rules together. The average leaves out the rules without a finite count. -/
def overallComplexity (setting : Complexity.Setting) : Except Failure TotalComplexity := do
  let rules ← setting.store.names.mapM fun name =>
    complexityShown setting [] (setting.store.shownName name) name
  let finite := rules.filterMap fun rule => match rule.count with
    | .finite n => some (n, rule)
    | .infinite => none
  let sum : Nat := (finite.map Prod.fst).foldl (· + ·) 0
  let average ←
    if finite.isEmpty then pure 0
    else (Double.ofIntQuotient? sum finite.length).mapError .number
  return {
    total := if finite.length = rules.length then .finite sum else .infinite
    rules
    average
    mostComplex := ((finite.mergeSort fun a b => b.1 ≤ a.1).map Prod.snd).take 5
    warnings := (rules.flatMap fun rule => rule.warnings.map (·.message)).eraseDups
    circular := (rules.filter (·.warnings.any (·.isCircular))).map (·.name) }

end TextGrammar
