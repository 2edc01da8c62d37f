import TextGrammar.Rule.Range

/-! Drawing a raw value, which moves on the source, calls of generators and places of sequences. -/
namespace TextGrammar

/-- A value or nothing, and the rule and the source afterwards. -/
abbrev Draw (ρ : Type) := Except Failure (Option String) × ρ × Source

def Draw.map {ρ σ : Type} (f : ρ → σ) (draw : Draw ρ) : Draw σ := (draw.1, f draw.2.1, draw.2.2)

def chosen {ρ : Type} (rule : ρ) (values : List String) (source : Source) : Draw ρ :=
  let (value, source) := source.choose values
  (value.map some, rule, source)

def Rule.Static.draw (rule : Rule.Static) (source : Source) : Draw Rule.Static :=
  if rule.values.isEmpty then (.ok none, rule, source) else chosen rule rule.values source

def Rule.Function.draw (rule : Rule.Function) (name : String) (source : Source) :
    Draw Rule.Function :=
  let called := { rule with calls := rule.calls + 1 }
  match rule.answer rule.calls with
  | .failed message => (.error (.generator name message), called, source)
  | .other found =>
    (.error (.generator name s!"function must return a list, got {found}"), called, source)
  | .values values =>
    if values.isEmpty then (.ok none, called, source)
    else
      let (value, source) := source.choose values
      (value.map fun value => some value.display, called, source)

def Rule.Weighted.draw (rule : Rule.Weighted) (source : Source) : Draw Rule.Weighted :=
  let (value, source) := source.chooseWeighted rule.values rule.bounds
  (value.map some, rule, source)

/-- The values of the first branch whose test holds, or else those of the default branch. Tests
after the first that holds are not tried. -/
def selectBranch (name : String) (scope : Scope) :
    Option (List String) → List Branch → Except Failure (List String)
  | some fallback, [] => .ok fallback
  | none, [] => .error (.noBranch name)
  | _, .otherwise values :: rest => selectBranch name scope (some values) rest
  | fallback, .given test values :: rest =>
    match test scope with
    | .error failure => .error failure
    | .ok true => .ok values
    | .ok false => selectBranch name scope fallback rest

def Rule.Conditional.draw (rule : Rule.Conditional) (name : String) (scope : Scope)
    (source : Source) : Draw Rule.Conditional :=
  match selectBranch name scope none rule.branches with
  | .error failure => (.error failure, rule, source)
  | .ok values => chosen rule values source

/-- The next value in turn; after the last one comes the first again, or the last one for good. -/
def Rule.Sequential.draw (rule : Rule.Sequential) (source : Source) : Draw Rule.Sequential :=
  let index := if rule.index < rule.values.length then rule.index else 0
  if rule.index ≥ rule.values.length && !rule.cycle then
    match rule.values.getLast? with
    | some value => (.ok (some value), rule, source)
    | none => (.error .noIndex, rule, source)
  else
    match rule.values[index]? with
    | some value => (.ok (some value), { rule with index := index + 1 }, source)
    | none => (.error .noIndex, { rule with index }, source)

def Rule.Sequential.reset (rule : Rule.Sequential) : Rule.Sequential := { rule with index := 0 }

/-- Fills the open names one after the other, each with one choice for all its occurrences. -/
def Rule.Template.fill (rule : Rule.Template) :
    List String → String → Source → Except Failure String × Source
  | [], text, source => (.ok text, source)
  | name :: rest, text, source =>
    match source.choose ((rule.values? name).getD []) with
    | (.error failure, source) => (.error failure, source)
    | (.ok value, source) => rule.fill rest (fillToken name value text) source

def Rule.Template.draw (rule : Rule.Template) (source : Source) : Draw Rule.Template :=
  let (text, source) := rule.fill rule.openNames rule.template source
  (text.map some, rule, source)

def Rule.draw (name : String) (scope : Scope) (source : Source) : Rule → Draw Rule
  | function rule => (rule.draw name source).map .function
  | conditional rule => (rule.draw name scope source).map .conditional
  | sequential rule => (rule.draw source).map .sequential
  | range rule =>
    let (value, source) := rule.draw source
    ((value.map some).mapError .number, .range rule, source)
  | template rule => (rule.draw source).map .template
  | weighted rule => (rule.draw source).map .weighted
  | static rule => (rule.draw source).map .static

end TextGrammar
