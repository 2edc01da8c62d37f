import Mathlib.Algebra.BigOperators.Group.List.Basic
import Mathlib.Algebra.Order.Field.Rat
import TextGrammar.Expansion
import TextGrammar.Proofs.Rule.Texts

/-! An expansion as a tree of choices, answered by the random source or by ideal draws. -/
namespace TextGrammar

/-- What is left to chance: a place in a list, a value by its weight, or a number of a range. -/
inductive Question where
  | among (values : List String)
  | weighted (rule : Rule.Weighted)
  | number (rule : Rule.Range)

abbrev Reply := Except Failure String

namespace Question

/-- The answer of the random source. -/
def answer (source : Source) : Question → Reply × Source
  | among values => source.choose values
  | weighted rule => source.chooseWeighted rule.values rule.bounds
  | number rule =>
    let (text, source) := rule.draw source
    (text.mapError .number, source)

/-- Ideal answers with their chances: places and steps are equally likely, and a value is as likely
as it weighs. Numbers without a step are not told one by one. -/
def ideal : Question → List (Reply × ℚ)
  | among values => values.map fun value => (.ok value, 1 / (values.length : ℚ))
  | weighted rule =>
    (rule.values.zip rule.weights).map fun (value, weight) => (.ok value, weight.toRat)
  | number rule =>
    match rule.step, rule.size with
    | none, _ => []
    | some _, .error fault => [(.error (.number fault), 1)]
    | some _, .ok count =>
      (List.range count).map fun (index : ℕ) =>
        ((rule.nth (.whole index)).mapError .number, 1 / (count : ℚ))

end Question

/-- A computation that asks questions one after the other. -/
inductive Choices (α : Type) where
  | done (result : α)
  | ask (question : Question) (next : Reply → Choices α)

namespace Choices

variable {α β : Type}

def bind (next : α → Choices β) : Choices α → Choices β
  | done result => next result
  | ask question rest => ask question fun answer => (rest answer).bind next

/-- The result with the answers of a random source. -/
def run (source : Source) : Choices α → α × Source
  | done result => (result, source)
  | ask question next =>
    let (answer, source) := question.answer source
    (next answer).run source

/-- The mean of a number over independent ideal answers. -/
def mean (value : α → ℚ) : Choices α → ℚ
  | done result => value result
  | ask question next =>
    (question.ideal.map fun (answer, chance) => chance * (next answer).mean value).sum

/-- Some ideal answers lead to the result. -/
inductive CanEnd : Choices α → α → Prop
  | done (result : α) : CanEnd (done result) result
  | ask {question : Question} {next : Reply → Choices α} {reply : Reply} {result : α} :
    reply ∈ question.ideal.map Prod.fst → CanEnd (next reply) result → CanEnd (ask question next) result

theorem CanEnd.bind {tree : Choices α} {next : α → Choices β} {middle : α} {result : β}
    (h : tree.CanEnd middle) (hnext : (next middle).CanEnd result) :
    (tree.bind next).CanEnd result := by
  induction h with
  | done middle => exact hnext
  | ask hreply _ ih => exact CanEnd.ask hreply (ih hnext)

theorem run_bind (tree : Choices α) (next : α → Choices β) (source : Source) :
    (tree.bind next).run source = (next (tree.run source).1).run (tree.run source).2 := by
  induction tree generalizing source with
  | done result => rfl
  | ask question rest ih => exact ih _ _

theorem mean_bind (tree : Choices α) (next : α → Choices β) (value : β → ℚ) :
    (tree.bind next).mean value = tree.mean fun result => (next result).mean value := by
  induction tree with
  | done result => rfl
  | ask question rest ih => simp only [bind, mean, ih]

end Choices

def Rule.Template.ask (rule : Rule.Template) : List String → String → Choices Reply
  | [], text => .done (.ok text)
  | name :: rest, text =>
    .ask (.among ((rule.values? name).getD [])) fun
      | .error failure => .done (.error failure)
      | .ok value => rule.ask rest (fillToken name value text)

/-- A raw value for a name, and the rule as the draw leaves it. -/
abbrev Asked := Choices (Except Failure (Option String) × Rule)

def askAmong (rule : Rule) (values : List String) : Asked :=
  if values.isEmpty then .done (.error (.value .nothingToChoose), rule)
  else .ask (.among values) fun answer => .done (answer.map some, rule)

def Rule.Function.ask (rule : Rule.Function) (name : String) : Asked :=
  let called : Rule := .function { rule with calls := rule.calls + 1 }
  match rule.answer rule.calls with
  | .failed message => .done (.error (.generator name message), called)
  | .other found =>
    .done (.error (.generator name s!"function must return a list, got {found}"), called)
  | .values values =>
    if values.isEmpty then .done (.ok none, called)
    else .ask (.among (values.map Data.display)) fun answer => .done (answer.map some, called)

/-- A draw from a rule as a tree. A sequence leaves nothing to chance. -/
def Rule.ask (name : String) (scope : Scope) : Rule → Asked
  | function rule => rule.ask name
  | conditional rule =>
    match selectBranch name scope none rule.branches with
    | .error failure => .done (.error failure, .conditional rule)
    | .ok values => askAmong (.conditional rule) values
  | sequential rule =>
    let (value, rule, _) := rule.draw default
    .done (value, .sequential rule)
  | range rule => .ask (.number rule) fun answer => .done (answer.map some, .range rule)
  | template rule =>
    (rule.ask rule.openNames rule.template).bind fun answer =>
      .done (answer.map some, .template rule)
  | weighted rule => .ask (.weighted rule) fun answer => .done (answer.map some, .weighted rule)
  | static rule =>
    if rule.values.isEmpty then .done (.ok none, .static rule)
    else askAmong (.static rule) rule.values

theorem Source.choose_map {α β : Type} (f : α → β) (values : List α) (source : Source) :
    source.choose (values.map f) = ((source.choose values).1.map f, (source.choose values).2) := by
  simp only [choose, List.isEmpty_map, List.length_map, List.getElem?_map]
  split
  · rfl
  · cases source.index values.length with
    | mk place source =>
      cases place with
      | error fault => rfl
      | ok place =>
        dsimp only
        cases values[place]? <;> rfl

theorem run_askAmong (rule : Rule) (values : List String) (source : Source) :
    (askAmong rule values).run source
      = (((source.choose values).1.map some, rule), (source.choose values).2) := by
  simp only [askAmong]
  split
  · rename_i hempty
    simp only [Source.choose, hempty, if_true]
    rfl
  · rfl

theorem Rule.Template.run_ask (rule : Rule.Template) (names : List String) (text : String)
    (source : Source) : (rule.ask names text).run source = rule.fill names text source := by
  induction names generalizing text source with
  | nil => rfl
  | cons name rest ih =>
    simp only [ask, fill, Choices.run, Question.answer]
    cases source.choose ((rule.values? name).getD []) with
    | mk reply source =>
      cases reply with
      | error failure => rfl
      | ok value => exact ih _ _

theorem Rule.Sequential.draw_source (rule : Rule.Sequential) (source : Source) :
    rule.draw source = ((rule.draw default).1, (rule.draw default).2.1, source) := by
  simp only [draw]
  split
  · cases rule.values.getLast? <;> rfl
  · cases rule.values[if rule.index < rule.values.length then rule.index else 0]? <;> rfl

theorem Rule.Function.run_ask (rule : Rule.Function) (name : String) (source : Source) :
    (rule.ask name).run source = (((rule.draw name source).1,
      .function (rule.draw name source).2.1), (rule.draw name source).2.2) := by
  simp only [ask, draw]
  cases rule.answer rule.calls with
  | failed message => rfl
  | other found => rfl
  | values values =>
    dsimp only
    split
    · rfl
    · simp only [Choices.run, Question.answer, Source.choose_map]
      cases (source.choose values).1 <;> rfl

/-- Answered by the source, the tree of a rule is its draw. -/
theorem Rule.run_ask (rule : Rule) (name : String) (scope : Scope) (source : Source) :
    (rule.ask name scope).run source = (((rule.draw name scope source).1,
      (rule.draw name scope source).2.1), (rule.draw name scope source).2.2) := by
  cases rule with
  | function rule => exact rule.run_ask name source
  | conditional rule =>
    simp only [ask, draw, Rule.Conditional.draw, Draw.map]
    cases selectBranch name scope none rule.branches with
    | error failure => rfl
    | ok values => exact run_askAmong _ values source
  | sequential rule =>
    simp only [ask, draw, Draw.map, rule.draw_source source]
    rfl
  | range rule =>
    simp only [ask, draw, Choices.run, Question.answer]
    cases (rule.draw source).1 <;> rfl
  | template rule =>
    simp only [ask, draw, Rule.Template.draw, Draw.map, Choices.run_bind,
      Rule.Template.run_ask]
    rfl
  | weighted rule => rfl
  | static rule =>
    simp only [ask, draw, Rule.Static.draw, Draw.map]
    split
    · rfl
    · exact run_askAmong _ rule.values source

/-- What an expansion reads and moves on, but for the random source. -/
structure Scene where
  store : Store
  context : Context

/-- An expansion as a tree of choices. -/
abbrev Told := Choices (Reply × Scene)

namespace Scene

def askToken (inner : String → Scene → Told) (name : String) (scene : Scene) : Told :=
  if isReplay name then
    .done (.ok ((scene.context.get? (referent name)).getD (Segment.tokenText name)), scene)
  else
    match scene.store.rule? name with
    | none => .done (.ok (Segment.tokenText name), scene)
    | some rule =>
      (rule.ask name (.run scene.context)).bind fun (drawn, rule) =>
        let store := scene.store.put name rule
        match drawn with
        | .error failure => .done (.error failure, { scene with store })
        | .ok none => .done (.ok (Segment.tokenText name), { scene with store })
        | .ok (some value) =>
          (inner value { store, context := scene.context.put name value }).bind
            fun (reply, scene) =>
              match reply with
              | .error failure => .done (.error failure, scene)
              | .ok text => .done (.ok text, { scene with context := scene.context.put name text })

def askSegments (inner : String → Scene → Told) : List Segment → Scene → Told
  | [], scene => .done (.ok "", scene)
  | .literal text :: rest, scene =>
    (askSegments inner rest scene).bind fun (reply, scene) =>
      .done (reply.map (text ++ ·), scene)
  | .token name :: rest, scene =>
    (askToken inner name scene).bind fun (reply, scene) =>
      match reply with
      | .error failure => .done (.error failure, scene)
      | .ok text =>
        (askSegments inner rest scene).bind fun (reply, scene) =>
          .done (reply.map (text ++ ·), scene)

def askWithin (limit : Int) : Nat → String → Scene → Told
  | 0, _, scene => .done (.error (.tooDeep (toString limit)), scene)
  | room + 1, text, scene => askSegments (askWithin limit room) (Segment.split text) scene

def askExpansion (stackRoom : Nat) (limit : Int) (keepContext : Bool) (text : String)
    (scene : Scene) : Told :=
  let scene := if keepContext then scene else { scene with context := ∅ }
  (askWithin limit (min limit.toNat stackRoom) text scene).bind fun (reply, scene) =>
    .done (reply.mapError (Engine.deepened limit), scene)

def engine (source : Source) (scene : Scene) : Engine :=
  { store := scene.store, source, context := scene.context }

/-- A result with the engine as it was left. -/
def played (result : (Reply × Scene) × Source) : Expanded :=
  (result.1.1, result.1.2.engine result.2)

/-- Answered by the source, the tree is the run. -/
def Tells (tree : Scene → Told) (run : Engine → Expanded) : Prop :=
  ∀ scene source, run (scene.engine source) = played ((tree scene).run source)

variable {innerTree : String → Scene → Told} {inner : String → Engine → Expanded}

theorem askToken_tells (h : ∀ value, Tells (innerTree value) (inner value)) (name : String) :
    Tells (askToken innerTree name) (Engine.expandToken inner name) := by
  intro scene source
  simp only [askToken, Engine.expandToken, engine, Store.draw, Store.drawShown]
  split
  · rfl
  · cases hr : scene.store.rule? name with
    | none => rfl
    | some rule =>
      dsimp only
      rw [Choices.run_bind, Rule.run_ask]
      cases rule.draw name (.run scene.context) source with
      | mk drawn rest =>
        obtain ⟨rule', source'⟩ := rest
        cases drawn with
        | error failure => rfl
        | ok drawn =>
          cases drawn with
          | none => rfl
          | some value =>
            dsimp only
            have hinner := h value
              { store := scene.store.put name rule', context := scene.context.put name value }
              source'
            simp only [engine] at hinner
            rw [hinner, Choices.run_bind]
            cases (innerTree value
              { store := scene.store.put name rule', context := scene.context.put name value }).run
                source' with
            | mk result source'' =>
              obtain ⟨reply, scene'⟩ := result
              cases reply <;> rfl

theorem askSegments_tells (h : ∀ value, Tells (innerTree value) (inner value))
    (segments : List Segment) :
    Tells (askSegments innerTree segments) (Engine.expandSegments inner segments) := by
  induction segments with
  | nil =>
    intro scene source
    rfl
  | cons segment rest ih =>
    intro scene source
    cases segment with
    | literal text =>
      simp only [askSegments, Engine.expandSegments]
      rw [ih scene source, Choices.run_bind]
      cases (askSegments innerTree rest scene).run source with
      | mk result source' =>
        obtain ⟨reply, scene'⟩ := result
        cases reply <;> rfl
    | token name =>
      simp only [askSegments, Engine.expandSegments]
      rw [askToken_tells h name scene source, Choices.run_bind]
      cases (askToken innerTree name scene).run source with
      | mk result source' =>
        obtain ⟨reply, scene'⟩ := result
        cases reply with
        | error failure => rfl
        | ok text =>
          simp only [played]
          rw [ih scene' source', Choices.run_bind]
          cases (askSegments innerTree rest scene').run source' with
          | mk result source'' =>
            obtain ⟨reply, scene''⟩ := result
            cases reply <;> rfl

theorem askWithin_tells (limit : Int) (room : Nat) (text : String) :
    Tells (askWithin limit room text) (Engine.expandWithin limit room text) := by
  induction room generalizing text with
  | zero =>
    intro scene source
    rfl
  | succ room ih => exact askSegments_tells ih _

/-- Answered by the source, the tree is the expansion. -/
theorem askExpansion_tells (stackRoom : Nat) (limit : Int) (keepContext : Bool) (text : String) :
    Tells (askExpansion stackRoom limit keepContext text)
      (Engine.expand stackRoom limit keepContext text) := by
  intro scene source
  have hscene : (if keepContext then scene.engine source
      else { scene.engine source with context := ∅ })
        = (if keepContext then scene else { scene with context := ∅ }).engine source := by
    cases keepContext <;> rfl
  simp only [askExpansion, Engine.expand]
  rw [hscene, askWithin_tells limit _ text _ source, Choices.run_bind]
  rfl

end Scene

end TextGrammar
