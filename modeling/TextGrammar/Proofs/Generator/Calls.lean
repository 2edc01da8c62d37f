import TextGrammar.Proofs.Expansion.Ensured
import TextGrammar.Proofs.Generator.Accounts
import TextGrammar.Proofs.Generator.Variations
import TextGrammar.Proofs.Store.WellFormed

/-! Whole runs: any calls that change rules or generate from them, refused and failed ones too. -/
namespace TextGrammar

/-- A call, with its arguments as they are given. -/
inductive Call where
  | registerStatic (name values : Datum)
  | registerFunction (name generator : Datum)
  | registerWeighted (name values weights : Datum)
  | registerConditional (name branches : Datum)
  | registerSequential (name values cycle : Datum)
  | registerRange (name low high step kind : Datum)
  | registerTemplate (name template choices : Datum)
  | registerAll (rules : Datum)
  | removeRule (kind : RuleKind) (name : Datum)
  | removeRules (name : Datum)
  | clearKind (kind : RuleKind)
  | clearRules
  | clear
  | clearEverything
  | restart (name : String)
  | resolve (name : Datum) (scope : Scope)
  | expand (text : Datum) (keepContext : Bool)
  | parse (text : Datum) (keepContext : Bool)
  | parseReported (text : Datum) (keepContext : Bool)
  | parseWith (text options : Datum)
  | parseAll (texts : Datum) (keepContext : Bool)
  | variations (text count seed : Datum)
  /-- A change of anything but the rules, such as modifiers, seeds, limits and the context. -/
  | adjust (change : Generator → Generator)
      (keeps : ∀ generator, (change generator).store = generator.store)

namespace Call

open Generator

/-- The generator after a call, however the call ends. -/
def after (generator : Generator) : Call → Generator
  | registerStatic name values => (Generator.registerStatic name values generator).2
  | registerFunction name source => (Generator.registerFunction name source generator).2
  | registerWeighted name values weights =>
    (Generator.registerWeighted name values weights generator).2
  | registerConditional name branches => (Generator.registerConditional name branches generator).2
  | registerSequential name values cycle =>
    (Generator.registerSequential name values cycle generator).2
  | registerRange name low high step kind =>
    (Generator.registerRange name low high step kind generator).2
  | registerTemplate name template choices =>
    (Generator.registerTemplate name template choices generator).2
  | registerAll rules => (Generator.registerAll rules generator).2
  | removeRule kind name => (Generator.removeRule kind name generator).2
  | removeRules name => (Generator.removeRules name generator).2
  | clearKind kind => generator.withStore (generator.store.eraseKind kind)
  | clearRules => generator.withStore ∅
  | clear => generator.clear
  | clearEverything => generator.clearEverything
  | restart name =>
    match generator.store.restart? name with
    | some store => generator.withStore store
    | none => generator
  | resolve name scope => (Generator.resolve name scope generator).2
  | expand text keepContext => (Generator.expand text keepContext generator).2
  | parse text keepContext => (Generator.parse text keepContext generator).2
  | parseReported text keepContext => (Generator.parseReported text keepContext generator).2
  | parseWith text options => (Generator.parseWith text options generator).2
  | parseAll texts keepContext => (Generator.parseAll texts keepContext generator).2
  | variations text count seed => (Generator.variations text count seed generator).2
  | adjust change _ => change generator

/-- The generator after some calls, from the first one on. -/
def run (generator : Generator) (calls : List Call) : Generator := calls.foldl after generator

end Call

variable {holds : Store → Prop}

namespace Generator

theorem preserves_isClosed (h : Store.IsInvariant holds) :
    Registration.IsClosed (Preserves fun generator => holds generator.store) where
  nothing := Preserves.pure ()
  refused failure := check_preserves (.error failure)
  register _ {_} hrule := register_preserves fun _ _ _ hstore hregister =>
    h.register hstore hrule hregister
  install _ := modify_preserves fun _ hstore => hstore
  andThen hfirst hnext := hfirst.bind fun _ => hnext

/-- A removal erases what the name asks for, or leaves everything where it is. -/
theorem remove_preserves {holds : Generator → Prop} (isEmpty : Generator → Bool)
    (has : Generator → String → Bool) {erase : Generator → String → Generator} {name : Datum}
    (h : ∀ generator key, name.name? = .ok (some key) → holds generator →
      holds (erase generator key)) :
    Preserves holds (remove isEmpty has erase name) := by
  intro generator hholds
  rw [remove, get_bind]
  split
  · exact hholds
  · rw [check_bind]
    split
    · exact hholds
    · rename_i key hkey
      cases key with
      | none => exact hholds
      | some key => exact h generator key hkey hholds

theorem removeRule_preserves (h : Store.IsInvariant holds) (kind : RuleKind) (name : Datum) :
    Preserves (fun generator => holds generator.store) (removeRule kind name) :=
  remove_preserves _ _ fun _ _ _ hstore => h.filter _ hstore

theorem removeRules_preserves (h : Store.IsInvariant holds) (name : Datum) :
    Preserves (fun generator => holds generator.store) (removeRules name) :=
  remove_preserves _ _ fun _ _ _ hstore => h.filter _ hstore

theorem removeModifier_preserves (name : Datum) :
    Preserves (fun generator => holds generator.store) (removeModifier name) := by
  refine remove_preserves _ _ fun generator key _ hstore => ?_
  change holds generator.engine.store
  exact hstore

end Generator

namespace Request

open Generator

/-- Every request keeps an invariant of the rules, whether it is refused, fails or succeeds. -/
theorem preserves_store (h : Store.IsInvariant holds) {α : Type} (request : Request α) :
    Preserves (fun generator => holds generator.store) request.perform := by
  have hdraws {β : Type} {action : Action β} (account : Account action) :
      Preserves (fun generator => holds generator.store) action := account.preserves h.drawShown
  cases request with
  | ask inquiry =>
    intro generator hstore
    exact hstore
  | register registration => exact (preserves_isClosed h).perform registration
  | removeRule kind name => exact removeRule_preserves h kind name
  | removeRules name => exact removeRules_preserves h name
  | removeModifier name => exact removeModifier_preserves name
  | clearKind kind => exact modify_preserves fun _ hstore => h.filter _ hstore
  | clearRules => exact modify_preserves fun _ _ => h.empty
  | clear => exact modify_preserves fun _ _ => h.empty
  | clearEverything => exact modify_preserves fun _ _ => h.empty
  | restart name =>
    intro generator hstore
    simp only [perform]
    split
    · rename_i store hrestart
      exact h.restart hstore hrestart
    · exact hstore
  | limitDepth depth => exact (check_preserves _).bind fun _ => modify_preserves fun _ hstore => hstore
  | seedWith seed => exact (check_preserves _).bind fun _ => modify_preserves fun _ hstore => hstore
  | parse text keepContext => exact hdraws (.parse text keepContext)
  | parseReported text keepContext => exact hdraws (.parseReported text keepContext)
  | parseWith text options => exact hdraws (.parseWith text options)
  | parseAll texts keepContext => exact hdraws (.parseAll texts keepContext)
  | variations text count seed => exact hdraws (.variations text count seed)
  | expand text keepContext => exact hdraws (.expand text keepContext)
  | resolve name scope => exact hdraws (.resolve name scope)
  | _ => exact modify_preserves fun _ hstore => hstore

end Request

namespace Call

/-- A call is a request or leaves the rules alone. -/
theorem preserves_after (h : Store.IsInvariant holds) (call : Call) {generator : Generator}
    (hstore : holds generator.store) : holds (call.after generator).store := by
  have hperform {α : Type} (request : Request α) : holds (request.perform generator).2.store :=
    request.preserves_store h generator hstore
  cases call with
  | registerStatic name values => exact hperform (.register (.static name values))
  | registerFunction name source => exact hperform (.register (.function name source))
  | registerWeighted name values weights =>
    exact hperform (.register (.weighted name values weights))
  | registerConditional name branches => exact hperform (.register (.conditional name branches))
  | registerSequential name values cycle =>
    exact hperform (.register (.sequential name values cycle))
  | registerRange name low high step kind =>
    exact hperform (.register (.range name low high step kind))
  | registerTemplate name template choices =>
    exact hperform (.register (.template name template choices))
  | registerAll rules => exact hperform (.register (.rules rules))
  | removeRule kind name => exact hperform (.removeRule kind name)
  | removeRules name => exact hperform (.removeRules name)
  | clearKind kind => exact hperform (.clearKind kind)
  | clearRules => exact hperform .clearRules
  | clear => exact hperform .clear
  | clearEverything => exact hperform .clearEverything
  | restart name =>
    simp only [after]
    split
    · rename_i store hrestart
      exact h.restart hstore hrestart
    · exact hstore
  | resolve name scope => exact hperform (.resolve name scope)
  | expand text keepContext => exact hperform (.expand text keepContext)
  | parse text keepContext => exact hperform (.parse text keepContext)
  | parseReported text keepContext => exact hperform (.parseReported text keepContext)
  | parseWith text options => exact hperform (.parseWith text options)
  | parseAll texts keepContext => exact hperform (.parseAll texts keepContext)
  | variations text count seed => exact hperform (.variations text count seed)
  | adjust change keeps =>
    simp only [after, keeps]
    exact hstore

theorem preserves_run (h : Store.IsInvariant holds) (calls : List Call) {generator : Generator}
    (hstore : holds generator.store) : holds (run generator calls).store := by
  induction calls generalizing generator with
  | nil => exact hstore
  | cons call rest ih => exact ih (call.preserves_after h hstore)

theorem wellFormed_run (calls : List Call) {generator : Generator}
    (h : generator.store.WellFormed) : (run generator calls).store.WellFormed :=
  preserves_run Store.wellFormed_isInvariant calls h

end Call

namespace Engine

variable {store : Store}

/-- Well-formed rules, each like those of a store but for the course it is on. -/
def IsOnCourse (store : Store) (engine : Engine) : Prop :=
  engine.store.WellFormed ∧ engine.store.restarted = store.restarted

theorem drawn_keepsToLists (name : String) :
    Ensures (IsOnCourse store) store.KeepsToLists (drawn name) := by
  rintro engine ⟨hformed, hrestarted⟩
  refine ⟨⟨hformed.drawShown, (Store.restarted_drawShown _ _ _ _).trans hrestarted⟩, ?_⟩
  intro failure hfailure hfault
  exact Store.testRaises_of_restarted hrestarted
    (hformed.keepsToLists_drawShown failure hfailure hfault)

theorem isFreeOfContext_isOnCourse : IsFreeOfContext (IsOnCourse store) := by
  intro engine context hengine
  exact hengine

theorem expandWithin_keepsToLists (limit : Int) (room : Nat) (text : String) :
    Ensures (IsOnCourse store) store.KeepsToLists (computation (expandWithin limit room text)) := by
  refine expandWithin_failsOnly isFreeOfContext_isOnCourse drawn_keepsToLists ?_ room text
  intro hfault
  cases hfault

/-- A limit that is passed is no place outside of a list. -/
theorem keepsToLists_mapError {limit : Int} {result : Except Failure String}
    (h : store.KeepsToLists result) : store.KeepsToLists (result.mapError (deepened limit)) := by
  intro failure hfailure hfault
  obtain ⟨raised, rfl, rfl⟩ := mapError_eq_error.1 hfailure
  unfold deepened at hfault ⊢
  split at hfault
  · cases hfault
  · exact h raised rfl hfault

end Engine

namespace Generator

theorem expandText_keepsToLists {generator : Generator} (h : generator.store.WellFormed)
    (keepContext : Bool) (text : String) :
    generator.store.KeepsToLists (generator.expandText keepContext text).1 := by
  have hwithin := @Engine.expandWithin_keepsToLists generator.store generator.maxDepth
    (min generator.maxDepth.toNat generator.stackRoom) text
  exact (Engine.expand_ensures Engine.isFreeOfContext_isOnCourse
    (hwithin.mono fun _ => Engine.keepsToLists_mapError) generator.engine ⟨h, rfl⟩).2

/-- After any calls on a generator that had no rules yet, each table has well-formed rules of its
own kind under names that are not empty, the questions about names agree, and neither a draw nor an
expansion looks for a place outside of a list. -/
theorem rules_run {generator : Generator} (hnew : generator.store = ∅) (calls : List Call) :
    (Call.run generator calls).store.IsConsistent ∧
    (∀ shown name scope source, (Call.run generator calls).store.KeepsToLists
      ((Call.run generator calls).store.drawShown shown name scope source).1) ∧
    ∀ keepContext text, (Call.run generator calls).store.KeepsToLists
      ((Call.run generator calls).expandText keepContext text).1 := by
  have hformed : (Call.run generator calls).store.WellFormed := by
    refine Call.wellFormed_run calls ?_
    rw [hnew]
    exact Store.wellFormed_empty
  refine ⟨hformed.isConsistent, ?_, ?_⟩
  · intro shown name scope source
    exact hformed.keepsToLists_drawShown
  · intro keepContext text
    exact expandText_keepsToLists hformed keepContext text

/-- A refused rule, a sequence that is drawn from, and a rule of another kind under its name. -/
def sequenceCalls : List Call :=
  [.registerWeighted (.text "w") (.list [.text "x"]) (.list []),
    .registerSequential (.text "a") (.list [.text "x", .text "y"]) (.flag false),
    .parse (.text "%a%") false, .registerStatic (.text "a") (.list []), .parse (.text "%a%") false]

theorem rules_run_sequenceCalls :
    (Generator.default 0 100).store = ∅ ∧
    (Call.run (.default 0 100) sequenceCalls).store.counts.map Prod.snd = [0, 0, 1, 0, 0, 0, 1] ∧
    (Call.run (.default 0 100) sequenceCalls).store.IsConsistent ∧
    (∀ shown name scope source, (Call.run (.default 0 100) sequenceCalls).store.KeepsToLists
      ((Call.run (.default 0 100) sequenceCalls).store.drawShown shown name scope source).1) ∧
    ∀ keepContext text, (Call.run (.default 0 100) sequenceCalls).store.KeepsToLists
      ((Call.run (.default 0 100) sequenceCalls).expandText keepContext text).1 :=
  ⟨rfl, by decide +kernel, @rules_run (.default 0 100) rfl sequenceCalls⟩

end Generator

end TextGrammar
