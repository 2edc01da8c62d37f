import TextGrammar.Proofs.Generator.Clone
import TextGrammar.Proofs.Pipeline

/-! The modifiers of a generator after any session, those before a refused item included. -/
namespace TextGrammar

open Pipeline

/-- The modifiers before the first item that is none. -/
def leadingModifiers : List Datum → List Modifier
  | .modifier modifier :: rest => modifier :: leadingModifiers rest
  | _ => []

def Registration.changes : Registration → List Change
  | modifier argument => (leadingModifiers [argument]).map .put
  | modifiers argument =>
    match argument.items with
    | .ok items => (leadingModifiers items).map .put
    | .error _ => []
  | _ => []

def Request.changes {α : Type} : Request α → List Change
  | register registration => registration.changes
  | removeModifier name =>
    match name.name? with
    | .ok (some key) => [.drop key]
    | _ => []
  | clearModifiers | clearEverything => [.clear]
  | useEnglish forms ordinals =>
    (if ordinals then English.allModifiers forms else English.defaultModifiers forms).map .put
  | _ => []

/-- The changes that a session makes, from the first one on. -/
def Session.changes (session : Session) : List Change :=
  session.flatMap fun request => request.2.changes

def Session.history (session : Session) : History := session.changes.reverse

namespace Generator

/-- An action makes the changes, whether it ends in a value or in a failure. -/
def Makes {α : Type} (changes : List Change) (action : Action α) : Prop :=
  ∀ generator, (action generator).2.pipeline = generator.pipeline.changeAll changes

theorem Makes.of_keeps {α : Type} {action : Action α} (h : Keeps Generator.pipeline action) :
    Makes [] action :=
  h

theorem makes_check_bind {α β : Type} {changes : List Change} {result : Except Failure α}
    {next : α → Action β} (hok : ∀ value, result = .ok value → Makes changes (next value))
    (herror : ∀ failure, result = .error failure → changes = []) :
    Makes changes (check result >>= next) := by
  intro generator
  rw [check_bind]
  cases hresult : result with
  | error failure =>
    rw [herror failure hresult]
    rfl
  | ok value => exact hok value hresult generator

theorem register_keeps_pipeline (name : Datum) (rule : Rule) :
    Keeps Generator.pipeline (register name rule) :=
  register_keeps (fun _ _ => rfl) (fun _ _ => rfl) name rule

theorem registerStatic_keeps_pipeline (name values : Datum) :
    Keeps Generator.pipeline (registerStatic name values) :=
  (check_keeps _).bind fun _ => register_keeps_pipeline name _

theorem registerMembers_keeps_pipeline (members : List (Datum × Datum)) :
    Keeps Generator.pipeline (registerMembers members) := by
  induction members with
  | nil => exact Keeps.pure ()
  | cons member rest ih => exact (registerStatic_keeps_pipeline member.1 member.2).bind fun _ => ih

theorem installEach_makes (items : List Datum) :
    Makes ((leadingModifiers items).map .put) (installEach items) := by
  induction items with
  | nil => exact .of_keeps (Keeps.pure ())
  | cons item rest ih =>
    cases item with
    | modifier modifier =>
      intro generator
      exact ih { generator with pipeline := generator.pipeline.add modifier }
    | _ =>
      intro generator
      rfl

theorem removeRule_keeps_pipeline (kind : RuleKind) (name : Datum) :
    Keeps Generator.pipeline (removeRule kind name) :=
  removeRule_keeps (fun _ _ => rfl) kind name

theorem removeRules_keeps_pipeline (name : Datum) :
    Keeps Generator.pipeline (removeRules name) :=
  removeRules_keeps (fun _ _ => rfl) name

/-- Of an empty pipeline nothing is removed, whatever the name is. -/
theorem removeModifier_makes (name : Datum) :
    Makes (Request.removeModifier name).changes (removeModifier name) := by
  intro generator
  rw [removeModifier, remove, get_bind, Request.changes]
  split
  · rename_i hsize
    have hempty : generator.pipeline = ∅ := eq_empty_of_size (of_decide_eq_true hsize)
    rcases name.name? with failure | _ | key
    · rfl
    · rfl
    · exact hempty.trans (congrArg (Pipeline.erase · key) hempty).symm
  · rw [check_bind]
    rcases name.name? with failure | _ | key
    · rfl
    · rfl
    · rfl

end Generator

open Generator

theorem Registration.makes (registration : Registration) :
    Makes registration.changes registration.perform := by
  cases registration with
  | static name values => exact registerStatic_keeps_pipeline name values
  | conditional name branches =>
    exact (check_keeps _).bind fun _ => (check_keeps _).bind fun _ => register_keeps_pipeline name _
  | template name text choices =>
    exact (check_keeps _).bind fun _ => (check_keeps _).bind fun _ => register_keeps_pipeline name _
  | rules argument =>
    cases argument with
    | mapping members => exact registerMembers_keeps_pipeline members
    | _ => exact check_keeps (.error _)
  | modifier argument =>
    cases argument with
    | modifier modifier =>
      intro generator
      rfl
    | _ =>
      intro generator
      rfl
  | modifiers argument =>
    refine makes_check_bind ?_ ?_
    · intro items hitems
      simp only [changes, hitems]
      exact installEach_makes items
    · intro failure hitems
      simp only [changes, hitems]
  | _ => exact (check_keeps _).bind fun _ => register_keeps_pipeline _ _

theorem Request.makes {α : Type} (request : Request α) : Makes request.changes request.perform := by
  have hkept {β : Type} {action : Action β} (h : Keeps configuration action) : Makes [] action :=
    h.part Configuration.pipeline
  cases request with
  | register registration => exact registration.makes
  | removeModifier name => exact removeModifier_makes name
  | removeRule kind name => exact removeRule_keeps_pipeline kind name
  | removeRules name => exact removeRules_keeps_pipeline name
  | restart name =>
    intro generator
    simp only [perform]
    split
    · rfl
    · rfl
  | limitDepth depth => exact (check_keeps _).bind fun _ _ => rfl
  | seedWith seed => exact (check_keeps _).bind fun _ _ => rfl
  | useEnglish forms ordinals =>
    intro generator
    rw [changes, changeAll, List.foldl_map]
    rfl
  | parse text keepContext => exact hkept (parse_keeps text keepContext)
  | parseReported text keepContext => exact hkept (parseReported_keeps text keepContext)
  | parseWith text options => exact hkept (parseWith_keeps text options)
  | parseAll texts keepContext => exact hkept (parseAll_keeps texts keepContext)
  | variations text count seed => exact hkept (variations_keeps text count seed)
  | expand text keepContext => exact hkept (expand_keeps text keepContext)
  | resolve name scope => exact hkept (resolve_keeps name scope)
  | _ =>
    intro generator
    rfl

namespace Session

theorem pipeline_run (session : Session) (generator : Generator) :
    (session.run generator).pipeline = generator.pipeline.changeAll session.changes := by
  induction session generalizing generator with
  | nil => rfl
  | cons first rest ih =>
    have hchanges : changes (first :: rest) = first.2.changes ++ changes rest := List.flatMap_cons
    rw [run, ih, first.2.makes generator, hchanges, changeAll_append]

variable {generator : Generator} {session : Session}

theorem remembers_run (hnew : generator.pipeline = ∅) :
    (session.run generator).pipeline.Remembers session.history := by
  have hempty : Remembers ∅ [] := remembers_empty fun _ => rfl
  have hrun := hempty.changeAll session.changes
  rwa [List.append_nil, ← hnew, ← pipeline_run] at hrun

/-- After any session each name that is registered stands once in the order, with the modifier that
was last put under it. Higher priorities come first and equal ones follow the slots of their names.
The modifiers are run once each in this order, each on what those before it left. -/
theorem modifiers_run (hnew : generator.pipeline = ∅)
    (hnumbers : ∀ name modifier, session.history.latest? name = some modifier →
      modifier.priority.isNan = false) :
    ((session.run generator).pipeline.ordered.map (·.name)).Nodup ∧
    (∀ modifier, modifier ∈ (session.run generator).pipeline.ordered ↔
      session.history.latest? modifier.name = some modifier) ∧
    (session.run generator).pipeline.ordered.Pairwise session.history.Precedes ∧
    ∀ background text result,
      (session.run generator).pipeline.apply background text = result ↔
        Passes background (session.run generator).pipeline.ordered text result := by
  have hrun : (session.run generator).pipeline.Remembers session.history := remembers_run hnew
  exact ⟨hrun.nodup_ordered hnumbers, fun _ => hrun.mem_ordered hnumbers,
    hrun.pairwise_ordered hnumbers, fun _ _ _ => apply_eq_iff _⟩

/-- A modifier that sets its name behind the text. -/
def signing (name : String) (priority : Amount) : Modifier where
  name
  condition _ _ := .ok true
  transform value _ := value.text?.elim (.ok value) fun text => .ok (.text (text ++ name))
  priority

/-- The priority of a name is changed, a name is removed and comes again, and two calls are refused. -/
def signingSession : Session :=
  [⟨_, .register (.modifier (.modifier (signing "a" 0)))⟩,
    ⟨_, .register (.modifier (.modifier (signing "b" 5)))⟩,
    ⟨_, .register (.modifiers (.list [.modifier (signing "c" 5), .modifier (signing "d" 0), 7,
      .modifier (signing "e" 9)]))⟩,
    ⟨_, .register (.modifier (.modifier (signing "a" 5)))⟩,
    ⟨_, .parse (.text "x") false⟩,
    ⟨_, .removeModifier (.text "b")⟩,
    ⟨_, .register (.modifier 3)⟩,
    ⟨_, .register (.modifier (.modifier (signing "b" 5)))⟩]

theorem history_signingSession : signingSession.history =
    [.put (signing "b" 5), .drop "b", .put (signing "a" 5), .put (signing "d" 0),
      .put (signing "c" 5), .put (signing "b" 5), .put (signing "a" 0)] :=
  rfl

theorem ordered_signingSession : (signingSession.run (.default 0 100)).pipeline.ordered =
    [signing "a" 5, signing "c" 5, signing "b" 5, signing "d" 0] := by
  have hrun : (signingSession.run (.default 0 100)).pipeline = ⟨⟨[("a", signing "a" 5),
      ("c", signing "c" 5), ("d", signing "d" 0), ("b", signing "b" 5)]⟩⟩ := by
    rw [pipeline_run]
    rfl
  have hequal (first second : String) :
      (signing first 5).priority.lt (signing second 5).priority = false := rfl
  have hless (first second : String) :
      (signing first 0).priority.lt (signing second 5).priority = true := rfl
  rw [hrun]
  change List.mergeSort [signing "a" 5, signing "c" 5, signing "d" 0, signing "b" 5] _ = _
  simp [List.mergeSort, List.MergeSort.Internal.splitInTwo, hequal, hless]

theorem modifiers_run_signingSession :
    (Generator.default 0 100).pipeline = ∅ ∧
    (∀ name modifier, signingSession.history.latest? name = some modifier →
      modifier.priority.isNan = false) ∧
    List.Pairwise signingSession.history.Precedes
      [signing "a" 5, signing "c" 5, signing "b" 5, signing "d" 0] ∧
    (signingSession.run (.default 0 100)).pipeline.apply {} (.text "-") = .ok (.text "-acbd") ∧
    Passes {} [signing "a" 5, signing "c" 5, signing "b" 5, signing "d" 0] (.text "-")
      (.ok (.text "-acbd")) := by
  have hnumbers : ∀ name modifier, signingSession.history.latest? name = some modifier →
      modifier.priority.isNan = false := by
    intro name modifier hlatest
    have hmem := History.mem_of_latest? hlatest
    rw [history_signingSession] at hmem
    simp only [List.mem_cons, Change.put.injEq, reduceCtorEq, false_or, List.not_mem_nil, or_false]
      at hmem
    rcases hmem with rfl | rfl | rfl | rfl | rfl | rfl <;> rfl
  have hnew : (Generator.default 0 100).pipeline = ∅ := rfl
  obtain ⟨-, -, horder, happly⟩ := modifiers_run hnew hnumbers
  have htext : (signingSession.run (.default 0 100)).pipeline.apply {} (.text "-") =
      .ok (.text "-acbd") := by
    rw [Pipeline.apply, ordered_signingSession]
    rfl
  have hpasses := (happly _ _ _).1 htext
  rw [ordered_signingSession] at horder hpasses
  exact ⟨hnew, hnumbers, horder, htext, hpasses⟩

end Session

end TextGrammar
