import TextGrammar.Proofs.Generator.Frame
import TextGrammar.Proofs.Rule.WellFormed

/-! Registrations that are refused: of one item nothing is left, of many those before the item. -/
namespace TextGrammar

/-- A registration, with its arguments as they are given. -/
inductive Registration where
  | static (name values : Datum)
  | function (name source : Datum)
  | weighted (name values weights : Datum)
  | conditional (name branches : Datum)
  | sequential (name values cycle : Datum)
  | range (name low high step kind : Datum)
  | template (name text choices : Datum)
  | modifier (argument : Datum)
  /-- Static rules, as members of a mapping. -/
  | rules (argument : Datum)
  | modifiers (argument : Datum)

namespace Generator

theorem register_eq (name : Datum) (rule : Rule) (generator : Generator) :
    register name rule generator = match generator.store.register name rule with
      | .error failure => (.error failure, generator)
      | .ok (store, none) => (.ok (), generator.withStore store)
      | .ok (store, some shadowing) =>
        (.ok (), (generator.withStore store).notice shadowing.message) := by
  rw [register, get_bind, check_bind]
  rcases generator.store.register name rule with failure | ⟨store, _ | shadowing⟩
  · rfl
  · rfl
  · rfl

/-- An action that fails leaves the generator as it was. -/
def IsAtomic {α : Type} (action : Action α) : Prop :=
  ∀ generator failure after, action generator = (.error failure, after) → after = generator

theorem isAtomic_check {α : Type} (result : Except Failure α) : IsAtomic (check result) := by
  rintro generator failure after ⟨⟩
  rfl

theorem isAtomic_throw {α : Type} (failure : Failure) : IsAtomic (throw failure : Action α) :=
  isAtomic_check (.error failure)

theorem isAtomic_modify (change : Generator → Generator) : IsAtomic (modify change : Action Unit) := by
  rintro generator failure after ⟨⟩

theorem IsAtomic.check_bind {α β : Type} {result : Except Failure α} {next : α → Action β}
    (h : ∀ value, IsAtomic (next value)) : IsAtomic (check result >>= next) := by
  intro generator failure after hrun
  rw [Generator.check_bind] at hrun
  cases result with
  | error fault =>
    cases hrun
    rfl
  | ok value => exact h value generator failure after hrun

/-- The store is only replaced once nothing can be wrong any more. -/
theorem isAtomic_register (name : Datum) (rule : Rule) : IsAtomic (register name rule) := by
  intro generator failure after hrun
  rw [register_eq] at hrun
  split at hrun
  · cases hrun
    rfl
  · cases hrun
  · cases hrun

theorem isAtomic_registerStatic (name values : Datum) : IsAtomic (registerStatic name values) :=
  .check_bind fun _ => isAtomic_register name _

theorem isAtomic_installModifier (modifier : Datum) : IsAtomic (installModifier modifier) := by
  cases modifier with
  | modifier modifier => exact isAtomic_modify _
  | _ => exact isAtomic_throw _

end Generator

namespace Registration

open Generator

def perform : Registration → Action Unit
  | static name values => registerStatic name values
  | function name source => registerFunction name source
  | weighted name values weights => registerWeighted name values weights
  | conditional name branches => registerConditional name branches
  | sequential name values cycle => registerSequential name values cycle
  | range name low high step kind => registerRange name low high step kind
  | template name text choices => registerTemplate name text choices
  | modifier argument => installModifier argument
  | rules argument => registerAll argument
  | modifiers argument => installModifiers argument

/-- One rule or one modifier, and not many. -/
def IsSingle : Registration → Prop
  | rules _ | modifiers _ => False
  | _ => True

/-- The single registrations that a registration consists of, in order. One of many that cannot be
taken apart is left whole. -/
def elements : Registration → List Registration
  | rules (.mapping members) => members.map fun (name, values) => static name values
  | modifiers argument =>
    match argument.items with
    | .ok items => items.map modifier
    | .error _ => [modifiers argument]
  | registration => [registration]

def performEach : List Registration → Action Unit
  | [] => return
  | registration :: rest => do
    registration.perform
    performEach rest

theorem registerMembers_eq (members : List (Datum × Datum)) :
    registerMembers members = performEach (members.map fun (name, values) => static name values) := by
  induction members with
  | nil => rfl
  | cons member rest ih => rw [registerMembers, ih, List.map_cons, performEach, perform]

theorem installEach_eq (items : List Datum) :
    installEach items = performEach (items.map modifier) := by
  induction items with
  | nil => rfl
  | cons item rest ih => rw [installEach, ih, List.map_cons, performEach, perform]

/-- What holds of doing nothing, of refusals, of putting a well-formed rule under a name, of adding a
modifier, and of one of these after the other. -/
structure IsClosed (holds : Action Unit → Prop) : Prop where
  nothing : holds (pure ())
  refused (failure : Failure) : holds (throw failure)
  register (name : Datum) {rule : Rule} : rule.WellFormed → holds (Generator.register name rule)
  install (modifier : Modifier) :
    holds (modify fun generator => { generator with pipeline := generator.pipeline.add modifier })
  andThen {first next : Action Unit} : holds first → holds next → holds (first >>= fun _ => next)

section Closed

variable {holds : Action Unit → Prop}

theorem IsClosed.check_bind (h : IsClosed holds) {α : Type} {result : Except Failure α}
    {next : α → Action Unit} (hnext : ∀ value, result = .ok value → holds (next value)) :
    holds (check result >>= next) := by
  cases result with
  | error failure => exact h.refused failure
  | ok value => exact hnext value rfl

theorem IsClosed.performEach (h : IsClosed holds) {registrations : List Registration}
    (heach : ∀ registration ∈ registrations, holds registration.perform) :
    holds (performEach registrations) := by
  induction registrations with
  | nil => exact h.nothing
  | cons registration rest ih =>
    obtain ⟨hfirst, hrest⟩ := List.forall_mem_cons.1 heach
    exact h.andThen hfirst (ih hrest)

theorem IsClosed.static (h : IsClosed holds) (name values : Datum) :
    holds (Registration.static name values).perform :=
  h.check_bind fun _ _ => h.register name trivial

theorem IsClosed.modifier (h : IsClosed holds) (argument : Datum) :
    holds (Registration.modifier argument).perform := by
  cases argument with
  | modifier modifier => exact h.install modifier
  | _ => exact h.refused _

/-- It holds of every registration, whatever the arguments are. -/
theorem IsClosed.perform (h : IsClosed holds) (registration : Registration) :
    holds registration.perform := by
  cases registration with
  | static name values => exact h.static name values
  | function name source => exact h.check_bind fun _ _ => h.register name trivial
  | weighted name values weights =>
    exact h.check_bind fun _ hrule => h.register name (Rule.Weighted.wellFormed_of_define hrule)
  | conditional name branches =>
    exact h.check_bind fun _ _ => h.check_bind fun _ hrule =>
      h.register name (Rule.Conditional.wellFormed_of_define hrule)
  | sequential name values cycle =>
    exact h.check_bind fun _ hrule => h.register name (Rule.Sequential.wellFormed_of_define hrule)
  | range name low high step kind => exact h.check_bind fun _ _ => h.register name trivial
  | template name text choices =>
    exact h.check_bind fun _ _ => h.check_bind fun _ hrule =>
      h.register name (Rule.Template.wellFormed_of_define hrule)
  | modifier argument => exact h.modifier argument
  | rules argument =>
    cases argument with
    | mapping members =>
      rw [Registration.perform, registerAll, registerMembers_eq]
      exact h.performEach (List.forall_mem_map.2 fun member _ => h.static member.1 member.2)
    | _ => exact h.refused _
  | modifiers argument =>
    refine h.check_bind fun items _ => ?_
    rw [installEach_eq]
    exact h.performEach (List.forall_mem_map.2 fun item _ => h.modifier item)

end Closed

/-- A list of registrations fails at one of them, after all those before it. -/
def FailsAt (registrations : List Registration) (generator : Generator) (failure : Failure)
    (after : Generator) : Prop :=
  ∃ before refused rest, registrations = before ++ refused :: rest ∧
    performEach before generator = (.ok (), after) ∧
      refused.perform after = (.error failure, after)

theorem FailsAt.cons {registration : Registration} {rest : List Registration}
    {generator next after : Generator} {failure : Failure}
    (hfirst : registration.perform generator = (.ok (), next))
    (h : FailsAt rest next failure after) :
    FailsAt (registration :: rest) generator failure after := by
  obtain ⟨before, refused, others, rfl, hbefore, hrefused⟩ := h
  refine ⟨registration :: before, refused, others, rfl, ?_, hrefused⟩
  rw [performEach, bind_apply, hfirst]
  exact hbefore

/-- Every single registration is made or refused as a whole. -/
theorem IsSingle.isAtomic {registration : Registration} (h : registration.IsSingle) :
    IsAtomic registration.perform := by
  cases registration with
  | static name values => exact isAtomic_registerStatic name values
  | conditional name branches => exact .check_bind fun _ => .check_bind fun _ => isAtomic_register _ _
  | template name text choices =>
    exact .check_bind fun _ => .check_bind fun _ => isAtomic_register _ _
  | modifier argument => exact isAtomic_installModifier argument
  | rules argument => exact h.elim
  | modifiers argument => exact h.elim
  | _ => exact .check_bind fun _ => isAtomic_register _ _

variable {generator after : Generator} {failure : Failure}

theorem failsAt_of_performEach {registrations : List Registration}
    (hsingle : ∀ registration ∈ registrations, registration.IsSingle)
    (h : performEach registrations generator = (.error failure, after)) :
    FailsAt registrations generator failure after := by
  induction registrations generalizing generator with
  | nil => cases h
  | cons registration rest ih =>
    rw [performEach, bind_apply] at h
    rcases hfirst : registration.perform generator with ⟨fault | value, next⟩
    · rw [hfirst] at h
      cases h
      obtain rfl :=
        (hsingle registration List.mem_cons_self).isAtomic generator failure after hfirst
      exact ⟨[], registration, rest, rfl, rfl, hfirst⟩
    · rw [hfirst] at h
      exact .cons hfirst (ih (fun other hother => hsingle other (List.mem_cons_of_mem _ hother)) h)

theorem failsAt_of_isAtomic {registration : Registration} (hatomic : IsAtomic registration.perform)
    (h : registration.perform generator = (.error failure, after)) :
    FailsAt [registration] generator failure after := by
  obtain rfl := hatomic generator failure after h
  exact ⟨[], registration, [], rfl, rfl, h⟩

/-- A registration that fails has carried out the elements before one that is refused, in order, and
nothing of that one and of those after it. What registers one rule or one modifier leaves rules,
their order, modifiers and all else as they were. -/
theorem perform_fails {registration : Registration}
    (h : registration.perform generator = (.error failure, after)) :
    (registration.IsSingle → after = generator) ∧
      FailsAt registration.elements generator failure after := by
  refine ⟨fun hsingle => hsingle.isAtomic generator failure after h, ?_⟩
  have hwhole (hatomic : IsAtomic registration.perform) :
      FailsAt [registration] generator failure after := failsAt_of_isAtomic hatomic h
  cases registration with
  | rules argument =>
    cases argument with
    | mapping members =>
      rw [perform, registerAll, registerMembers_eq] at h
      exact failsAt_of_performEach (List.forall_mem_map.2 fun _ _ => trivial) h
    | _ => exact hwhole (isAtomic_throw _)
  | modifiers argument =>
    simp only [elements]
    cases hitems : argument.items with
    | error fault =>
      refine hwhole fun generator failure after hrun => ?_
      rw [perform, installModifiers, Generator.check_bind, hitems] at hrun
      cases hrun
      rfl
    | ok items =>
      rw [perform, installModifiers, Generator.check_bind, hitems] at h
      dsimp only at h
      rw [installEach_eq] at h
      exact failsAt_of_performEach (List.forall_mem_map.2 fun _ _ => trivial) h
  | _ => exact hwhole (IsSingle.isAtomic trivial)

/-- Two rules with a refused one between them. -/
def threeRules : Datum :=
  .mapping [(.text "a", .list [.text "x"]), (.text "b", 5), (.text "c", .list [.text "y"])]

theorem perform_threeRules :
    (perform (.rules threeRules) (.default 0 100)).1 = .error (.rule (.notAList .rule)) := by
  decide

theorem perform_fails_threeRules :
    (perform (.rules threeRules) (.default 0 100)).1 = .error (.rule (.notAList .rule)) ∧
    FailsAt [static (.text "a") (.list [.text "x"]), static (.text "b") 5,
        static (.text "c") (.list [.text "y"])]
      (.default 0 100) (.rule (.notAList .rule)) (perform (.rules threeRules) (.default 0 100)).2 ∧
    (perform (static (.text "b") 5) (.default 0 100)).1 = .error (.rule (.notAList .rule)) ∧
    (static (.text "b") 5).IsSingle ∧
    (perform (static (.text "b") 5) (.default 0 100)).2 = .default 0 100 := by
  have hsingle : (perform (static (.text "b") 5) (.default 0 100)).1 =
      .error (.rule (.notAList .rule)) := by decide
  exact ⟨perform_threeRules, (perform_fails (Prod.ext perform_threeRules rfl)).2, hsingle, trivial,
    (perform_fails (Prod.ext hsingle rfl)).1 trivial⟩

/-- The rule before the refused one stays, as does a modifier. -/
theorem perform_partly :
    (perform (.rules threeRules) (.default 0 100)).1 = .error (.rule (.notAList .rule)) ∧
    (Generator.default 0 100).store.names = [] ∧
    (perform (.rules threeRules) (.default 0 100)).2.store.names = ["a"] ∧
    (perform (.modifiers (.list [.modifier (English.articles English.baseEnglish), 5]))
      (.default 0 100)).1 = .error (.modifier .notAModifier) ∧
    (Generator.default 0 100).pipeline.size = 0 ∧
    (perform (.modifiers (.list [.modifier (English.articles English.baseEnglish), 5]))
      (.default 0 100)).2.pipeline.size = 1 := by
  refine ⟨perform_threeRules, by decide, by decide, by decide, rfl,
    by decide⟩

end Registration

end TextGrammar
