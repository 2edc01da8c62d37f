import TextGrammar.Proofs.Generator.Accounts
import TextGrammar.Proofs.Generator.Clone

/-! Sequences over whole sessions: one value after the other, and nothing else moves them. -/
namespace TextGrammar

open Generator

variable {name : String} {rule : Rule.Sequential} {given : Nat} {generator : Generator}

/-- A rule that is registered is found under its name and kind, and the others where they were. -/
theorem Store.get?_register {store store' : Store} {shown : Datum} {added : Rule}
    {shadowing : Option Shadowing} (h : store.register shown added = .ok (store', shadowing)) :
    ∃ key, shown.text? = some key ∧ ∀ name kind, store'.get? name kind =
      if key = name ∧ added.kind = kind then some added else store.get? name kind := by
  simp only [register] at h
  split at h
  · cases h
  · rename_i key hkey
    split at h
    · cases h
    · cases h
      exact ⟨key, hkey, get?_putEntry store _⟩

namespace Generator

theorem get?_register {shown : Datum} {added : Rule} {start : Generator}
    (h : register shown added generator = (.ok (), start)) (hname : shown.text? = some name) :
    start.store.get? name added.kind = some added := by
  rw [register_eq] at h
  have hfound {store : Store} {shadowing : Option Shadowing}
      (hstore : generator.store.register shown added = .ok (store, shadowing)) :
      store.get? name added.kind = some added := by
    obtain ⟨key, hkey, hget⟩ := Store.get?_register hstore
    rw [hname] at hkey
    cases hkey
    rw [hget, if_pos ⟨rfl, rfl⟩]
  split at h
  · cases h
  · rename_i store hstore
    cases h
    exact hfound hstore
  · rename_i store shadowing hstore
    cases h
    exact hfound hstore

/-- What is found under one name and kind is kept by registrations under other ones. -/
theorem register_keeps_get? {kind : RuleKind} {shown : Datum} {added : Rule}
    (h : added.kind = kind → shown.text? ≠ some name) :
    Keeps (fun generator => generator.store.get? name kind) (register shown added) := by
  intro generator
  rw [register_eq]
  have hkept {store : Store} {shadowing : Option Shadowing}
      (hstore : generator.store.register shown added = .ok (store, shadowing)) :
      store.get? name kind = generator.store.get? name kind := by
    obtain ⟨key, hkey, hget⟩ := Store.get?_register hstore
    rw [hget, if_neg]
    rintro ⟨rfl, hkind⟩
    exact h hkind hkey
  split
  · rfl
  · rename_i store hstore
    exact hkept hstore
  · rename_i store shadowing hstore
    exact hkept hstore

theorem registerMembers_keeps_get? {kind : RuleKind} (hkind : kind ≠ .static)
    (members : List (Datum × Datum)) :
    Keeps (fun generator => generator.store.get? name kind) (registerMembers members) := by
  induction members with
  | nil => exact Keeps.pure ()
  | cons member rest ih =>
    have hfirst : Keeps (fun generator => generator.store.get? name kind)
        (registerStatic member.1 member.2) :=
      (check_keeps _).bind fun _ => register_keeps_get? fun hstatic => absurd hstatic.symm hkind
    exact hfirst.bind fun _ => ih

theorem installModifier_keeps_store (modifier : Datum) :
    Keeps Generator.store (installModifier modifier) := by
  cases modifier with
  | modifier modifier => exact fun _ => rfl
  | _ => exact check_keeps (.error _)

theorem installEach_keeps_store (modifiers : List Datum) :
    Keeps Generator.store (installEach modifiers) := by
  induction modifiers with
  | nil => exact Keeps.pure ()
  | cons modifier rest ih => exact (installModifier_keeps_store modifier).bind fun _ => ih

end Generator

/-- A request that registers no sequence under the name, and removes none. -/
def Request.Spares {α : Type} (name : String) : Request α → Prop
  | register (.sequential shown values cycle) =>
    shown.text? = some name → ∀ rule, Rule.Sequential.define values cycle ≠ .ok rule
  | removeRule kind shown => kind = .sequential → shown.name? ≠ .ok (some name)
  | removeRules shown => shown.name? ≠ .ok (some name)
  | clearKind kind => kind ≠ .sequential
  | clearRules | clear | clearEverything => False
  | _ => True

/-- What a request draws from the rules. Only requests that generate do. -/
def Request.draws {α : Type} (generator : Generator) : Request α → List (String × String)
  | parse text keepContext => (Account.parse text keepContext).draws generator
  | parseReported text keepContext => (Account.parseReported text keepContext).draws generator
  | parseWith text options => (Account.parseWith text options).draws generator
  | parseAll texts keepContext => (Account.parseAll texts keepContext).draws generator
  | variations text count seed => (Account.variations text count seed).draws generator
  | expand text keepContext => (Account.expand text keepContext).draws generator
  | resolve name scope => (Account.resolve name scope).draws generator
  | _ => []

/-- What a request does to the sequence under a name. -/
def Request.turns {α : Type} (name : String) (generator : Generator) (request : Request α) :
    List Turn :=
  match request with
  | restart other => if other = name then [.restarted] else []
  | request => generator.store.turns name (request.draws generator)

theorem Registration.keeps_sequence {registration : Registration}
    (h : (Request.register registration).Spares name) :
    Keeps (fun generator => generator.store.get? name .sequential) registration.perform := by
  have hother {added : Rule} (hkind : added.kind ≠ .sequential) (shown : Datum) :
      Keeps (fun generator => generator.store.get? name .sequential) (Generator.register shown added) :=
    register_keeps_get? fun hsame => absurd hsame hkind
  cases registration with
  | sequential shown values cycle =>
    rw [perform, registerSequential]
    cases hdefine : Rule.Sequential.define values cycle with
    | error failure => exact check_keeps (.error failure)
    | ok rule =>
      refine (check_keeps _).bind fun _ => register_keeps_get? fun _ hname => ?_
      exact h hname rule hdefine
  | conditional shown branches =>
    exact (check_keeps _).bind fun _ => (check_keeps _).bind fun _ => hother (by simp [Rule.kind]) shown
  | template shown text choices =>
    exact (check_keeps _).bind fun _ => (check_keeps _).bind fun _ => hother (by simp [Rule.kind]) shown
  | modifier argument =>
    exact (installModifier_keeps_store argument).part (·.get? name .sequential)
  | rules argument =>
    cases argument with
    | mapping members => exact registerMembers_keeps_get? (by decide) members
    | _ => exact check_keeps (.error _)
  | modifiers argument =>
    refine (check_keeps _).bind fun items => ?_
    exact (installEach_keeps_store items).part (·.get? name .sequential)
  | _ => exact (check_keeps _).bind fun _ => hother (by simp [Rule.kind]) _

theorem Request.removeRule_keeps_sequence {kind : RuleKind} {shown : Datum}
    (h : (removeRule kind shown).Spares name) :
    Keeps (fun generator => generator.store.get? name .sequential)
      (Generator.removeRule kind shown) := by
  refine remove_keeps fun generator key hkey => ?_
  refine generator.store.get?_filter fun entry hname hkind => ?_
  rw [Bool.not_eq_true', Bool.and_eq_false_iff]
  by_cases hsame : kind = .sequential
  · left
    have hne : name ≠ key := by
      rintro rfl
      exact h hsame hkey
    simpa [hname] using hne
  · right
    simpa [hkind] using Ne.symm hsame

theorem Request.removeRules_keeps_sequence {shown : Datum} (h : (removeRules shown).Spares name) :
    Keeps (fun generator => generator.store.get? name .sequential)
      (Generator.removeRules shown) := by
  refine remove_keeps fun generator key hkey => ?_
  refine generator.store.get?_filter fun entry hname _ => ?_
  have hne : name ≠ key := by
    rintro rfl
    exact h hkey
  simpa [hname] using hne

theorem Request.inTurn_restart (hget : generator.store.get? name .sequential =
      some (.sequential (rule.after given))) (other : String) :
    rule.InTurn given ((restart other).turns name generator) ∧
      ((restart other).perform generator).2.store.get? name .sequential =
        some (.sequential (rule.after (givenAfter given ((restart other).turns name generator)))) := by
  by_cases hother : other = name
  · subst hother
    simp only [turns, if_true, perform, Store.restart?_of_sequential hget]
    exact ⟨Rule.Sequential.inTurn_restarted,
      (Store.get?_putEntry _ _ _ _).trans (if_pos ⟨rfl, rfl⟩)⟩
  · simp only [turns, hother, if_false, perform]
    refine ⟨Rule.Sequential.inTurn_nil, ?_⟩
    cases hrestart : generator.store.restart? other with
    | none => exact hget
    | some store => exact (Store.get?_restart? hrestart hother .sequential).trans hget

/-- From a sequence that has given so many values, a request gives those that are due. -/
theorem Request.inTurn {α : Type} {request : Request α} (hspares : request.Spares name)
    (hvalues : rule.values ≠ [])
    (hget : generator.store.get? name .sequential = some (.sequential (rule.after given))) :
    rule.InTurn given (request.turns name generator) ∧
      (request.perform generator).2.store.get? name .sequential =
        some (.sequential (rule.after (givenAfter given (request.turns name generator)))) := by
  have hgenerates {action : Action α} (account : Account action) :=
    (account.drawn generator).inTurn_turns hvalues hget
  have hkept {action : Action α}
      (h : Keeps (fun generator => generator.store.get? name .sequential) action) :
      rule.InTurn given (generator.store.turns name []) ∧
        (action generator).2.store.get? name .sequential =
          some (.sequential (rule.after (givenAfter given (generator.store.turns name [])))) := by
    obtain ⟨hturns, hplace⟩ := Store.Drawn.nil.inTurn_turns hvalues hget
    exact ⟨hturns, (h generator).trans hplace⟩
  cases request with
  | parse text keepContext => exact hgenerates (Account.parse text keepContext)
  | parseReported text keepContext => exact hgenerates (Account.parseReported text keepContext)
  | parseWith text options => exact hgenerates (Account.parseWith text options)
  | parseAll texts keepContext => exact hgenerates (Account.parseAll texts keepContext)
  | variations text count seed => exact hgenerates (Account.variations text count seed)
  | expand text keepContext => exact hgenerates (Account.expand text keepContext)
  | resolve shown scope => exact hgenerates (Account.resolve shown scope)
  | restart other => exact inTurn_restart hget other
  | register registration => exact hkept (Registration.keeps_sequence hspares)
  | removeRule kind shown => exact hkept (removeRule_keeps_sequence hspares)
  | removeRules shown => exact hkept (removeRules_keeps_sequence hspares)
  | removeModifier shown => exact hkept (remove_keeps fun _ _ _ => rfl)
  | clearKind kind =>
    refine hkept fun generator => generator.store.get?_filter fun entry _ hkind => ?_
    simpa [hkind] using Ne.symm hspares
  | clearRules => exact hspares.elim
  | clear => exact hspares.elim
  | clearEverything => exact hspares.elim
  | limitDepth depth => exact hkept ((check_keeps _).bind fun _ _ => rfl)
  | seedWith seed => exact hkept ((check_keeps _).bind fun _ _ => rfl)
  | _ => exact hkept fun _ => rfl

namespace Session

/-- What a session does to the sequence under a name, in order. -/
def turns (name : String) (generator : Generator) : Session → List Turn
  | [] => []
  | ⟨_, request⟩ :: rest =>
    request.turns name generator ++ turns name (request.perform generator).2 rest

/-- No request registers a sequence under the name, or removes one. -/
def Spares (name : String) (session : Session) : Prop :=
  ∀ request ∈ session, request.2.Spares name

variable {session later : Session}

theorem turns_append (session later : Session) (generator : Generator) :
    turns name generator (session ++ later) =
      turns name generator session ++ turns name (run generator session) later := by
  induction session generalizing generator with
  | nil => rfl
  | cons first rest ih =>
    have hrest := ih (first.2.perform generator).2
    rw [List.cons_append, turns, turns, hrest, List.append_assoc]
    rfl

/-- A session gives the values of a sequence in turn, and leaves it after the last one given. -/
theorem inTurn (hspares : Spares name session) (hvalues : rule.values ≠ [])
    (hget : generator.store.get? name .sequential = some (.sequential (rule.after given))) :
    rule.InTurn given (turns name generator session) ∧
      (run generator session).store.get? name .sequential =
        some (.sequential (rule.after (givenAfter given (turns name generator session)))) := by
  induction session generalizing generator given with
  | nil => exact ⟨Rule.Sequential.inTurn_nil, hget⟩
  | cons first rest ih =>
    obtain ⟨hfirst, hrest⟩ := List.forall_mem_cons.1 hspares
    obtain ⟨hturns, hplace⟩ := Request.inTurn hfirst hvalues hget
    obtain ⟨hlater, hlast⟩ := ih hrest hplace
    rw [turns, givenAfter_append]
    exact ⟨hturns.append hlater, hlast⟩

/-- A sequence under a name in the course of a session, from its start on. -/
structure KeepsPlace (name : String) (rule : Rule.Sequential) (generator : Generator)
    (session : Session) : Prop where
  /-- Each value is the one that is due after those since the last restart: in a cycle the first one
  again after the last, and otherwise the last one for good. -/
  due : ∀ before value later, turns name generator session = before ++ .gave value :: later →
    rule.values[if rule.cycle then givenAfter 0 before % rule.values.length
      else min (givenAfter 0 before) (rule.values.length - 1)]? = some value
  /-- At every point of the session the values since the last restart say where the sequence is. -/
  place : ∀ before later, session = before ++ later →
    (run generator before).store.get? name .sequential =
      some (.sequential (rule.after (givenAfter 0 (turns name generator before))))
  /-- A request without a turn of the sequence leaves it where it is. -/
  unmoved : ∀ before request later, session = before ++ request :: later →
    request.2.turns name (run generator before) = [] →
      (run generator (before ++ [request])).store.get? name .sequential =
        (run generator before).store.get? name .sequential

theorem keepsPlace (hspares : Spares name session) (hvalues : rule.values ≠ [])
    (hget : generator.store.get? name .sequential = some (.sequential (rule.after 0))) :
    KeepsPlace name rule generator session := by
  have hplace : ∀ before later, session = before ++ later →
      (run generator before).store.get? name .sequential =
        some (.sequential (rule.after (givenAfter 0 (turns name generator before)))) := by
    rintro before later rfl
    exact (inTurn (fun request hrequest => hspares request (List.mem_append_left _ hrequest)) hvalues
      hget).2
  refine ⟨(inTurn hspares hvalues hget).1, hplace, ?_⟩
  intro before request later hsession hnone
  have hafter := hplace (before ++ [request]) later (by rw [hsession, List.append_assoc]; rfl)
  have hturns : turns name generator (before ++ [request]) = turns name generator before := by
    rw [turns_append, turns, hnone]
    exact List.append_nil _
  rw [hafter, hturns, hplace before _ hsession]

end Session

/-- A sequence that is registered keeps its place whatever is requested then, unless another one is
registered in its place or it is removed. -/
theorem Generator.keepsPlace_of_registerSequential {shown values cycle : Datum} {start : Generator}
    (hname : shown.text? = some name)
    (hregister : registerSequential shown values cycle generator = (.ok (), start))
    {session : Session} (hspares : session.Spares name) :
    ∃ rule, Rule.Sequential.define values cycle = .ok rule ∧ rule.values ≠ [] ∧
      Session.KeepsPlace name rule start session := by
  rw [registerSequential, check_bind] at hregister
  cases hdefine : Rule.Sequential.define values cycle with
  | error failure =>
    rw [hdefine] at hregister
    cases hregister
  | ok rule =>
    rw [hdefine] at hregister
    obtain ⟨hvalues, -⟩ := Rule.Sequential.accepted_of_define hdefine
    have hstart : rule.after 0 = rule := by
      obtain ⟨texts, -, hrule⟩ := bind_eq_ok.1 hdefine
      rw [← pure_eq_ok.1 hrule]
      rfl
    have hget : start.store.get? name .sequential = some (.sequential (rule.after 0)) := by
      rw [hstart]
      have hfound := get?_register hregister hname
      exact hfound
    exact ⟨rule, rfl, hvalues, Session.keepsPlace hspares hvalues hget⟩

namespace Generator

/-- A sequence that starts over after three values. -/
def registerWheel : Action Unit :=
  registerSequential (.text "s") (.list [.text "x", .text "y", .text "z"]) (.flag true)

/-- Texts with the sequence and without it, of which one nests too deep, one is tried again and one is
behind a rule of another kind. -/
def wheelSession : Session := [
  ⟨_, .parse (.text "%s% %s%") false⟩, ⟨_, .limitDepth 1⟩, ⟨_, .parse (.text "%s%") false⟩,
  ⟨_, .parseWith (.text "%s%") .nothing⟩, ⟨_, .restart "s"⟩,
  ⟨_, .variations (.text "none") 2 .nothing⟩,
  ⟨_, .register (.conditional (.text "s") (.list [.branch .nothing .nothing (.list [.text "w"])]))⟩,
  ⟨_, .resolve (.text "s") (.run ∅)⟩, ⟨_, .removeRule .conditional (.text "s")⟩,
  ⟨_, .resolve (.text "s") (.run ∅)⟩]

theorem spares_wheelSession : wheelSession.Spares "s" := by
  simp only [Session.Spares, wheelSession, List.forall_mem_cons]
  exact ⟨trivial, trivial, trivial, trivial, trivial, trivial, trivial, trivial, nofun, trivial, nofun⟩

theorem keepsPlace_wheelSession :
    (.text "s" : Datum).text? = some "s" ∧
      (registerWheel (.default 0 100)).1 = .ok () ∧ wheelSession.Spares "s" ∧
      wheelSession.turns "s" (registerWheel (.default 0 100)).2 =
        [.gave "x", .gave "y", .gave "z", .gave "x", .gave "y", .restarted, .gave "x"] ∧
      ∃ rule, Rule.Sequential.define (.list [.text "x", .text "y", .text "z"]) (.flag true) = .ok rule ∧
        rule.values ≠ [] ∧
        Session.KeepsPlace "s" rule (registerWheel (.default 0 100)).2 wheelSession := by
  have hregister : (registerWheel (.default 0 100)).1 = .ok () := by decide
  refine ⟨rfl, hregister, spares_wheelSession, by decide +kernel, ?_⟩
  exact keepsPlace_of_registerSequential (rfl : (.text "s" : Datum).text? = some "s")
    (Prod.ext hregister rfl) spares_wheelSession

end Generator

end TextGrammar
