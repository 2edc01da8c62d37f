import Mathlib.Data.List.Basic
import Mathlib.Data.List.Induction
import TextGrammar.Proofs.Expansion.Steps

/-! Expansion with a record: values are entered raw, their texts are finished, and replayed. -/
namespace TextGrammar

inductive Event where
  /-- A raw value is drawn, and its tokens come next. -/
  | entered (name value : String)
  /-- The tokens of a value are done, and the text takes the place of the name's token. -/
  | finished (name text : String)
  /-- The value of a name in the context takes the place of its replay. -/
  | replayed (name text : String)
  deriving DecidableEq

namespace Event

/-- A name and its new value in the context. -/
def write? : Event → Option (String × String)
  | entered name value => some (name, value)
  | finished name text => some (name, text)
  | replayed .. => none

def onContext (context : Context) (event : Event) : Context :=
  match event.write? with
  | some (name, value) => context.put name value
  | none => context

def isEntry (name : String) : Event → Bool
  | entered other _ => other = name
  | _ => false

def isFinish (name : String) : Event → Bool
  | finished other _ => other = name
  | _ => false

end Event

/-- A context after events, from the first one on. -/
def contextAfter (context : Context) (events : List Event) : Context :=
  events.foldl Event.onContext context

/-- The event is there, and its name has not got another value since. -/
def IsLastWrite (event : Event) (events : List Event) : Prop :=
  ∃ earlier since, events = earlier ++ event :: since ∧
    ∀ later ∈ since, later.write?.map Prod.fst ≠ event.write?.map Prod.fst

/-- More values of the name are entered than finished. -/
def IsOpen (name : String) (events : List Event) : Prop :=
  events.countP (Event.isFinish name) < events.countP (Event.isEntry name)

section Events

variable {context : Context} {event later : Event} {events : List Event} {name text : String}

theorem contextAfter_append (context : Context) (events later : List Event) :
    contextAfter context (events ++ later) = contextAfter (contextAfter context events) later := by
  simp only [contextAfter, List.foldl_append]

theorem contextAfter_concat (context : Context) (events : List Event) (event : Event) :
    contextAfter context (events ++ [event]) = event.onContext (contextAfter context events) := by
  rw [contextAfter_append]
  rfl

/-- A value and the text that it is finished as are put under the name, with what comes between. -/
theorem contextAfter_finished (context : Context) (name value text : String)
    (inside events : List Event) :
    contextAfter context (.entered name value :: inside ++ .finished name text :: events) =
      contextAfter ((contextAfter (context.put name value) inside).put name text) events := by
  change contextAfter (context.put name value) (inside ++ .finished name text :: events) = _
  rw [contextAfter_append]
  rfl

theorem isLastWrite_concat (event : Event) (events : List Event) :
    IsLastWrite event (events ++ [event]) :=
  ⟨events, [], rfl, fun _ hlater => absurd hlater List.not_mem_nil⟩

theorem IsLastWrite.concat (h : IsLastWrite event events)
    (hother : later.write?.map Prod.fst ≠ event.write?.map Prod.fst) :
    IsLastWrite event (events ++ [later]) := by
  obtain ⟨earlier, since, rfl, hsince⟩ := h
  refine ⟨earlier, since ++ [later], by simp, fun other hmem => ?_⟩
  rcases List.mem_append.1 hmem with hmem | hmem
  · exact hsince other hmem
  · rwa [List.mem_singleton.1 hmem]

/-- In a context that was empty at first, a name has the value that it was last given. -/
theorem exists_isLastWrite (h : (contextAfter ∅ events).get? name = some text) :
    ∃ event, event.write? = some (name, text) ∧ IsLastWrite event events := by
  -- from the end: either the last event writes the name, or the name has the value it had before
  induction events using List.reverseRecOn with
  | nil => cases h
  | append_singleton events last ih =>
    rw [contextAfter_concat, Event.onContext] at h
    cases hwrite : last.write? with
    | none =>
      rw [hwrite] at h
      obtain ⟨event, hevent, hlast⟩ := ih h
      exact ⟨event, hevent, hlast.concat (by simp [hwrite, hevent])⟩
    | some write =>
      obtain ⟨other, value⟩ := write
      simp only [hwrite, Table.get?_put] at h
      split at h
      · rename_i hname
        cases h
        exact ⟨last, by rw [hwrite, hname], isLastWrite_concat last events⟩
      · rename_i hname
        obtain ⟨event, hevent, hlast⟩ := ih h
        refine ⟨event, hevent, hlast.concat ?_⟩
        simpa [hwrite, hevent] using Ne.symm hname

theorem isLastWrite_of_get? (h : (contextAfter ∅ events).get? name = some text) :
    IsLastWrite (.finished name text) events ∨ IsLastWrite (.entered name text) events := by
  obtain ⟨event, hevent, hlast⟩ := exists_isLastWrite h
  cases event with
  | entered other value =>
    cases hevent
    exact .inr hlast
  | finished other value =>
    cases hevent
    exact .inl hlast
  | replayed other value => cases hevent

end Events

/-- Segments become a text in the course of events: the events of a value stand between its entry and
its finish, and what it is finished as takes the place of its token. -/
inductive Fills : List Segment → List Event → String → Prop
  | nil : Fills [] [] ""
  | literal {rest : List Segment} {events : List Event} {text tail : String}
      (hrest : Fills rest events tail) : Fills (.literal text :: rest) events (text ++ tail)
  | left {rest : List Segment} {events : List Event} {name tail : String}
      (hrest : Fills rest events tail) :
      Fills (.token name :: rest) events (Segment.tokenText name ++ tail)
  | replayed {rest : List Segment} {events : List Event} {name text tail : String}
      (hreplay : isReplay name = true) (hrest : Fills rest events tail) :
      Fills (.token name :: rest) (.replayed (referent name) text :: events) (text ++ tail)
  | finished {rest : List Segment} {inside events : List Event} {name value text tail : String}
      (hreplay : isReplay name = false) (hinside : Fills (Segment.split value) inside text)
      (hrest : Fills rest events tail) :
      Fills (.token name :: rest) (.entered name value :: inside ++ .finished name text :: events)
        (text ++ tail)

section Fills

variable {segments : List Segment} {events before : List Event} {name text value : String}

/-- At no time are more values of a name finished than were entered, and in the end all are. -/
theorem Fills.countP_finishes (h : Fills segments events text) (name : String) :
    (∀ before, before <+: events →
      before.countP (Event.isFinish name) ≤ before.countP (Event.isEntry name)) ∧
    events.countP (Event.isFinish name) = events.countP (Event.isEntry name) := by
  induction h with
  | nil =>
    refine ⟨fun before hbefore => ?_, rfl⟩
    rw [List.prefix_nil.1 hbefore]
    exact Nat.le_refl _
  | literal _ ih => exact ih
  | left _ ih => exact ih
  | replayed _ _ ih =>
    refine ⟨fun before hbefore => ?_, by simpa [Event.isFinish, Event.isEntry] using ih.2⟩
    rcases List.prefix_cons_iff.1 hbefore with rfl | ⟨since, rfl, hsince⟩
    · exact Nat.le_refl _
    · simpa [Event.isFinish, Event.isEntry] using ih.1 since hsince
  | @finished rest inside events other value text tail _ _ _ ihinside ihrest =>
    refine ⟨fun before hbefore => ?_, ?_⟩
    · rcases List.prefix_cons_iff.1 hbefore with rfl | ⟨since, rfl, hsince⟩
      · exact Nat.le_refl _
      · rcases List.prefix_or_prefix_of_prefix hsince (List.prefix_append inside _) with
          hwithin | ⟨beyond, rfl⟩
        · have hle := ihinside.1 since hwithin
          simp only [List.countP_cons, Event.isFinish, Event.isEntry, Bool.false_eq_true, if_false,
            decide_eq_true_eq]
          omega
        · have hle := ihinside.2
          rcases List.prefix_cons_iff.1 ((List.prefix_append_right_inj inside).1 hsince) with
            rfl | ⟨last, rfl, hlast⟩
          · simp only [List.append_nil, List.countP_cons, Event.isFinish, Event.isEntry,
              Bool.false_eq_true, if_false, decide_eq_true_eq]
            omega
          · have hrest := ihrest.1 last hlast
            simp only [List.countP_cons, List.countP_append, Event.isFinish, Event.isEntry,
              Bool.false_eq_true, if_false, decide_eq_true_eq]
            omega
    · have hinside := ihinside.2
      have hrest := ihrest.2
      simp only [List.countP_cons, List.countP_append, List.cons_append, Event.isFinish,
        Event.isEntry, Bool.false_eq_true, if_false, decide_eq_true_eq]
      omega

/-- A value that is the last one given to its name by being entered is not finished yet. -/
theorem Fills.isOpen_of_isLastWrite (h : Fills segments events text) (hbefore : before <+: events)
    (hlast : IsLastWrite (.entered name value) before) : IsOpen name before := by
  obtain ⟨earlier, since, rfl, hsince⟩ := hlast
  have hearlier : earlier <+: events := (List.prefix_append earlier _).trans hbefore
  have hle := (h.countP_finishes name).1 earlier hearlier
  have hnone : since.countP (Event.isFinish name) = 0 := by
    refine List.countP_eq_zero.2 fun later hlater => ?_
    have hother := hsince later hlater
    cases later with
    | finished other shown => simpa [Event.isFinish, Event.write?] using hother
    | _ => simp [Event.isFinish]
  simp only [IsOpen, List.countP_append, List.countP_cons, hnone]
  simp only [Event.isFinish, Event.isEntry, decide_true, if_true, Bool.false_eq_true, if_false]
  omega

end Fills

namespace Engine

/-- An engine and what has happened so far. -/
structure Recorded where
  engine : Engine
  events : List Event

abbrev Recording := ExceptT Failure (StateM Recorded)

/-- A computation in which nothing happens to the values of names. -/
def unrecorded {α : Type} (run : ExceptT Failure (StateM Engine) α) : Recording α := fun recorded =>
  match run recorded.engine with
  | (result, engine) => (result, { recorded with engine })

def happens (event : Event) : Recording Unit := fun recorded =>
  (.ok (), {
    engine := { recorded.engine with context := event.onContext recorded.engine.context }
    events := recorded.events ++ [event] })

def recordReplay (name : String) : Recording String := do
  match (← get).engine.context.get? (referent name) with
  | none => return Segment.tokenText name
  | some text =>
    happens (.replayed (referent name) text)
    return text

def recordToken (inner : String → Recording String) (name : String) : Recording String :=
  if isReplay name then recordReplay name
  else do
    match ← unrecorded (drawn name) with
    | none => return Segment.tokenText name
    | some value =>
      happens (.entered name value)
      let text ← inner value
      happens (.finished name text)
      return text

def recordSegments (inner : String → Recording String) : List Segment → Recording String
  | [] => return ""
  | .literal text :: rest => do
    let tail ← recordSegments inner rest
    return text ++ tail
  | .token name :: rest => do
    let text ← recordToken inner name
    let tail ← recordSegments inner rest
    return text ++ tail

def recordWithin (limit : Int) : Nat → String → Recording String
  | 0, _ => throw (.tooDeep (toString limit))
  | room + 1, text => recordSegments (recordWithin limit room) (Segment.split text)

section Preserved

variable {holds : Recorded → Prop}

theorem recordSegments_preserves {inner : String → Recording String}
    (h : ∀ name, Preserves holds (recordToken inner name)) (segments : List Segment) :
    Preserves holds (recordSegments inner segments) := by
  induction segments with
  | nil => exact Preserves.pure ""
  | cons segment rest ih =>
    cases segment with
    | literal text => exact ih.bind fun _ => Preserves.pure _
    | token name => exact (h name).bind fun _ => ih.bind fun _ => Preserves.pure _

/-- What a token keeps if the values below it do is kept by a whole recording. -/
theorem recordWithin_preserves
    (h : ∀ {inner : String → Recording String}, (∀ value, Preserves holds (inner value)) →
      ∀ name, Preserves holds (recordToken inner name)) (limit : Int) (room : Nat) (text : String) :
    Preserves holds (recordWithin limit room text) := by
  induction room generalizing text with
  | zero =>
    intro recorded hrecorded
    exact hrecorded
  | succ room ih => exact recordSegments_preserves (h ih) (Segment.split text)

end Preserved

/-- But for what is recorded, a recording is the computation. -/
def Erases {α : Type} (recording : Recording α) (run : ExceptT Failure (StateM Engine) α) : Prop :=
  ∀ recorded, run recorded.engine = ((recording recorded).1, (recording recorded).2.engine)

namespace Erases

variable {α β : Type}

theorem pure (value : α) : Erases (Pure.pure value) (Pure.pure value) := by
  intro recorded
  rfl

theorem bind {first : Recording α} {next : α → Recording β}
    {run : ExceptT Failure (StateM Engine) α} {runNext : α → ExceptT Failure (StateM Engine) β}
    (h : Erases first run) (hnext : ∀ value, Erases (next value) (runNext value)) :
    Erases (first >>= next) (run >>= runNext) := by
  intro recorded
  rw [bind_apply, bind_apply, h recorded]
  rcases first recorded with ⟨failure | value, after⟩
  · rfl
  · exact hnext value after

end Erases

variable {inner : String → Engine → Expanded} {recordInner : String → Recording String}

theorem unrecorded_erases {α : Type} (run : ExceptT Failure (StateM Engine) α) :
    Erases (unrecorded run) run := by
  intro recorded
  rfl

theorem entered_erases (name value : String) :
    Erases (happens (.entered name value)) (noted name value) := by
  intro recorded
  rfl

theorem finished_erases (name text : String) :
    Erases (happens (.finished name text)) (noted name text) := by
  intro recorded
  rfl

theorem recordReplay_apply (name : String) (recorded : Recorded) :
    recordReplay name recorded = match recorded.engine.context.get? (referent name) with
      | none => (.ok (Segment.tokenText name), recorded)
      | some text => (.ok text,
          { recorded with events := recorded.events ++ [.replayed (referent name) text] }) := by
  change (match recorded.engine.context.get? (referent name) with
    | none => _
    | some text => _ : Recording String) recorded = _
  cases recorded.engine.context.get? (referent name) with
  | none => rfl
  | some text => rfl

theorem recordReplay_erases (name : String) : Erases (recordReplay name) (replayed name) := by
  intro recorded
  rw [recordReplay_apply, replayed]
  cases recorded.engine.context.get? (referent name) with
  | none => rfl
  | some text => rfl

theorem recordToken_erases (h : ∀ value, Erases (recordInner value) (computation (inner value)))
    (name : String) : Erases (recordToken recordInner name) (computation (expandToken inner name)) := by
  cases hreplay : isReplay name with
  | true =>
    rw [expandToken_replay inner hreplay, recordToken, if_pos hreplay]
    exact recordReplay_erases name
  | false =>
    rw [expandToken_draw inner hreplay, recordToken, if_neg (by simp [hreplay])]
    refine (unrecorded_erases _).bind ?_
    rintro (_ | value)
    · exact .pure _
    · refine (entered_erases name value).bind fun _ => (h value).bind fun text => ?_
      exact (finished_erases name text).bind fun _ => .pure text

theorem recordSegments_erases (h : ∀ value, Erases (recordInner value) (computation (inner value)))
    (segments : List Segment) :
    Erases (recordSegments recordInner segments) (computation (expandSegments inner segments)) := by
  induction segments with
  | nil => exact .pure ""
  | cons segment rest ih =>
    cases segment with
    | literal text =>
      rw [expandSegments_literal]
      exact ih.bind fun _ => .pure _
    | token name =>
      rw [expandSegments_token]
      exact (recordToken_erases h name).bind fun _ => ih.bind fun _ => .pure _

theorem recordWithin_erases (limit : Int) (room : Nat) (text : String) :
    Erases (recordWithin limit room text) (computation (expandWithin limit room text)) := by
  induction room generalizing text with
  | zero =>
    intro recorded
    rfl
  | succ room ih => exact recordSegments_erases ih (Segment.split text)

/-- The context comes of the events, and each replay stands for the value that the name had. -/
structure Accounts (start : Context) (recorded : Recorded) : Prop where
  context : recorded.engine.context = contextAfter start recorded.events
  replays : ∀ before name text rest, recorded.events = before ++ .replayed name text :: rest →
    (contextAfter start before).get? name = some text

variable {start : Context}

theorem happens_accounts {event : Event} {recorded : Recorded} (h : Accounts start recorded)
    (hreplay : ∀ name text, event = .replayed name text →
      recorded.engine.context.get? name = some text) :
    Accounts start (happens event recorded).2 where
  context := by
    rw [happens, contextAfter_concat, h.context]
  replays before name text rest heq := by
    rcases List.eq_nil_or_concat' rest with rfl | ⟨rest, last, rfl⟩
    · obtain ⟨rfl, hlast⟩ := List.append_inj' heq rfl
      rw [← h.context]
      exact hreplay name text (List.singleton_injective hlast)
    · rw [← List.cons_append, ← List.append_assoc] at heq
      exact h.replays before name text rest (List.append_inj' heq rfl).1

theorem write_accounts {event : Event} (hreplay : ∀ name text, event ≠ .replayed name text) :
    Preserves (Accounts start) (happens event) := by
  intro recorded h
  exact happens_accounts h fun name text heq => absurd heq (hreplay name text)

theorem recordReplay_accounts (name : String) : Preserves (Accounts start) (recordReplay name) := by
  intro recorded h
  rw [recordReplay_apply]
  cases hvalue : recorded.engine.context.get? (referent name) with
  | none => exact h
  | some text =>
    refine @happens_accounts start (.replayed (referent name) text) recorded h ?_
    rintro _ _ ⟨⟩
    exact hvalue

theorem drawn_accounts (name : String) : Preserves (Accounts start) (unrecorded (drawn name)) := by
  intro recorded h
  exact ⟨h.context, h.replays⟩

theorem recordToken_accounts (h : ∀ value, Preserves (Accounts start) (recordInner value))
    (name : String) : Preserves (Accounts start) (recordToken recordInner name) := by
  cases hreplay : isReplay name with
  | true =>
    rw [recordToken, if_pos hreplay]
    exact recordReplay_accounts name
  | false =>
    rw [recordToken, if_neg (by simp [hreplay])]
    refine (drawn_accounts name).bind ?_
    rintro (_ | value)
    · exact Preserves.pure _
    · refine (write_accounts (by simp)).bind fun _ => (h value).bind fun text => ?_
      exact (write_accounts (by simp)).bind fun _ => Preserves.pure text

theorem recordWithin_accounts (limit : Int) (room : Nat) (text : String) :
    Preserves (Accounts start) (recordWithin limit room text) :=
  recordWithin_preserves recordToken_accounts limit room text

/-- If the recording ends in a value, the value and the events that are added go together. -/
def Adds {α : Type} (recording : Recording α) (together : List Event → α → Prop) : Prop :=
  ∀ recorded value after, recording recorded = (.ok value, after) →
    ∃ events, after.events = recorded.events ++ events ∧ together events value

namespace Adds

variable {α β : Type} {together : List Event → α → Prop} {together' : List Event → β → Prop}

theorem pure {value : α} (h : together [] value) : Adds (Pure.pure value) together := by
  rintro recorded _ _ ⟨⟩
  exact ⟨[], by simp, h⟩

theorem bind {first : Recording α} {next : α → Recording β} (h : Adds first together)
    (hnext : ∀ events value, together events value →
      Adds (next value) fun more => together' (events ++ more)) :
    Adds (first >>= next) together' := by
  intro recorded value after hrun
  rw [bind_apply] at hrun
  rcases hfirst : first recorded with ⟨failure | middle, between⟩
  · rw [hfirst] at hrun
    cases hrun
  · rw [hfirst] at hrun
    obtain ⟨events, hevents, htogether⟩ := h recorded middle between hfirst
    obtain ⟨more, hmore, hvalue⟩ := hnext events middle htogether between value after hrun
    exact ⟨events ++ more, by rw [hmore, hevents, List.append_assoc], hvalue⟩

end Adds

theorem unrecorded_adds {α : Type} (run : ExceptT Failure (StateM Engine) α) :
    Adds (unrecorded run) fun events _ => events = [] := by
  rintro recorded value after hrun
  have hafter : after = (unrecorded run recorded).2 := by rw [hrun]
  exact ⟨[], by rw [hafter, List.append_nil]; rfl, rfl⟩

theorem happens_adds (event : Event) : Adds (happens event) fun events _ => events = [event] := by
  rintro recorded value after ⟨⟩
  exact ⟨[event], rfl, rfl⟩

/-- What a token's events and its text are to those of the segments after it. -/
def FillsToken (name : String) (events : List Event) (text : String) : Prop :=
  ∀ rest more tail, Fills rest more tail →
    Fills (.token name :: rest) (events ++ more) (text ++ tail)

theorem recordReplay_adds {name : String} (hreplay : isReplay name = true) :
    Adds (recordReplay name) (FillsToken name) := by
  intro recorded text after hrun
  rw [recordReplay_apply] at hrun
  split at hrun
  · cases hrun
    exact ⟨[], by simp, fun rest more tail hrest => .left hrest⟩
  · cases hrun
    exact ⟨_, rfl, fun rest more tail hrest => .replayed hreplay hrest⟩

theorem recordToken_adds (h : ∀ value, Adds (recordInner value) (Fills (Segment.split value)))
    (name : String) : Adds (recordToken recordInner name) (FillsToken name) := by
  cases hreplay : isReplay name with
  | true =>
    rw [recordToken, if_pos hreplay]
    exact recordReplay_adds hreplay
  | false =>
    rw [recordToken, if_neg (by simp [hreplay])]
    refine (unrecorded_adds _).bind ?_
    rintro _ (_ | value) rfl
    · exact .pure fun rest more tail hrest => .left hrest
    · refine (happens_adds _).bind ?_
      rintro _ _ rfl
      refine (h value).bind fun inside text hinside => (happens_adds _).bind ?_
      rintro _ _ rfl
      refine .pure fun rest more tail hrest => ?_
      simpa using Fills.finished hreplay hinside hrest

theorem recordSegments_adds (h : ∀ value, Adds (recordInner value) (Fills (Segment.split value)))
    (segments : List Segment) : Adds (recordSegments recordInner segments) (Fills segments) := by
  induction segments with
  | nil => exact .pure .nil
  | cons segment rest ih =>
    cases segment with
    | literal text =>
      refine ih.bind fun events tail htail => .pure ?_
      rw [List.append_nil]
      exact .literal htail
    | token name =>
      refine (recordToken_adds h name).bind fun events text htext => ?_
      refine ih.bind fun more tail htail => .pure ?_
      rw [List.append_nil]
      exact htext rest more tail htail

theorem recordWithin_adds (limit : Int) (room : Nat) (text : String) :
    Adds (recordWithin limit room text) (Fills (Segment.split text)) := by
  induction room generalizing text with
  | zero => rintro recorded value after ⟨⟩
  | succ room ih => exact recordSegments_adds ih (Segment.split text)

/-- What happens in an expansion with the given number of depths left. -/
def eventsWithin (limit : Int) (room : Nat) (text : String) (engine : Engine) : List Event :=
  (recordWithin limit room text { engine, events := [] }).2.events

variable {limit : Int} {room : Nat} {text : String} {engine : Engine}

theorem eventsWithin_accounts :
    Accounts engine.context (recordWithin limit room text { engine, events := [] }).2 := by
  refine recordWithin_accounts limit room text { engine, events := [] } ⟨rfl, ?_⟩
  rintro before name shown rest heq
  exact absurd heq.symm (by simp)

/-- The context that an expansion leaves comes of what happened in it, however it ended. -/
theorem context_expandWithin :
    (expandWithin limit room text engine).2.context =
      contextAfter engine.context (eventsWithin limit room text engine) := by
  have herases := recordWithin_erases limit room text { engine, events := [] }
  rw [computation] at herases
  rw [herases]
  exact eventsWithin_accounts.context

theorem fills_eventsWithin {result : String} (h : (expandWithin limit room text engine).1 = .ok result) :
    Fills (Segment.split text) (eventsWithin limit room text engine) result := by
  have herases := recordWithin_erases limit room text { engine, events := [] }
  rw [computation] at herases
  rw [herases] at h
  obtain ⟨events, hevents, hfills⟩ :=
    recordWithin_adds limit room text { engine, events := [] } result _ (Prod.ext h rfl)
  rw [List.nil_append] at hevents
  rwa [eventsWithin, hevents]

/-- From an empty context, each replay stands for the value that its name was last given: the finished
text of an occurrence, or the raw value of one that is still being expanded. -/
theorem replays_eventsWithin {result : String} (hempty : engine.context = ∅)
    (h : (expandWithin limit room text engine).1 = .ok result) {before rest : List Event}
    {name shown : String}
    (heq : eventsWithin limit room text engine = before ++ .replayed name shown :: rest) :
    IsLastWrite (.finished name shown) before ∨
      IsLastWrite (.entered name shown) before ∧ IsOpen name before := by
  have hvalue := eventsWithin_accounts.replays before name shown rest heq
  rw [hempty] at hvalue
  refine (isLastWrite_of_get? hvalue).imp_right fun hlast => ⟨hlast, ?_⟩
  exact (fills_eventsWithin h).isOpen_of_isLastWrite (heq ▸ List.prefix_append before _) hlast

end Engine

end TextGrammar
