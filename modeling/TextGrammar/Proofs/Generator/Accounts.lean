import TextGrammar.Proofs.Generator.Replays
import TextGrammar.Proofs.Generator.Requests
import TextGrammar.Proofs.Store.Draws

/-! The draws that a call makes: those of its texts, up to the one that ends it. -/
namespace TextGrammar

open Store (Drawn)

/-- A raw value that was drawn under a name. -/
def Event.draw? : Event → Option (String × String)
  | entered name value => some (name, value)
  | finished .. | replayed .. => none

namespace Engine

/-- The values that are entered are those that draws from the rules at the start give. -/
def Follows (start : Store) (recorded : Recorded) : Prop :=
  Drawn start (recorded.events.filterMap Event.draw?) recorded.engine.store

variable {start : Store} {recordInner : String → Recording String}

theorem happens_follows {event : Event} (h : event.draw? = none) :
    Preserves (Follows start) (happens event) := by
  intro recorded hrecorded
  simp only [Follows, happens, List.filterMap_append, List.filterMap_cons, h, List.filterMap_nil,
    List.append_nil]
  exact hrecorded

theorem recordReplay_follows (name : String) :
    Preserves (Follows start) (recordReplay name) := by
  intro recorded hrecorded
  rw [recordReplay_apply]
  split
  · exact hrecorded
  · exact happens_follows (rfl : (Event.replayed _ _).draw? = none) recorded hrecorded

/-- A value is drawn first and entered then. -/
theorem recordToken_follows (h : ∀ value, Preserves (Follows start) (recordInner value))
    (name : String) : Preserves (Follows start) (recordToken recordInner name) := by
  cases hreplay : isReplay name with
  | true =>
    rw [recordToken, if_pos hreplay]
    exact recordReplay_follows name
  | false =>
    rw [recordToken, if_neg (by simp [hreplay])]
    intro recorded hrecorded
    rw [bind_apply]
    simp only [unrecorded, drawn]
    rcases hdraw : recorded.engine.store.draw name (.run recorded.engine.context)
      recorded.engine.source with ⟨failure | _ | value, store, source⟩
    · exact hrecorded.concat_silent hdraw (by simp)
    · exact hrecorded.concat_silent hdraw (by simp)
    · have hrest : Preserves (Follows start) (do
          let text ← recordInner value
          happens (.finished name text)
          return text) :=
        (h value).bind fun text => (happens_follows rfl).bind fun _ => Preserves.pure text
      refine hrest _ ?_
      simp only [Follows, List.filterMap_append, List.filterMap_cons, List.filterMap_nil,
        Event.draw?]
      exact hrecorded.concat hdraw

theorem recordWithin_follows (limit : Int) (room : Nat) (text : String) :
    Preserves (Follows start) (recordWithin limit room text) :=
  recordWithin_preserves recordToken_follows limit room text

/-- However an expansion ends, the rules that it leaves come of the values entered in it. -/
theorem drawn_expandWithin {limit : Int} {room : Nat} {text : String} {engine : Engine} :
    Drawn engine.store ((eventsWithin limit room text engine).filterMap Event.draw?)
      (expandWithin limit room text engine).2.store := by
  have herases := recordWithin_erases limit room text { engine, events := [] }
  rw [computation] at herases
  rw [herases]
  exact recordWithin_follows limit room text { engine, events := [] } .nil

end Engine

namespace Generator

/-- What an action draws from the rules, in order, from any generator that it starts from. -/
structure Account {α : Type} (action : Action α) where
  draws : Generator → List (String × String)
  drawn : ∀ generator, Drawn generator.store (draws generator) (action generator).2.store

namespace Account

variable {α β : Type}

/-- What every draw keeps of the rules is kept by an action that does nothing to them but draw. -/
theorem preserves {action : Action α} (account : Account action) {holds : Store → Prop}
    (h : Store.IsKeptByDraws holds) : Preserves (fun generator => holds generator.store) action :=
  fun generator hstore => (account.drawn generator).preserves h hstore

/-- An action that leaves the rules as they are draws nothing. -/
def nothing {action : Action α} (h : Keeps Generator.store action) : Account action where
  draws _ := []
  drawn generator := by
    rw [h generator]
    exact .nil

def check (result : Except Failure α) : Account (Generator.check result) :=
  nothing (check_keeps result)

/-- An action that starts with another one draws what that one does, and then what the rest draws from
where it ended. -/
def startingWith {first : Action α} {action : Action β} (account : Account first)
    (rest : Except Failure α → Generator → List (String × String))
    (h : ∀ generator, Drawn (first generator).2.store (rest (first generator).1 (first generator).2)
      (action generator).2.store) : Account action where
  draws generator := account.draws generator ++ rest (first generator).1 (first generator).2
  drawn generator := (account.drawn generator).trans (h generator)

/-- What follows draws only if the first action does not fail. -/
def andThen {first : Action α} {next : α → Action β} (account : Account first)
    (accountNext : ∀ value, Account (next value)) : Account (first >>= next) :=
  account.startingWith
    (fun result after => match result with
      | .error _ => []
      | .ok value => (accountNext value).draws after)
    fun generator => by
      rw [bind_apply]
      rcases first generator with ⟨failure | value, after⟩
      · exact .nil
      · exact (accountNext value).drawn after

/-- An action that leaves the same rules as another one draws the same. -/
def like {action : Action α} {other : Action β} (account : Account other)
    (h : ∀ generator, (action generator).2.store = (other generator).2.store) : Account action where
  draws := account.draws
  drawn generator := by
    rw [h generator]
    exact account.drawn generator

def expandText (keepContext : Bool) (text : String) :
    Account (Generator.expandText keepContext text : Action String) where
  draws generator := (generator.events keepContext text).filterMap Event.draw?
  drawn generator := by
    have hstart : (generator.starting keepContext).store = generator.store := by
      cases keepContext with
      | true => rfl
      | false => rfl
    rw [← hstart]
    exact Engine.drawn_expandWithin

def parseText (keepContext : Bool) (prompt : Prompt) :
    Account (Generator.parseText keepContext prompt : Action Value) :=
  (expandText keepContext prompt.text).like fun _ => rfl

def parse (text : Datum) (keepContext : Bool) : Account (Generator.parse text keepContext) :=
  (check _).andThen fun prompt => parseText keepContext prompt

def parseReported (text : Datum) (keepContext : Bool) :
    Account (Generator.parseReported text keepContext) :=
  (parse text keepContext).andThen fun _ => check _

def parseEach (keepContext : Bool) : (isFirst : Bool) → (texts : List Datum) →
    Account (Generator.parseEach keepContext isFirst texts)
  | _, [] => nothing fun _ => rfl
  | isFirst, text :: rest =>
    (parse text (keepContext && !isFirst)).andThen fun _ =>
      (parseEach keepContext false rest).andThen fun _ => nothing fun _ => rfl

def parseAll (texts : Datum) (keepContext : Bool) :
    Account (Generator.parseAll texts keepContext) :=
  (check _).andThen fun items => parseEach keepContext true items

/-- After a failed attempt the next one draws, if there is one. -/
def retryDraws (next : Failure → Generator → List (String × String)) (result : Except Failure Value)
    (after : Generator) : List (String × String) :=
  match result with
  | .ok _ => []
  | .error failure =>
    if failure.isGrammarFailure then
      match after.afterFailure failure with
      | .error _ => []
      | .ok current => next failure current
    else []

theorem store_afterFailure {failure : Failure} {generator next : Generator}
    (h : generator.afterFailure failure = .ok next) : next.store = generator.store := by
  rcases afterFailure_eq_ok h with ⟨_, _, -, -, rfl⟩ | ⟨-, rfl⟩
  · rfl
  · rfl

theorem drawn_retryDraws {options : Tolerance} {prompt : Prompt} {left : Nat} {number : Int}
    (account : ∀ last,
      Account (Generator.attempts options prompt left (number + 1) last : Action TolerantResult))
    (last : Failure) (generator : Generator) :
    Drawn (generator.parseText options.preserveContext prompt).2.store
      (retryDraws (fun failure => (account failure).draws)
        (generator.parseText options.preserveContext prompt).1
        (generator.parseText options.preserveContext prompt).2)
      (Generator.attempts options prompt (left + 1) number last generator).2.store := by
  rcases hrun : generator.parseText options.preserveContext prompt with ⟨failure | value, after⟩
  · simp only [retryDraws]
    split
    · rename_i hfailure
      rw [attempts_succ_of_grammar hfailure hrun]
      cases hnext : after.afterFailure failure with
      | error fault => exact .nil
      | ok next =>
        rw [← store_afterFailure hnext]
        exact (account failure).drawn next
    · rename_i hfailure
      rw [attempts_succ_of_foreign (Bool.eq_false_iff.2 hfailure) hrun]
      exact .nil
  · rw [attempts_succ_of_ok hrun]
    exact .nil

def attempts (options : Tolerance) (prompt : Prompt) : (left : Nat) → (number : Int) →
    (last : Failure) →
    Account (Generator.attempts options prompt left number last : Action TolerantResult)
  | 0, _, _ => nothing fun _ => rfl
  | left + 1, number, last =>
    (parseText options.preserveContext prompt).startingWith
      (retryDraws fun failure => (attempts options prompt left (number + 1) failure).draws)
      (drawn_retryDraws (fun failure => attempts options prompt left (number + 1) failure) last)

theorem store_givingUp (result : TolerantResult) (generator : Generator) :
    (givingUp result generator).store = generator.store := by
  simp only [givingUp]
  split
  · rfl
  · rfl

theorem store_settled (depth : Int) (result : Except Failure TolerantResult)
    (generator : Generator) : (settled depth result generator).store = generator.store := by
  cases result with
  | error failure => rfl
  | ok result => exact store_givingUp result _

instance (options : Tolerance) (generator : Generator) : Decidable (Admits options generator) :=
  inferInstanceAs (Decidable (_ → _))

/-- With options that do not admit the rules nothing is drawn. -/
def toleratedDraws (text : Datum) (options : Tolerance) (generator : Generator) :
    List (String × String) :=
  match checkText text with
  | .error _ => []
  | .ok prompt =>
    if Admits options generator then
      (attempts options prompt options.maxAttempts.toNat 1 (.grammar "")).draws generator
    else []

theorem drawn_toleratedDraws (text : Datum) (options : Tolerance) (generator : Generator) :
    Drawn generator.store (toleratedDraws text options generator)
      (Generator.parseTolerantly text (some options) generator).2.store := by
  cases htext : checkText text with
  | error failure =>
    rw [toleratedDraws, parseTolerantly, check_bind, htext]
    exact .nil
  | ok prompt =>
    rw [toleratedDraws, htext]
    dsimp only
    by_cases hadmits : Admits options generator
    · rw [if_pos hadmits, parseTolerantly_of_admits htext hadmits, store_settled]
      exact (attempts options prompt options.maxAttempts.toNat 1 (.grammar "")).drawn generator
    · rw [if_neg hadmits, parseTolerantly_of_not_admits htext hadmits]
      exact .nil

/-- Without options, the settings say how many attempts there are. -/
def parseTolerantly (text : Datum) :
    (options : Option Tolerance) → Account (Generator.parseTolerantly text options)
  | some options => { draws := toleratedDraws text options, drawn := drawn_toleratedDraws text options }
  | none => {
    draws := fun generator =>
      match attemptCount generator.retry.maxAttempts >>=
        fun maxAttempts => checkOptions { maxAttempts } with
      | .error _ => []
      | .ok options => toleratedDraws text options generator
    drawn := fun generator => by
      rw [parseTolerantly_none]
      cases htext : checkText text with
      | error failure =>
        simp only [toleratedDraws, htext]
        split
        · exact .nil
        · exact .nil
      | ok prompt =>
        cases attemptCount generator.retry.maxAttempts >>=
          fun maxAttempts => checkOptions { maxAttempts } with
        | error failure => exact .nil
        | ok options => exact drawn_toleratedDraws text options generator }

def parseWith (text options : Datum) : Account (Generator.parseWith text options) :=
  (check _).andThen fun _ => (check _).andThen fun options => parseTolerantly text options

/-- Before a variation the source gets the seed of that variation, if seeds are given. -/
def reseed (seed : Datum) (offset : Nat) : Action Unit :=
  match seed with
  | .nothing => pure ()
  | seed => do
    let seed ← Generator.check (variationSeed seed offset)
    modify fun generator => generator.withSource (generator.source.seedWith seed)

theorem reseed_keeps_store (seed : Datum) (offset : Nat) :
    Keeps Generator.store (reseed seed offset) := by
  unfold reseed
  split
  · exact Keeps.pure ()
  · exact (check_keeps _).bind fun _ _ => rfl

theorem variationsFrom_succ_eq (prompt : Prompt) (seed : Datum) (offset left : Nat) :
    Generator.variationsFrom prompt seed offset (left + 1) = do
      reseed seed offset
      let result ← (Generator.parseText false prompt : Action Value)
      return result :: (← Generator.variationsFrom prompt seed (offset + 1) left) := by
  cases seed with
  | nothing => rfl
  | _ => simp only [Generator.variationsFrom, reseed, bind_assoc]

def variationsFrom (prompt : Prompt) (seed : Datum) : (offset left : Nat) →
    Account (Generator.variationsFrom prompt seed offset left)
  | _, 0 => nothing fun _ => rfl
  | offset, left + 1 =>
    ((nothing (reseed_keeps_store seed offset)).andThen fun _ =>
      (parseText false prompt).andThen fun _ =>
        (variationsFrom prompt seed (offset + 1) left).andThen fun _ => nothing fun _ => rfl).like
      fun generator => by rw [variationsFrom_succ_eq]

theorem store_restoreSeed (seed : Option (Fin stateCount)) (generator : Generator) :
    (generator.restoreSeed seed).store = generator.store := by
  cases seed with
  | none => rfl
  | some seed => rfl

def variedDraws (text count seed : Datum) (generator : Generator) : List (String × String) :=
  match checkText text, count.plainInteger? with
  | .ok prompt, some number =>
    if number < 1 then [] else (variationsFrom prompt seed 0 number.toNat).draws generator
  | _, _ => []

theorem drawn_variedDraws (text count seed : Datum) (generator : Generator) :
    Drawn generator.store (variedDraws text count seed generator)
      (Generator.variations text count seed generator).2.store := by
  rw [Generator.variations, check_bind, variedDraws]
  cases checkText text with
  | error failure => exact .nil
  | ok prompt =>
    dsimp only
    cases count.plainInteger? with
    | none => exact .nil
    | some number =>
      dsimp only
      split
      · exact .nil
      · have hvariations := (variationsFrom prompt seed 0 number.toNat).drawn generator
        rw [get_bind]
        rcases hrun : Generator.variationsFrom prompt seed 0 number.toNat generator
          with ⟨result, after⟩
        rw [hrun] at hvariations
        have hrestored := store_restoreSeed generator.source.seed after
        cases result with
        | error failure => exact hrestored ▸ hvariations
        | ok results => exact hrestored ▸ hvariations

def variations (text count seed : Datum) : Account (Generator.variations text count seed) where
  draws := variedDraws text count seed
  drawn := drawn_variedDraws text count seed

def expand (text : Datum) : (keepContext : Bool) → Account (Generator.expand text keepContext)
  | true => (check text.searched).andThen fun text => expandText true text
  | false => (nothing (fun _ => rfl : Keeps Generator.store (modify forgetContext))).andThen fun _ =>
    (check text.searched).andThen fun text => expandText false text

/-- A value that is drawn by itself. -/
def resolved (name : Datum) (key : String) (scope : Scope) :
    Account (fun generator =>
      let (result, store, source) :=
        generator.store.drawShown name.display key scope generator.source
      (result, (generator.withStore store).withSource source) : Action (Option String)) where
  draws generator :=
    match (generator.store.drawShown name.display key scope generator.source).1 with
    | .ok (some value) => [(key, value)]
    | _ => []
  drawn generator := by
    rcases hdraw : generator.store.drawShown name.display key scope generator.source
      with ⟨failure | _ | value, store, source⟩
    · exact .silent hdraw (by simp) .nil
    · exact .silent hdraw (by simp) .nil
    · exact .gave hdraw .nil

def resolve (name : Datum) (scope : Scope) : Account (Generator.resolve name scope) :=
  (check name.name?).andThen fun key => match key with
    | none => nothing fun _ => rfl
    | some key => resolved name key scope

end Account

end Generator

end TextGrammar
