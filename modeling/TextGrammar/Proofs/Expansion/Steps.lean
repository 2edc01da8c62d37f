import TextGrammar.Expansion
import TextGrammar.Proofs.Result

/-! Expansion as a computation that moves the engine on and can fail, made up of its steps. -/
namespace TextGrammar.Engine

abbrev Computation := ExceptT Failure (StateM Engine)

def computation (run : Engine → Expanded) : Computation String := run

/-- A raw value for a name, or nothing if there is none. -/
def drawn (name : String) : Computation (Option String) := fun engine =>
  match engine.store.draw name (.run engine.context) engine.source with
  | (value, store, source) => (value, { engine with store, source })

/-- Puts a value into the context, where it is replayed from. -/
def noted (name value : String) : Computation Unit := fun engine =>
  (.ok (), { engine with context := engine.context.put name value })

/-- The value that a name has in the context, or its token. -/
def replayed (name : String) : Computation String := fun engine =>
  (.ok ((engine.context.get? (referent name)).getD (Segment.tokenText name)), engine)

variable (inner : String → Engine → Expanded) (rest : List Segment)

theorem expandToken_replay {name : String} (h : isReplay name = true) :
    computation (expandToken inner name) = replayed name := by
  funext engine
  simp only [computation, expandToken, h, if_true]
  rfl

theorem expandToken_draw {name : String} (h : isReplay name = false) :
    computation (expandToken inner name) = do
      match ← drawn name with
      | none => return Segment.tokenText name
      | some value =>
        noted name value
        let text ← computation (inner value)
        noted name text
        return text := by
  funext engine
  rw [bind_apply]
  simp only [computation, expandToken, drawn, h]
  rcases engine.store.draw name (.run engine.context) engine.source
    with ⟨failure | _ | value, store, source⟩
  · rfl
  · rfl
  · simp only [bind_apply, noted]
    rcases inner value { store, source, context := engine.context.put name value }
      with ⟨failure | text, after⟩
    · rfl
    · rfl

theorem expandSegments_literal (text : String) :
    computation (expandSegments inner (.literal text :: rest)) = do
      let tail ← computation (expandSegments inner rest)
      return text ++ tail := by
  funext engine
  rw [bind_apply]
  simp only [computation, expandSegments]
  rcases expandSegments inner rest engine with ⟨failure | tail, after⟩
  · rfl
  · rfl

theorem expandSegments_token (name : String) :
    computation (expandSegments inner (.token name :: rest)) = do
      let value ← computation (expandToken inner name)
      let tail ← computation (expandSegments inner rest)
      return value ++ tail := by
  funext engine
  rw [bind_apply]
  simp only [computation, expandSegments]
  rcases expandToken inner name engine with ⟨failure | value, after⟩
  · rfl
  · simp only [bind_apply]
    rcases expandSegments inner rest after with ⟨failure | tail, last⟩
    · rfl
    · rfl

/-- What is seen of an engine stays the same in a draw, and does not depend on the context. -/
structure IsKept {γ : Type} (see : Engine → γ) : Prop where
  drawn (name : String) : Keeps see (drawn name)
  context (engine : Engine) (context : Context) : see { engine with context } = see engine

variable {inner rest} {γ : Type} {see : Engine → γ}

theorem noted_keeps (h : IsKept see) (name value : String) : Keeps see (noted name value) := by
  intro engine
  exact h.context engine _

theorem replayed_keeps (name : String) : Keeps see (replayed name) := by
  intro engine
  rfl

theorem expandToken_keeps (h : IsKept see)
    (hinner : ∀ value, Keeps see (computation (inner value))) (name : String) :
    Keeps see (computation (expandToken inner name)) := by
  cases hreplay : isReplay name with
  | true =>
    rw [expandToken_replay inner hreplay]
    exact replayed_keeps name
  | false =>
    rw [expandToken_draw inner hreplay]
    refine (h.drawn name).bind ?_
    rintro (_ | value)
    · exact Keeps.pure _
    · refine (noted_keeps h name value).bind fun _ => (hinner value).bind fun text => ?_
      exact (noted_keeps h name text).bind fun _ => Keeps.pure text

theorem expandSegments_keeps (h : IsKept see)
    (hinner : ∀ value, Keeps see (computation (inner value))) (segments : List Segment) :
    Keeps see (computation (expandSegments inner segments)) := by
  induction segments with
  | nil => exact Keeps.pure ""
  | cons segment rest ih =>
    cases segment with
    | literal text =>
      rw [expandSegments_literal]
      exact ih.bind fun _ => Keeps.pure _
    | token name =>
      rw [expandSegments_token]
      exact (expandToken_keeps h hinner name).bind fun _ => ih.bind fun _ => Keeps.pure _

theorem expandWithin_keeps (h : IsKept see) (limit : Int) (room : Nat) (text : String) :
    Keeps see (computation (expandWithin limit room text)) := by
  induction room generalizing text with
  | zero =>
    intro engine
    rfl
  | succ room ih => exact expandSegments_keeps h ih (Segment.split text)

theorem expand_keeps (h : IsKept see) (stackRoom : Nat) (limit : Int) (keepContext : Bool)
    (text : String) : Keeps see (computation (expand stackRoom limit keepContext text)) := by
  intro engine
  have hstart : see (if keepContext = true then engine else { engine with context := ∅ }) =
      see engine := by
    split
    · rfl
    · exact h.context engine ∅
  exact (expandWithin_keeps h limit _ text _).trans hstart

end TextGrammar.Engine
