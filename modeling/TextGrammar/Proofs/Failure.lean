import TextGrammar.Data.Operations
import TextGrammar.Proofs.Result

/-! Failures that are none of the engine itself: those of operations on unchecked data. -/
namespace TextGrammar

/-- A computation that fails, if at all, with a failure that is none of the engine itself. -/
def IsForeign {α : Type} (result : Except Failure α) : Prop :=
  ∀ failure, result = .error failure → failure.isGrammarFailure = false

namespace IsForeign

variable {ε α β : Type}

theorem ok (value : α) : IsForeign (.ok value) := by
  intro failure h
  cases h

theorem error {failure : Failure} (h : failure.isGrammarFailure = false) :
    IsForeign (.error failure : Except Failure α) := by
  rintro _ ⟨⟩
  exact h

theorem bind {first : Except Failure α} {next : α → Except Failure β} (h : IsForeign first)
    (hnext : ∀ value, IsForeign (next value)) : IsForeign (first >>= next) := by
  intro failure hfailure
  rcases bind_eq_error.1 hfailure with hfirst | ⟨value, -, hvalue⟩
  · exact h failure hfirst
  · exact hnext value failure hvalue

theorem mapError {f : ε → Failure} (h : ∀ fault, (f fault).isGrammarFailure = false)
    (result : Except ε α) : IsForeign (result.mapError f) := by
  intro failure hfailure
  obtain ⟨fault, -, rfl⟩ := mapError_eq_error.1 hfailure
  exact h fault

theorem map {result : Except Failure α} (h : IsForeign result) (f : α → β) :
    IsForeign (f <$> result) := by
  rw [map_eq_pure_bind]
  exact h.bind fun value => .ok (f value)

end IsForeign

theorem isForeign_integerOfText (text : String) : IsForeign (integerOfText text) := by
  unfold integerOfText
  split
  · exact .ok _
  · exact .error rfl
  · exact .error rfl

namespace Data

variable {φ μ : Type}

theorem isForeign_integerOfBytes (value : List UInt8) : IsForeign (integerOfBytes value) := by
  simp only [integerOfBytes]
  split
  · exact .error rfl
  · exact .error rfl
  · exact .ok _

theorem isForeign_toInteger (data : Data φ μ) : IsForeign data.toInteger := by
  unfold toInteger
  split
  · exact .ok _
  · exact .mapError (fun _ => rfl) _
  · exact isForeign_integerOfText _
  · exact isForeign_integerOfBytes _
  · exact .error rfl
  · exact .error rfl

theorem isForeign_checkRepeat {tooLong : Failure} (h : tooLong.isGrammarFailure = false)
    (count : Int) (items size : Nat) : IsForeign (checkRepeat count items size tooLong) := by
  unfold checkRepeat
  split
  · exact .error rfl
  · split
    · exact .error h
    · split
      · exact .error rfl
      · exact .ok ()

theorem isForeign_integerOfCopies {α : Type} {read : List α → Except Failure Int}
    (h : ∀ items, IsForeign (read items)) (isOfDigits : α → Bool) (count : Nat) (items : List α) :
    IsForeign (integerOfCopies read isOfDigits count items) := by
  unfold integerOfCopies
  dsimp only
  split
  · exact .error rfl
  · exact h _

theorem isForeign_timesToInteger (count : Int) (data : Data φ μ) :
    IsForeign (timesToInteger count data) := by
  unfold timesToInteger
  split
  · exact (IsForeign.mapError (fun _ => rfl) _).bind fun _ => isForeign_toInteger _
  · refine (isForeign_checkRepeat rfl _ _ _).bind fun _ => ?_
    exact isForeign_integerOfCopies (fun _ => isForeign_integerOfText _) _ _ _
  · refine (isForeign_checkRepeat rfl _ _ _).bind fun _ => ?_
    exact isForeign_integerOfCopies isForeign_integerOfBytes _ _ _
  · exact (isForeign_checkRepeat rfl _ _ _).bind fun _ => .error rfl
  · exact (isForeign_checkRepeat rfl _ _ _).bind fun _ => .error rfl
  · exact .error rfl

theorem isForeign_limit (relation : String) (data : Data φ μ) : IsForeign (data.limit relation) := by
  unfold limit
  split
  · exact .ok _
  · exact .ok _
  · exact .error rfl

end Data

end TextGrammar
