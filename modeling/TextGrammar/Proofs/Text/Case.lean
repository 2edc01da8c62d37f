import Mathlib.Tactic.SplitIfs
import TextGrammar.Proofs.Text.Classes

/-! Small letters and their capitals. -/
namespace TextGrammar

variable {c : Char} {word : List Char}

theorem toNat_upperChar (h : isLower c = true) : (upperChar c).toNat = c.toNat - 32 := by
  have hrange := isLower_iff.1 h
  rw [upperChar, if_pos h]
  exact toNat_ofNat (.inl (by omega))

theorem isUpper_upperChar (h : isLower c = true) : isUpper (upperChar c) = true := by
  have hrange := isLower_iff.1 h
  rw [isUpper_iff, toNat_upperChar h]
  omega

theorem isLower_of_isUpper (h : isUpper c = true) : isLower c = false := by
  have hrange := isUpper_iff.1 h
  refine Bool.eq_false_iff.2 fun hlower => ?_
  have hlow := isLower_iff.1 hlower
  omega

theorem lowerChar_of_isLower (h : isLower c = true) : lowerChar c = [c] := by
  have hupper : isUpper c ≠ true := fun hupper => by
    rw [isLower_of_isUpper hupper] at h
    cases h
  rw [lowerChar, if_neg hupper]
  split_ifs with hk hi
  · subst hk
    cases h
  · subst hi
    cases h
  · rfl

theorem lowerChar_upperChar (h : isLower c = true) : lowerChar (upperChar c) = [c] := by
  have hrange := isLower_iff.1 h
  have hback : c.toNat - 32 + 32 = c.toNat := by omega
  rw [lowerChar, if_pos (isUpper_upperChar h), toNat_upperChar h, hback, Char.ofNat_toNat]

theorem lowerText_append (front text : List Char) :
    lowerText (front ++ text) = lowerText front ++ lowerText text :=
  List.flatMap_append

theorem lowerChar_ne_nil (c : Char) : lowerChar c ≠ [] := by
  unfold lowerChar
  split_ifs <;> exact List.cons_ne_nil _ _

theorem length_le_length_lowerText (text : List Char) : text.length ≤ (lowerText text).length := by
  induction text with
  | nil => exact Nat.le_refl 0
  | cons c text ih =>
    have hpos := List.length_pos_iff.2 (lowerChar_ne_nil c)
    rw [lowerText, List.flatMap_cons, List.length_append, List.length_cons]
    rw [lowerText] at ih
    omega

theorem getLast?_lowerText (front : List Char) (c : Char) :
    (lowerText (front ++ [c])).getLast? = (lowerChar c).getLast? := by
  have hsingle : lowerText [c] = lowerChar c := List.append_nil _
  rw [lowerText_append, hsingle, List.getLast?_append_of_ne_nil _ (lowerChar_ne_nil c)]

theorem lowerText_of_isLower (h : ∀ c ∈ word, isLower c = true) : lowerText word = word := by
  induction word with
  | nil => rfl
  | cons c word ih =>
    obtain ⟨hc, hword⟩ := List.forall_mem_cons.1 h
    rw [lowerText, List.flatMap_cons, lowerChar_of_isLower hc]
    exact congrArg (c :: ·) (ih hword)

theorem lowerText_map_upperChar (h : ∀ c ∈ word, isLower c = true) :
    lowerText (word.map upperChar) = word := by
  induction word with
  | nil => rfl
  | cons c word ih =>
    obtain ⟨hc, hword⟩ := List.forall_mem_cons.1 h
    rw [List.map_cons, lowerText, List.flatMap_cons, lowerChar_upperChar hc]
    exact congrArg (c :: ·) (ih hword)

end TextGrammar
