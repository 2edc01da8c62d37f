import Mathlib.Tactic.SplitIfs
import TextGrammar.English.Possessive
import TextGrammar.Proofs.Text.Occurrence

/-! Possessives: no marker is left, not even by the join, and nothing but markers is lost. -/
namespace TextGrammar.English

variable {piece rest text : List Char} {all : List (List Char)}

theorem not_mem_ownerMarker {c : Char} (h : isWord c = false) : c ∉ ownerMarker := by
  have hall : ∀ c ∈ ownerMarker, isWord c = true := List.all_eq_true.1 (by decide)
  intro hmem
  rw [hall c hmem] at h
  cases h

/-- The ending of a piece keeps a marker from arising where the next piece is joined to it. -/
theorem not_isInfix_possessive (hpiece : ¬ownerMarker <:+: piece) (hrest : ¬ownerMarker <:+: rest) :
    ¬ownerMarker <:+: possessive piece ++ rest := by
  have hapostrophe : '\'' ∉ ownerMarker := by decide
  have hs : 's' ∉ ownerMarker := by decide
  have hnil : ¬ownerMarker <:+: [] := by decide
  unfold possessive
  split
  · rename_i hlast
    rw [List.getLast?_eq_none_iff.1 hlast]
    exact hrest
  · rename_i c hlast
    split_ifs with hword hplain
    · obtain ⟨front, rfl⟩ := List.getLast?_eq_some_iff.1 hlast
      have hc : c ∉ ownerMarker := not_mem_ownerMarker (by simpa using hword)
      rw [List.append_assoc, List.singleton_append, isInfix_append_cons_iff hc]
      exact not_or.2 ⟨fun h => hpiece (List.infix_append_of_infix_left h), hrest⟩
    · rw [List.append_assoc, List.singleton_append, isInfix_append_cons_iff hapostrophe]
      exact not_or.2 ⟨hpiece, hrest⟩
    · have hending : ¬ownerMarker <:+: 's' :: rest := by
        rw [← List.nil_append ('s' :: rest), isInfix_append_cons_iff hs]
        exact not_or.2 ⟨hnil, hrest⟩
      rw [List.append_assoc]
      change ¬ownerMarker <:+: piece ++ '\'' :: 's' :: rest
      rw [isInfix_append_cons_iff hapostrophe]
      exact not_or.2 ⟨hpiece, hending⟩

theorem not_isInfix_joinPossessives (h : ∀ piece ∈ all, ¬ownerMarker <:+: piece) :
    ¬ownerMarker <:+: joinPossessives all := by
  fun_induction joinPossessives all with
  | case1 => decide
  | case2 last => exact h last List.mem_cons_self
  | case3 piece rest _ ih =>
    obtain ⟨hpiece, hrest⟩ := List.forall_mem_cons.1 h
    exact not_isInfix_possessive hpiece (ih hrest)

theorem not_isInfix_withPossessives (text : List Char) :
    ¬ownerMarker <:+: withPossessives text :=
  not_isInfix_joinPossessives fun _ => not_isInfix_of_mem_pieces (by decide)

theorem prefix_possessive (piece : List Char) : piece <+: possessive piece := by
  unfold possessive
  split
  · exact List.prefix_rfl
  · split_ifs
    · exact List.prefix_rfl
    · exact List.prefix_append _ _
    · exact List.prefix_append _ _

/-- Nothing of the pieces is lost. -/
theorem flatten_sublist_joinPossessives (all : List (List Char)) :
    all.flatten.Sublist (joinPossessives all) := by
  fun_induction joinPossessives all with
  | case1 => exact .slnil
  | case2 last => simp only [List.flatten_singleton, List.Sublist.refl]
  | case3 piece rest _ ih =>
    rw [List.flatten_cons]
    exact (prefix_possessive piece).sublist.append ih

theorem withPossessives_eq_self (h : ¬ownerMarker <:+: text) : withPossessives text = text := by
  have hnone : occursIn ownerMarker text = false :=
    Bool.eq_false_iff.2 fun hoccurs => h (occursIn_iff_isInfix.1 hoccurs)
  rw [withPossessives, pieces_of_not_occursIn hnone, joinPossessives]

end TextGrammar.English
