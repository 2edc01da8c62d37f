import TextGrammar.Text.Pieces

/-! Occurrences as contiguous parts of a text, which a character of none of them keeps apart. -/
namespace TextGrammar

variable {pattern marker front text piece : List Char} {c : Char}

theorem occursIn_iff_isInfix : occursIn pattern text = true ↔ pattern <:+: text := by
  induction text with
  | nil => rw [occursIn, List.isEmpty_iff, List.infix_nil]
  | cons c text ih =>
    rw [occursIn, Bool.or_eq_true, List.isPrefixOf_iff_prefix, ih, List.infix_cons_iff]

/-- An occurrence lies on one side of a character that is none of its own. -/
theorem isInfix_append_cons_iff (hc : c ∉ pattern) :
    pattern <:+: front ++ c :: text ↔ pattern <:+: front ∨ pattern <:+: text := by
  have hlead (part : List Char) (h : part <+: c :: text) (hpart : c ∉ part) : part = [] := by
    cases part with
    | nil => rfl
    | cons d part =>
      obtain ⟨rfl, -⟩ := List.cons_prefix_cons.1 h
      exact (hpart List.mem_cons_self).elim
  constructor
  · intro h
    rcases List.infix_append_iff.1 h with hfront | hrest | ⟨before, after, rfl, hsuffix, hafter⟩
    · exact .inl hfront
    · rcases List.infix_cons_iff.1 hrest with hstart | htext
      · rw [hlead pattern hstart hc]
        exact .inl List.nil_infix
      · exact .inr htext
    · rw [hlead after hafter fun hmem => hc (List.mem_append_right _ hmem), List.append_nil]
      exact .inl hsuffix.isInfix
  · rintro (hfront | htext)
    · exact List.infix_append_of_infix_left hfront
    · exact List.infix_append_of_infix_right (List.infix_cons htext)

theorem prefix_of_mem_head?_pieces {skip : Nat}
    (h : piece ∈ (piecesFrom marker skip text).head?) : piece <+: text.drop skip := by
  fun_induction piecesFrom marker skip text generalizing piece with
  | case1 =>
    cases h
    exact List.nil_prefix
  | case2 skip c text ih => exact ih h
  | case3 c text _ _ =>
    cases h
    exact List.nil_prefix
  | case4 c text _ ih =>
    have hne : piecesFrom marker 0 text ≠ [] := piecesFrom_ne_nil 0 text
    obtain ⟨first, rest, hpieces⟩ := List.exists_cons_of_ne_nil hne
    rw [hpieces] at h ih
    cases h
    exact List.cons_prefix_cons.2 ⟨rfl, ih rfl⟩

theorem not_isInfix_of_mem_piecesFrom {skip : Nat} (hmarker : marker ≠ [])
    (h : piece ∈ piecesFrom marker skip text) : ¬marker <:+: piece := by
  fun_induction piecesFrom marker skip text generalizing piece with
  | case1 =>
    rw [List.mem_singleton.1 h, List.infix_nil]
    exact hmarker
  | case2 skip c text ih => exact ih h
  | case3 c text _ ih =>
    rcases List.mem_cons.1 h with rfl | hmem
    · rw [List.infix_nil]
      exact hmarker
    · exact ih hmem
  | case4 c text hstart ih =>
    have hne : piecesFrom marker 0 text ≠ [] := piecesFrom_ne_nil 0 text
    obtain ⟨first, rest, hpieces⟩ := List.exists_cons_of_ne_nil hne
    rw [hpieces] at h ih
    rcases List.mem_cons.1 h with rfl | hmem
    · intro hinside
      rcases List.infix_cons_iff.1 hinside with hlead | hinside
      · have hhead : first ∈ (piecesFrom marker 0 text).head? := by
          rw [hpieces]
          rfl
        have hfirst : first <+: text := prefix_of_mem_head?_pieces hhead
        have htext := hlead.trans (List.cons_prefix_cons.2 ⟨rfl, hfirst⟩)
        exact hstart (List.isPrefixOf_iff_prefix.2 htext)
      · exact ih List.mem_cons_self hinside
    · exact ih (List.mem_cons_of_mem _ hmem)

/-- A text is cut at every occurrence of the marker, so that none is left within a piece. -/
theorem not_isInfix_of_mem_pieces (hmarker : marker ≠ []) (h : piece ∈ pieces marker text) :
    ¬marker <:+: piece :=
  not_isInfix_of_mem_piecesFrom hmarker h

end TextGrammar
