import TextGrammar.Proofs.Rule.Accepted

/-! The weights of a rule that was let through: finite, and they do not all vanish. -/
namespace TextGrammar

/-- A rule without infinite weights; only weighted rules have weights at all. -/
def Rule.HasFiniteWeights : Rule → Prop
  | .weighted rule => ∀ weight ∈ rule.weights, weight.isFinite = true
  | _ => True

def Store.HasFiniteWeights (store : Store) : Prop :=
  ∀ entry ∈ store.entries, entry.rule.HasFiniteWeights

theorem Store.hasFiniteWeights_of_rule? {store : Store} {name : String} {rule : Rule}
    (h : store.HasFiniteWeights) (hr : store.rule? name = some rule) : rule.HasFiniteWeights := by
  obtain ⟨entry, hmem, -, rfl⟩ := Store.exists_entry_of_rule? hr
  exact h entry hmem

/-- A single weight may still be infinite, but not below zero. -/
theorem finite_or_infinite_of_checkWeight {weight : Datum} {x : Double}
    (h : checkWeight weight = .ok x) : x.isFinite = true ∨ x = .infinite false := by
  simp only [checkWeight] at h
  split at h
  · cases h
  · rename_i amount _
    split at h
    · cases h
    · rename_i hlt
      split at h
      · cases h
      · rename_i y hy
        split at h
        · cases h
        · rename_i hnan
          cases h
          cases amount with
          | whole n => exact Or.inl (Double.eq_of_ofInt?_eq_ok hy).2
          | real z =>
            cases hy
            cases x with
            | nan => exact absurd rfl hnan
            | finite => exact Or.inl rfl
            | infinite negative =>
              cases negative with
              | false => exact Or.inr rfl
              | true => exact absurd rfl hlt

theorem Double.foldl_add_infinite {terms : List Double} (h : ∀ x ∈ terms, x = infinite false) :
    terms.foldl add (infinite false) = infinite false := by
  induction terms with
  | nil => rfl
  | cons x rest ih =>
    obtain ⟨rfl, hrest⟩ := List.forall_mem_cons.1 h
    exact ih hrest

/-- An infinite weight makes the total infinite, which is too far from one. -/
theorem finite_of_checkTotal {weights : List Double}
    (h : ∀ x ∈ weights, x.isFinite = true ∨ x = .infinite false)
    (hc : checkTotal weights = .ok ()) : ∀ x ∈ weights, x.isFinite = true := by
  by_contra hinfinite
  obtain ⟨x, hx, hxf⟩ := not_forall₂.1 hinfinite
  have hall : weights.all Double.isFinite = false := by
    rw [List.all_eq_false]
    exact ⟨x, hx, hxf⟩
  have hrest : ∀ y ∈ weights.filter (!·.isFinite), y = .infinite false := by
    intro y hy
    obtain ⟨hmem, hnot⟩ := List.mem_filter.1 hy
    rcases h y hmem with hf | hi
    · simp [hf] at hnot
    · exact hi
  have hsum : (weights.filter (!·.isFinite)).foldl Double.add 0 = .infinite false := by
    cases hl : weights.filter (!·.isFinite) with
    | nil =>
      have hm : x ∈ weights.filter (!·.isFinite) := List.mem_filter.2 ⟨hx, by simpa using hxf⟩
      simp [hl] at hm
    | cons y rest =>
      rw [hl] at hrest
      obtain ⟨rfl, hinf⟩ := List.forall_mem_cons.1 hrest
      exact Double.foldl_add_infinite hinf
  simp only [checkTotal] at hc
  split at hc
  · cases hc
  · rename_i sum hs
    obtain ⟨_, -, hs⟩ := bind_eq_ok.1 hs
    rw [hall, hsum] at hs
    cases pure_eq_ok.1 hs
    cases hc

theorem Rule.Weighted.hasFiniteWeights_of_define {values weights : Datum} {rule : Rule.Weighted}
    (h : Rule.Weighted.define values weights = .ok rule) :
    (Rule.weighted rule).HasFiniteWeights := by
  obtain ⟨texts, -, h⟩ := bind_eq_ok.1 h
  dsimp only at h
  split at h
  · split at h
    · cases h
    · obtain ⟨numbers, hn, h⟩ := bind_eq_ok.1 h
      obtain ⟨⟨⟩, hc, h⟩ := bind_eq_ok.1 h
      rw [← pure_eq_ok.1 h]
      refine finite_of_checkTotal ?_ hc
      intro x hx
      obtain ⟨datum, -, hd⟩ := (mapM_eq_ok hn).2 x hx
      exact finite_or_infinite_of_checkWeight hd
  · cases h

theorem Double.eq_zero_of_toRat_eq_zero {negative : Bool} {significand : ℕ} {exponent : ℤ}
    (h : (finite negative significand exponent).toRat = 0) : significand = 0 := by
  have hp : (2 : ℚ) ^ exponent ≠ 0 := by positivity
  cases negative <;> simpa [hp] using h

/-- Weights without value add up to zero without any rounding. -/
theorem Double.roundedSum_eq_zero {terms : List Double} (h : ∀ x ∈ terms, x.toRat = 0) :
    roundedSum terms = finite false 0 (-1074) := by
  have hfixed {f : ℤ → Double → ℤ} (hstep : ∀ x ∈ terms, f 0 x = 0) : terms.foldl f 0 = 0 := by
    clear h
    induction terms with
    | nil => rfl
    | cons x rest ih =>
      obtain ⟨hx, hrest⟩ := List.forall_mem_cons.1 hstep
      rw [List.foldl_cons, hx]
      exact ih hrest
  refine (congrArg (fun sum : ℤ => ofScaled (decide (sum < 0)) sum.natAbs _) (hfixed ?_)).trans rfl
  intro x hx
  have hzero := h x hx
  cases x with
  | nan => rfl
  | infinite => rfl
  | finite s m e =>
    obtain rfl := eq_zero_of_toRat_eq_zero hzero
    cases s <;> simp [aligned, signed]

/-- Weights that are let through have a positive total. -/
theorem Rule.Weighted.total_pos {rule : Rule.Weighted} (ha : (Rule.weighted rule).Accepted)
    (hf : (Rule.weighted rule).HasFiniteWeights) : 0 < (rule.weights.map Double.toRat).sum := by
  obtain ⟨-, -, hw, hc⟩ := ha
  have hnonneg : ∀ q ∈ rule.weights.map Double.toRat, 0 ≤ q := by
    intro q hq
    obtain ⟨x, hx, rfl⟩ := List.mem_map.1 hq
    exact (hw x hx).1
  refine lt_of_le_of_ne (List.sum_nonneg hnonneg) ?_
  intro hzero
  have hall : ∀ x ∈ rule.weights, x.toRat = 0 := by
    intro x hx
    have hle := List.single_le_sum hnonneg x.toRat (List.mem_map_of_mem hx)
    have hge := hnonneg x.toRat (List.mem_map_of_mem hx)
    linarith
  simp only [checkTotal] at hc
  split at hc
  · cases hc
  · rename_i sum hs
    obtain ⟨_, -, hs⟩ := bind_eq_ok.1 hs
    rw [if_pos (List.all_eq_true.2 hf), Double.roundedSum_eq_zero hall] at hs
    rw [← pure_eq_ok.1 hs] at hc
    have hfar : weightTolerance.lt (Double.finite false 0 (-1074) - 1).abs = true := by
      decide +kernel
    rw [if_pos hfar] at hc
    cases hc

end TextGrammar
