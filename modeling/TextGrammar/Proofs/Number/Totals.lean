import TextGrammar.Proofs.Number.Amount

/-! Running totals of numbers that are not negative: rounding never makes them smaller. -/
namespace TextGrammar.Double

/-- A number of the format that is not below zero; it may be infinite. -/
def IsMagnitude : Double → Prop
  | finite negative significand exponent =>
    negative = false ∧ significand < 2 ^ 53 ∧ -1074 ≤ exponent
  | infinite negative => negative = false
  | nan => False

theorem nearest_scaled_le (m : ℕ) (e : ℤ) :
    nearest (scaled m 1 (e - gridExponent m e)).1 (scaled m 1 (e - gridExponent m e)).2 ≤
      2 ^ 53 := by
  have hden := scaled_pos m one_pos (e - gridExponent m e)
  refine nearest_le hden ?_
  have hexponent : e - gridExponent m e ≤ 52 - m.log2 := by
    simp only [gridExponent]
    omega
  have hm := (lt_two_zpow_log2 m).le
  have hscaled : ((scaled m 1 (e - gridExponent m e)).1 : ℚ) ≤
      2 ^ 53 * (scaled m 1 (e - gridExponent m e)).2 := by
    rw [← div_le_iff₀ (by exact_mod_cast hden), scaled_div, Nat.cast_one, div_one]
    calc (m : ℚ) * 2 ^ (e - gridExponent m e)
        ≤ 2 ^ ((m.log2 : ℤ) + 1) * 2 ^ (52 - (m.log2 : ℤ)) := by gcongr; norm_num
      _ = 2 ^ ((m.log2 : ℤ) + 1 + (52 - m.log2)) := (zpow_add₀ (two_ne_zero' ℚ) _ _).symm
      _ = 2 ^ 53 := by
        rw [show (m.log2 : ℤ) + 1 + (52 - m.log2) = 53 by ring]
        norm_num
  exact_mod_cast hscaled

theorem isMagnitude_ofScaled (m : ℕ) (e : ℤ) : (ofScaled false m e).IsMagnitude := by
  have hnearest := nearest_scaled_le m e
  have hgrid : -1074 ≤ gridExponent m e := le_max_left _ _
  rw [ofScaled]
  split
  · exact ⟨rfl, by norm_num, le_rfl⟩
  · change (roundedAt false (gridExponent m e) (scaled m 1 (e - gridExponent m e)).1
      (scaled m 1 (e - gridExponent m e)).2).IsMagnitude
    simp only [roundedAt]
    split
    · split
      · rfl
      · exact ⟨rfl, by norm_num [twoPower], by omega⟩
    · rename_i hne
      split
      · rfl
      · exact ⟨rfl, lt_of_le_of_ne hnearest hne, hgrid⟩

/-- A sum with a number that is not negative is the exact one, rounded, and not below zero. -/
theorem add_eq_ofScaled {m n : ℕ} {e f : ℤ} {t : Bool} (hw : 0 ≤ (finite t n f).toRat) :
    ∃ sum : ℕ, finite false m e + finite t n f = ofScaled false sum (min e f) ∧
      (sum : ℚ) * 2 ^ min e f = m * 2 ^ e + (finite t n f).toRat := by
  obtain ⟨negative, sum, heq, hexact, hzero⟩ := exists_add_finite false t m n e f
  rw [toRat_finite_false] at hexact
  have hnonneg : 0 ≤ (finite negative sum (min e f)).toRat := by
    rw [hexact]
    positivity
  have hsign : negative = false := by
    rcases Nat.eq_zero_or_pos sum with hsum | hsum
    · exact hzero hsum
    · exact sign_of_toRat_nonneg hsum.ne' hnonneg
  rw [hsign] at heq hexact
  exact ⟨sum, heq, by rwa [toRat_finite_false] at hexact⟩

/-- Adding a number that is not negative does not make a total smaller. -/
theorem IsMagnitude.le_add {x w : Double} (hx : x.IsMagnitude) (hfinite : w.isFinite = true)
    (hw : 0 ≤ w.toRat) : (x + w).IsMagnitude ∧ x.le (x + w) = true := by
  cases w with
  | nan | infinite => cases hfinite
  | finite t n f =>
    cases x with
    | nan => exact hx.elim
    | infinite s =>
      obtain rfl : s = false := hx
      exact ⟨rfl, rfl⟩
    | finite s m e =>
      obtain ⟨rfl, hm, he⟩ := hx
      obtain ⟨sum, hsum, hexact⟩ := @add_eq_ofScaled m n e f t hw
      have hle : (m : ℚ) * 2 ^ e ≤ sum * 2 ^ min e f := by linarith
      have hmagnitude := isMagnitude_ofScaled sum (min e f)
      rw [hsum]
      refine ⟨hmagnitude, ?_⟩
      cases hresult : ofScaled false sum (min e f) with
      | nan =>
        rw [hresult] at hmagnitude
        exact hmagnitude.elim
      | infinite negative =>
        rw [hresult] at hmagnitude
        obtain rfl : negative = false := hmagnitude
        rfl
      | finite u q g =>
        -- the total lies on the grid of the sum, or the sum is not among the smallest numbers
        have hgrid : gridExponent sum (min e f) ≤ e ∨
            gridExponent sum (min e f) = min e f + sum.log2 - 52 := by
          simp only [gridExponent]
          omega
        have hround := le_toRat_ofScaled hm hgrid hle (by rw [hresult]; rfl)
        rw [hresult] at hround
        exact (le_iff_toRat_le rfl rfl).2 (by rwa [toRat_finite_false])

end TextGrammar.Double
