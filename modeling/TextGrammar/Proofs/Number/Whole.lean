import Mathlib.Data.Nat.Cast.Order.Field
import TextGrammar.Proofs.Number.Share
import TextGrammar.Proofs.Number.Totals

/-! Whole numbers that pass through binary64, with a half added to them or as a quotient. -/
namespace TextGrammar

variable {num den k : ℕ}

/-- The nearest natural is at most a half away, and even if it is exactly a half away. -/
theorem nearest_eq (hden : 0 < den) (hlow : 2 * (k * den) ≤ 2 * num + den)
    (hhigh : 2 * num ≤ 2 * (k * den) + den)
    (htie : 2 * (k * den) = 2 * num + den ∨ 2 * num = 2 * (k * den) + den → k % 2 = 0) :
    nearest num den = k := by
  have hquotient := Nat.div_add_mod num den
  have hrest := Nat.mod_lt num hden
  have hcases : k = num / den ∨ k = num / den + 1 := by
    have hbelow : num / den ≤ k := by
      by_contra hlt
      have hmul : (k + 1) * den ≤ num / den * den := Nat.mul_le_mul_right den (by omega)
      rw [Nat.add_mul, Nat.mul_comm (num / den)] at hmul
      omega
    have habove : k ≤ num / den + 1 := by
      by_contra hlt
      have hmul : (num / den + 2) * den ≤ k * den := Nat.mul_le_mul_right den (by omega)
      rw [Nat.add_mul, Nat.mul_comm (num / den)] at hmul
      omega
    omega
  simp only [nearest, Bool.or_eq_true, decide_eq_true_eq, Bool.and_eq_true, beq_iff_eq]
  rcases hcases with rfl | hk
  · rw [Nat.mul_comm (num / den)] at hlow hhigh htie
    split <;> omega
  · have hmul : k * den = den * (num / den) + den := by rw [hk, Nat.add_mul, Nat.mul_comm, one_mul]
    rw [hmul] at hlow hhigh htie
    split <;> omega

namespace Double

variable {x y : Double} {negative : Bool} {m n : ℕ} {e : ℤ}

theorem two_zpow_gridExponent_le (hm : m ≠ 0) :
    gridExponent m e = -1074 ∨ (2 : ℚ) ^ (gridExponent m e + 52) ≤ m * 2 ^ e := by
  refine or_iff_not_imp_left.2 fun hne => ?_
  have hexponent : gridExponent m e + 52 = m.log2 + e := by
    simp only [gridExponent] at hne ⊢
    omega
  rw [hexponent, zpow_add₀ (two_ne_zero' ℚ)]
  gcongr
  exact two_zpow_log2_le hm

theorem gridExponent_nonneg (h : (2 : ℚ) ^ 52 ≤ m * 2 ^ e) : 0 ≤ gridExponent m e := by
  have hlt : (2 : ℚ) ^ (52 : ℤ) < 2 ^ ((m.log2 : ℤ) + 1 + e) := by
    rw [zpow_add₀ (two_ne_zero' ℚ)]
    calc (2 : ℚ) ^ (52 : ℤ) ≤ m * 2 ^ e := h
      _ < _ := by
        gcongr
        exact lt_two_zpow_log2 m
  have := (zpow_lt_zpow_iff_right₀ (one_lt_two : (1 : ℚ) < 2)).1 hlt
  simp only [gridExponent]
  omega

/-- A magnitude is rounded to the number of units of its grid that is at most half a unit away. -/
theorem nearest_scaled_eq
    (hnear : |(m : ℚ) * 2 ^ e - k * 2 ^ gridExponent m e| ≤ 2 ^ gridExponent m e / 2)
    (htie : |(m : ℚ) * 2 ^ e - k * 2 ^ gridExponent m e| = 2 ^ gridExponent m e / 2 → k % 2 = 0) :
    nearest (scaled m 1 (e - gridExponent m e)).1 (scaled m 1 (e - gridExponent m e)).2 = k := by
  have hden := scaled_pos m one_pos (e - gridExponent m e)
  have hunits := scaled_div m 1 (e - gridExponent m e)
  have hunit : (0 : ℚ) < 2 ^ gridExponent m e := by positivity
  rw [Nat.cast_one, div_one, zpow_sub₀ (two_ne_zero' ℚ), ← mul_div_assoc, eq_div_iff hunit.ne']
    at hunits
  generalize (scaled m 1 (e - gridExponent m e)).1 = num at *
  generalize (scaled m 1 (e - gridExponent m e)).2 = den at *
  have hd : (0 : ℚ) < den := by exact_mod_cast hden
  have hscale : (num : ℚ) / den * den = num := div_mul_cancel₀ _ hd.ne'
  have hdistance : |(m : ℚ) * 2 ^ e - k * 2 ^ gridExponent m e| =
      |(num : ℚ) / den - k| * 2 ^ gridExponent m e := by
    rw [← hunits, ← sub_mul, abs_mul, abs_of_pos hunit]
  rw [hdistance] at hnear htie
  have hhalf : |(num : ℚ) / den - k| ≤ 1 / 2 := le_of_mul_le_mul_right (by linarith) hunit
  obtain ⟨hlow, hhigh⟩ := abs_le.1 hhalf
  refine nearest_eq hden ?_ ?_ ?_
  · have hbound : 2 * ((k : ℚ) * den) ≤ 2 * num + den := by nlinarith
    exact_mod_cast hbound
  · have hbound : 2 * (num : ℚ) ≤ 2 * (k * den) + den := by nlinarith
    exact_mod_cast hbound
  · intro hends
    have hends : |(num : ℚ) / den - k| = 1 / 2 := by
      rw [abs_eq (by norm_num)]
      rcases hends with hend | hend
      · have hvalue : 2 * ((k : ℚ) * den) = 2 * num + den := by exact_mod_cast hend
        right
        field_simp
        linarith
      · have hvalue : 2 * (num : ℚ) = 2 * (k * den) + den := by exact_mod_cast hend
        left
        field_simp
        linarith
    refine htie ?_
    rw [hends]
    ring

/-- What a magnitude is rounded to, if that is a number of the format. -/
theorem ofScaled_near (negative : Bool) (hm : m ≠ 0)
    (hnear : |(m : ℚ) * 2 ^ e - k * 2 ^ gridExponent m e| ≤ 2 ^ gridExponent m e / 2)
    (htie : |(m : ℚ) * 2 ^ e - k * 2 ^ gridExponent m e| = 2 ^ gridExponent m e / 2 → k % 2 = 0)
    (hhigh : (k : ℚ) * 2 ^ gridExponent m e < 2 ^ 1024) :
    (ofScaled negative m e).isFinite = true ∧
      (ofScaled negative m e).toRat = (finite negative k (gridExponent m e)).toRat := by
  have hnearest := nearest_scaled_eq hnear htie
  have hexponent (bits : ℕ) (hbits : (2 : ℚ) ^ bits ≤ k) : bits + gridExponent m e < 1024 := by
    refine (zpow_lt_zpow_iff_right₀ (one_lt_two : (1 : ℚ) < 2)).1 (lt_of_le_of_lt ?_ hhigh)
    rw [zpow_add₀ (two_ne_zero' ℚ), zpow_natCast]
    gcongr
  have hfinite : (ofScaled negative m e).isFinite = true := by
    rw [ofScaled, if_neg hm]
    change (roundedAt negative (gridExponent m e) (scaled m 1 (e - gridExponent m e)).1
      (scaled m 1 (e - gridExponent m e)).2).isFinite = true
    rw [roundedAt, hnearest]
    split
    · rename_i hk
      have := hexponent 53 (by rw [hk, twoPower]; norm_num)
      rw [if_neg (by omega)]
      rfl
    · rw [if_neg]
      · rfl
      intro hlarge
      have hlow := (two_zpow_gridExponent_le (e := e) hm).resolve_left (by omega)
      have hk : 2 ^ 52 ≤ k := by
        by_contra hlt
        have hbelow : (k : ℚ) + 1 ≤ 2 ^ 52 := by exact_mod_cast not_le.1 hlt
        have hunit : (0 : ℚ) < 2 ^ gridExponent m e := by positivity
        have habove := (abs_le.1 hnear).2
        rw [add_comm, zpow_add₀ (two_ne_zero' ℚ)] at hlow
        norm_num at hlow hbelow
        nlinarith
      have := hexponent 52 (by exact_mod_cast hk)
      omega
  refine ⟨hfinite, ?_⟩
  cases hx : ofScaled negative m e with
  | nan | infinite => simp [hx, isFinite] at hfinite
  | finite t q g =>
    obtain ⟨rfl, -, hvalue⟩ := ofScaled_eq_finite hm hx
    rw [hnearest] at hvalue
    cases t <;> simp [hvalue]

theorem exists_units {q : ℕ} {g grid : ℤ} (hq : q < 2 ^ 53)
    (h : grid ≤ g ∨ (2 : ℚ) ^ (grid + 52) ≤ q * 2 ^ g) :
    ∃ units : ℕ, (q : ℚ) * 2 ^ g = units * 2 ^ grid := by
  rcases le_or_gt grid g with hgrid | hgrid
  · exact exists_onGrid q hgrid
  · exact absurd (h.resolve_left hgrid.not_ge) (lt_of_below_grid hq hgrid).not_ge

/-- A number of the format is not rounded, whatever its sign. -/
theorem ofScaled_exact {q : ℕ} {g : ℤ} (negative : Bool) (hm : m ≠ 0) (hq : q < 2 ^ 53) (hg : -1074 ≤ g)
    (hhigh : (q : ℚ) * 2 ^ g < 2 ^ 1024) (h : (m : ℚ) * 2 ^ e = q * 2 ^ g) :
    (ofScaled negative m e).isFinite = true ∧
      (ofScaled negative m e).toRat = (finite negative q g).toRat := by
  obtain ⟨units, hunits⟩ : ∃ units : ℕ, (q : ℚ) * 2 ^ g = units * 2 ^ gridExponent m e := by
    refine exists_units hq ?_
    rcases two_zpow_gridExponent_le (e := e) hm with hleast | hlow
    · exact .inl (hleast.trans_le hg)
    · exact .inr (h ▸ hlow)
  have hexact : |(m : ℚ) * 2 ^ e - units * 2 ^ gridExponent m e| = 0 := by
    rw [h, hunits, sub_self, abs_zero]
  have hunit : (0 : ℚ) < 2 ^ gridExponent m e := by positivity
  obtain ⟨hfinite, hvalue⟩ := ofScaled_near negative hm
    (by rw [hexact]; positivity) (fun htie => by linarith) (hunits ▸ hhigh)
  refine ⟨hfinite, hvalue.trans ?_⟩
  cases negative <;> simp [hunits]

/-- Halfway between two whole numbers that have no number between them, the even one is taken. -/
theorem ofScaled_halfway {a even : ℕ} {f : ℤ} (negative : Bool) (hn : 2 ^ 52 ≤ n)
    (h : (m : ℚ) * 2 ^ e = n + 1 / 2) (heven : even % 2 = 0) (hnext : even = n ∨ even = n + 1)
    (ha : a < 2 ^ 53) (hformat : (even : ℚ) = a * 2 ^ f) (hhigh : (even : ℚ) < 2 ^ 1024) :
    (ofScaled negative m e).isFinite = true ∧
      (ofScaled negative m e).toRat = (finite negative even 0).toRat := by
  have hlarge : (2 : ℚ) ^ 52 ≤ m * 2 ^ e := by
    have hcast : (2 : ℚ) ^ 52 ≤ n := by exact_mod_cast hn
    rw [h]
    linarith
  have hm : m ≠ 0 := by
    rintro rfl
    norm_num at hlarge
  have hnonneg := gridExponent_nonneg hlarge
  obtain ⟨grid, hgrid⟩ := Int.eq_ofNat_of_zero_le hnonneg
  have hlow := (two_zpow_gridExponent_le (e := e) hm).resolve_left (by omega)
  obtain ⟨units, hunits⟩ : ∃ units : ℕ, (even : ℚ) = units * 2 ^ gridExponent m e := by
    rw [hformat]
    refine exists_units ha (.inr ?_)
    rw [← hformat, hgrid]
    rw [h, hgrid] at hlow
    have hpower : 2 ^ (grid + 52) < n + 1 := by
      have hlt : (2 : ℚ) ^ ((grid : ℤ) + 52) < n + 1 := by linarith
      exact_mod_cast hlt
    have hle : 2 ^ (grid + 52) ≤ even := by omega
    exact_mod_cast hle
  have hdistance : |(m : ℚ) * 2 ^ e - units * 2 ^ gridExponent m e| = 1 / 2 := by
    rw [h, ← hunits, abs_eq (by norm_num)]
    rcases hnext with rfl | rfl
    · left
      ring
    · right
      push_cast
      ring
  have hone : (1 : ℚ) ≤ 2 ^ gridExponent m e := one_le_zpow₀ one_le_two hnonneg
  have htie : |(m : ℚ) * 2 ^ e - units * 2 ^ gridExponent m e| = 2 ^ gridExponent m e / 2 →
      units % 2 = 0 := by
    intro htie
    have hunit : (2 : ℚ) ^ gridExponent m e = 1 := by linarith
    rw [hunit, mul_one] at hunits
    rwa [← Nat.cast_injective hunits]
  obtain ⟨hfinite, hvalue⟩ := ofScaled_near negative hm
    (by rw [hdistance]; linarith) htie (hunits ▸ hhigh)
  refine ⟨hfinite, hvalue.trans ?_⟩
  cases negative <;> simp [hunits]

/-- What a whole number is after a half has been added and the fraction dropped: from `2 ^ 52` on,
an odd one goes to the next even one. -/
def halfFloor (w : ℤ) : ℤ := if w.natAbs ≤ 2 ^ 52 ∨ 2 ∣ w then w else w + 1

/-- Odd numbers of the format are small. -/
theorem natAbs_lt_of_odd {w : ℤ} {a : ℕ} {f : ℤ} (ha : a < 2 ^ 53) (h : (w.natAbs : ℚ) = a * 2 ^ f)
    (hodd : ¬2 ∣ w) : w.natAbs < 2 ^ 53 := by
  rcases le_or_gt f 0 with hf | hf
  · have hle : (w.natAbs : ℚ) ≤ a := by
      rw [h]
      exact mul_le_of_le_one_right a.cast_nonneg (zpow_le_one_of_nonpos₀ one_le_two hf)
    exact lt_of_le_of_lt (by exact_mod_cast hle) ha
  · obtain ⟨k, rfl⟩ : ∃ k : ℕ, f = k + 1 := ⟨(f - 1).toNat, by omega⟩
    have hnat : w.natAbs = a * 2 ^ k * 2 := by
      rw [zpow_add_one₀ (two_ne_zero' ℚ), ← mul_assoc] at h
      exact_mod_cast h
    exact absurd (Int.natCast_dvd.2 (Dvd.intro_left _ hnat.symm)) hodd

/-- The magnitude of a half more than a whole number is a half more than a natural. -/
theorem exists_half {w : ℤ} (hexact : (finite negative m e).toRat = w + 1 / 2) :
    ∃ n : ℕ, (m : ℚ) * 2 ^ e = n + 1 / 2 ∧ w = signed negative (if negative then n + 1 else n) := by
  have hnonneg : (0 : ℚ) ≤ m * 2 ^ e := by positivity
  cases negative with
  | false =>
    rw [toRat_finite_false] at hexact
    have hw : -1 < w := by
      have hlt : (-1 : ℚ) < w := by linarith
      exact_mod_cast hlt
    lift w to ℕ using by omega
    exact ⟨w, hexact, rfl⟩
  | true =>
    rw [toRat_finite_true] at hexact
    have hw : w < 0 := by
      have hlt : (w : ℚ) < 0 := by linarith
      exact_mod_cast hlt
    obtain ⟨n, rfl⟩ : ∃ n : ℕ, w = -(n + 1 : ℕ) := ⟨(-w - 1).toNat, by omega⟩
    refine ⟨n, ?_, rfl⟩
    push_cast at hexact
    linarith

theorem natCast_lt_two_pow (h : n ≤ 2 ^ 53) : (n : ℚ) < 2 ^ 1024 :=
  calc (n : ℚ) ≤ 2 ^ 53 := by exact_mod_cast h
    _ < 2 ^ 1024 := pow_lt_pow_right₀ one_lt_two (by norm_num)

theorem ne_zero_of_half (h : (m : ℚ) * 2 ^ e = n + 1 / 2) : m ≠ 0 := by
  rintro rfl
  have hn := n.cast_nonneg (α := ℚ)
  rw [Nat.cast_zero, zero_mul] at h
  linarith only [h, hn]

/-- Below `2 ^ 52` the sum is a number of the format. -/
theorem floor_ofScaled_half_of_lt {w : ℤ} (hexact : (finite negative m e).toRat = w + 1 / 2)
    (hmagnitude : (m : ℚ) * 2 ^ e = n + 1 / 2)
    (hw : w = signed negative (if negative then n + 1 else n)) (hsmall : n < 2 ^ 52) :
    (ofScaled negative m e).isFinite = true ∧
      ⌊(ofScaled negative m e).toRat⌋ = halfFloor w := by
  have hodd : (m : ℚ) * 2 ^ e = (2 * n + 1 : ℕ) * 2 ^ (-1 : ℤ) := by
    rw [hmagnitude]
    push_cast
    ring
  have hbound : (m : ℚ) * 2 ^ e < 2 ^ 1024 := by
    refine lt_of_le_of_lt ?_ (natCast_lt_two_pow (show n + 1 ≤ 2 ^ 53 by omega))
    rw [hmagnitude, Nat.cast_add_one]
    linarith only
  obtain ⟨hfinite, hvalue⟩ := ofScaled_exact negative (ne_zero_of_half hmagnitude)
    (show 2 * n + 1 < 2 ^ 53 by omega) (by norm_num) (hodd ▸ hbound) hodd
  refine ⟨hfinite, ?_⟩
  have hkept : w.natAbs ≤ 2 ^ 52 := by
    rw [hw, signed]
    split <;> omega
  have hsame : (ofScaled negative m e).toRat = w + 1 / 2 := by
    rw [hvalue, ← hexact]
    cases negative
    · rw [toRat_finite_false, toRat_finite_false, hodd]
    · rw [toRat_finite_true, toRat_finite_true, hodd]
  rw [hsame, halfFloor, if_pos (.inl hkept), Int.floor_eq_iff]
  constructor <;> linarith only

/-- From there on it lies between two whole numbers that are next to each other. -/
theorem floor_ofScaled_half_of_le {w : ℤ} {a : ℕ} {f : ℤ}
    (hmagnitude : (m : ℚ) * 2 ^ e = n + 1 / 2)
    (hw : w = signed negative (if negative then n + 1 else n)) (hlarge : 2 ^ 52 ≤ n)
    (ha : a < 2 ^ 53) (hformat : (w.natAbs : ℚ) = a * 2 ^ f) (hhigh : (w.natAbs : ℚ) < 2 ^ 1024) :
    (ofScaled negative m e).isFinite = true ∧
      ⌊(ofScaled negative m e).toRat⌋ = halfFloor w := by
  obtain ⟨even, heven, hnext⟩ : ∃ even : ℕ, even % 2 = 0 ∧ (even = n ∨ even = n + 1) := by
    rcases Nat.mod_two_eq_zero_or_one n with hn | hn
    · exact ⟨n, hn, .inl rfl⟩
    · exact ⟨n + 1, by omega, .inr rfl⟩
  have hresult : halfFloor w = signed negative even := by
    rw [halfFloor, hw]
    cases negative <;> simp only [signed] <;> split <;> omega
  have hnat : w.natAbs = n ∨ w.natAbs = n + 1 := by
    rw [hw, signed]
    split <;> omega
  obtain ⟨b, g, hb, hbeven, hbound⟩ : ∃ (b : ℕ) (g : ℤ),
      b < 2 ^ 53 ∧ (even : ℚ) = b * 2 ^ g ∧ (even : ℚ) < 2 ^ 1024 := by
    by_cases hw2 : 2 ∣ w
    · obtain rfl : even = w.natAbs := by omega
      exact ⟨a, f, ha, hformat, hhigh⟩
    · have hle : even ≤ 2 ^ 53 := by
        have := natAbs_lt_of_odd ha hformat hw2
        omega
      obtain ⟨b, g, hb, -, hvalue⟩ := exists_significand hle
      exact ⟨b, g, hb, hvalue, natCast_lt_two_pow hle⟩
  obtain ⟨hfinite, hvalue⟩ := ofScaled_halfway negative hlarge hmagnitude heven
    hnext hb hbeven hbound
  refine ⟨hfinite, ?_⟩
  rw [hvalue, hresult, toRat, zpow_zero, mul_one, Int.floor_intCast]

/-- A half more than a whole number of the format, as it is rounded. -/
theorem floor_ofScaled_half {w : ℤ} {a : ℕ} {f : ℤ}
    (hexact : (finite negative m e).toRat = w + 1 / 2) (ha : a < 2 ^ 53)
    (hformat : (w.natAbs : ℚ) = a * 2 ^ f) (hhigh : (w.natAbs : ℚ) < 2 ^ 1024) :
    (ofScaled negative m e).isFinite = true ∧
      ⌊(ofScaled negative m e).toRat⌋ = halfFloor w := by
  obtain ⟨n, hmagnitude, hw⟩ := exists_half hexact
  rcases Nat.lt_or_ge n (2 ^ 52) with hsmall | hlarge
  · exact floor_ofScaled_half_of_lt hexact hmagnitude hw hsmall
  · exact floor_ofScaled_half_of_le hmagnitude hw hlarge ha hformat hhigh

theorem exponent_le {t : Bool} {q : ℕ} {g : ℤ} (h : ofScaled negative m e = finite t q g) :
    g ≤ 971 := by
  simp only [ofScaled, roundedAt] at h
  split at h
  · cases h
    norm_num
  · split at h
    · split at h
      · cases h
      · cases h
        omega
    · split at h
      · cases h
      · cases h
        omega

theorem isBinary64_ofScaled (negative : Bool) (m : ℕ) (e : ℤ) :
    (ofScaled negative m e).IsBinary64 := by
  have hfalse : (ofScaled false m e).IsBinary64 := by
    have hmagnitude := isMagnitude_ofScaled m e
    cases hx : ofScaled false m e with
    | nan | infinite => trivial
    | finite t q g =>
      rw [hx] at hmagnitude
      exact ⟨hmagnitude.2.1, hmagnitude.2.2, exponent_le hx⟩
  cases negative with
  | false => exact hfalse
  | true =>
    rw [← Bool.not_false, ofScaled_not]
    exact isBinary64_neg hfalse

theorem IsBinary64.exists_natAbs {w : ℤ} (h : x.IsBinary64) (hw : x.toRat = w) :
    ∃ (a : ℕ) (f : ℤ), a < 2 ^ 53 ∧ (w.natAbs : ℚ) = a * 2 ^ f ∧ (w.natAbs : ℚ) < 2 ^ 1024 := by
  rw [Nat.cast_natAbs, Int.cast_abs, ← hw]
  cases x with
  | nan | infinite =>
    refine ⟨0, 0, by norm_num, ?_, ?_⟩
    · simp [toRat]
    · simp only [toRat, abs_zero]
      positivity
  | finite s q g =>
    obtain ⟨hq, -, hg⟩ := h
    refine ⟨q, g, hq, abs_toRat_finite s q g, ?_⟩
    rw [abs_toRat_finite]
    calc (q : ℚ) * 2 ^ g ≤ q * 2 ^ (971 : ℤ) := by
          gcongr
          norm_num
      _ < 2 ^ (53 : ℕ) * 2 ^ (971 : ℤ) := by
          gcongr
          exact_mod_cast hq
      _ = 2 ^ 1024 := by
          rw [← zpow_natCast, ← zpow_add₀ (two_ne_zero' ℚ)]
          exact zpow_natCast 2 1024

/-- A whole number is a number of the format up to `2 ^ 53`, and rounded to an even one beyond. -/
theorem exists_toRat_ofInt_natCast (hfinite : (ofInt n).isFinite = true) :
    ∃ w : ℕ, (ofInt n).toRat = w ∧ (n ≤ 2 ^ 53 → w = n) ∧
      (2 ^ 53 < n → 2 ∣ w ∧ 2 ^ 53 ≤ w) := by
  rcases Nat.lt_or_ge (2 ^ 53) n with hlarge | hsmall
  · have hn : n ≠ 0 := by omega
    have hlog : 53 ≤ n.log2 := (Nat.le_log2 hn).2 hlarge.le
    have hlow := le_toRat_ofInt (m := 2 ^ 52) (e := 1) (n := n) (by norm_num)
      (by exact_mod_cast (show 2 ^ 52 * 2 ^ 1 ≤ n by omega)) hfinite
    cases hx : ofInt n with
    | nan | infinite => simp [hx, isFinite] at hfinite
    | finite t q g =>
      obtain ⟨rfl, -, hvalue⟩ := ofInt_natCast_eq_finite hn hx
      generalize nearest (n * 2 ^ (52 - n.log2)) (2 ^ (n.log2 - 52)) = units at hvalue
      have heven : (finite false q g).toRat = (units * 2 ^ (n.log2 - 53) * 2 : ℕ) := by
        rw [toRat_finite_false, hvalue, show (n.log2 : ℤ) - 52 = (n.log2 - 53 : ℕ) + 1 by omega,
          zpow_add_one₀ (two_ne_zero' ℚ), zpow_natCast]
        push_cast
        ring
      refine ⟨_, heven, fun hle => absurd hle (by omega), fun _ => ⟨Dvd.intro_left _ rfl, ?_⟩⟩
      rw [hx, heven] at hlow
      exact_mod_cast hlow
  · obtain ⟨q, g, hq, hg, hvalue⟩ := exists_significand hsmall
    refine ⟨n, ?_, fun _ => rfl, fun hlt => absurd hlt (by omega)⟩
    refine le_antisymm ?_ ?_
    · rw [hvalue]
      exact toRat_ofInt_le hq hvalue.le
    · rw [hvalue]
      exact le_toRat_ofInt hq hvalue.ge hfinite

theorem exists_toRat_ofInt {v : ℤ} (hfinite : (ofInt v).isFinite = true) :
    ∃ w : ℤ, (ofInt v).toRat = w ∧ (v.natAbs ≤ 2 ^ 53 → w = v) ∧
      (2 ^ 53 < v.natAbs → 2 ∣ w ∧ 2 ^ 53 ≤ w.natAbs) := by
  rcases le_or_gt 0 v with hv | hv
  · lift v to ℕ using hv
    obtain ⟨w, hw, hsmall, hlarge⟩ := exists_toRat_ofInt_natCast hfinite
    exact ⟨w, by rw [hw, Int.cast_natCast], fun h => by rw [hsmall h],
      fun h => ⟨Int.natCast_dvd_natCast.2 (hlarge h).1, (hlarge h).2⟩⟩
  · obtain ⟨n, rfl⟩ : ∃ n : ℕ, v = -n := ⟨v.natAbs, by omega⟩
    rw [ofInt_neg (by omega)] at hfinite ⊢
    rw [isFinite_neg] at hfinite
    obtain ⟨w, hw, hsmall, hlarge⟩ := exists_toRat_ofInt_natCast hfinite
    refine ⟨-w, by rw [toRat_neg, hw, Int.cast_neg, Int.cast_natCast], fun h => ?_, fun h => ?_⟩
    · rw [hsmall (by omega)]
    · obtain ⟨heven, hle⟩ := hlarge (by omega)
      exact ⟨by omega, by omega⟩

/-- A half added to a number of the format that is whole, and the fraction dropped. -/
theorem floor?_add_half {w : ℤ} (hx : x.isFinite = true) (hformat : x.IsBinary64) (hw : x.toRat = w)
    (hy : y.isFinite = true) (hhalf : y.toRat = 1 / 2) : (x + y).floor? = .ok (halfFloor w) := by
  obtain ⟨negative, m, e, heq, hexact⟩ := exists_add_eq hx hy
  obtain ⟨a, f, ha, hvalue, hhigh⟩ := hformat.exists_natAbs hw
  rw [hw, hhalf] at hexact
  obtain ⟨hfinite, hfloor⟩ := floor_ofScaled_half hexact ha hvalue hhigh
  rw [heq, floor?_of_isFinite hfinite, hfloor]

/-- Whether a half that is added to a whole number is dropped again: the number is small, or even and
a number of the format. -/
def KeepsHalf (v : ℤ) : Prop :=
  v.natAbs ≤ 2 ^ 52 ∨ 2 ∣ v ∧ (ofInt v).isFinite = true ∧ (ofInt v).toRat = v

theorem isFinite_ofInt {v : ℤ} (h : v.natAbs ≤ 2 ^ 53) : (ofInt v).isFinite = true := by
  refine (within_ofInt (k := 53) (by norm_num) (by norm_num) ?_).finite
  rw [← Int.cast_abs, Int.abs_eq_natAbs, Int.cast_natCast]
  exact_mod_cast h

/-- A half is added to a whole number as it is rounded. -/
theorem floor?_ofInt_add_half {v : ℤ} (hfinite : (ofInt v).isFinite = true) (hy : y.isFinite = true)
    (hhalf : y.toRat = 1 / 2) : (ofInt v + y).floor? = .ok (halfFloor ⌊(ofInt v).toRat⌋) := by
  obtain ⟨w, hw, -⟩ := exists_toRat_ofInt hfinite
  rw [floor?_add_half hfinite (isBinary64_ofScaled _ _ _) hw hy hhalf, hw, Int.floor_intCast]

theorem keepsHalf_iff {v : ℤ} :
    KeepsHalf v ↔ (ofInt v).isFinite = true ∧ halfFloor ⌊(ofInt v).toRat⌋ = v := by
  rcases hf : (ofInt v).isFinite with _ | _
  · refine iff_of_false ?_ (by simp)
    rintro (hle | ⟨-, hfinite, -⟩)
    · rw [isFinite_ofInt (by omega)] at hf
      cases hf
    · rw [hf] at hfinite
      cases hfinite
  obtain ⟨w, hw, hsmall, hlarge⟩ := exists_toRat_ofInt hf
  rw [KeepsHalf, hf, hw, Int.floor_intCast, Int.cast_inj, halfFloor]
  rcases Nat.lt_or_ge (2 ^ 53) v.natAbs with hv | hv
  · have heven := (hlarge hv).1
    rw [if_pos (.inr heven)]
    refine ⟨?_, fun ⟨_, heq⟩ => .inr ⟨heq ▸ heven, rfl, heq⟩⟩
    rintro (hle | ⟨-, -, heq⟩)
    · omega
    · exact ⟨rfl, heq⟩
  · obtain rfl := hsmall hv
    split
    · rename_i hkept
      exact ⟨fun _ => ⟨rfl, rfl⟩, fun _ => hkept.imp_right fun heven => ⟨heven, rfl, rfl⟩⟩
    · rename_i hlost
      exact ⟨fun h => absurd (h.imp_right And.left) hlost, fun ⟨_, heq⟩ => absurd heq (by omega)⟩

/-- The multiple of a unit that a positive number is rounded to. -/
structure IsNearest (z : ℚ) (unit : ℤ) (multiple : ℕ) : Prop where
  fits : unit = -1074 ∨ 2 ^ (unit + 52) ≤ z
  le : ∀ {k : ℕ}, (k : ℚ) * 2 ^ unit ≤ z → k ≤ multiple
  ge : ∀ {k : ℕ}, z ≤ (k : ℚ) * 2 ^ unit → multiple ≤ k
  near : (multiple : ℚ) * 2 ^ unit ≤ z + 2 ^ unit / 2

theorem exists_isNearest (hnum : num ≠ 0) (hden : 0 < den)
    (hfinite : (ofQuotient negative num den).isFinite = true) :
    ∃ unit multiple, IsNearest (num / den) unit multiple ∧
      |(ofQuotient negative num den).toRat| = multiple * 2 ^ unit := by
  have hpos := scaled_pos num hden (-fittingExponent num den)
  have hd : (0 : ℚ) < (scaled num den (-fittingExponent num den)).2 := by exact_mod_cast hpos
  have hunit : (0 : ℚ) < 2 ^ fittingExponent num den := by positivity
  have hunits := scaled_div num den (-fittingExponent num den)
  rw [zpow_neg, ← div_eq_mul_inv, eq_div_iff hunit.ne'] at hunits
  refine ⟨fittingExponent num den, nearest (scaled num den (-fittingExponent num den)).1
    (scaled num den (-fittingExponent num den)).2, {
    fits := two_zpow_fittingExponent_le hnum hden
    le := fun hk => le_nearest hpos ?_
    ge := fun hk => nearest_le hpos ?_
    near := ?_ }, ?_⟩
  · rw [← hunits] at hk
    have hle := (le_div_iff₀ hd).1 (le_of_mul_le_mul_right hk hunit)
    exact_mod_cast hle
  · rw [← hunits] at hk
    have hle := (div_le_iff₀ hd).1 (le_of_mul_le_mul_right hk hunit)
    exact_mod_cast hle
  · have hnear := mul_le_mul_of_nonneg_right (@nearest_le_div_add
      (scaled num den (-fittingExponent num den)).1 _ hpos) hunit.le
    rw [add_mul, hunits] at hnear
    linarith
  · cases hx : ofQuotient negative num den with
    | nan | infinite => simp [hx, isFinite] at hfinite
    | finite t q g =>
      rw [ofQuotient, if_neg hnum] at hx
      rw [abs_toRat_finite]
      exact (roundedAt_eq_finite hx).2.2

/-- A quotient of naturals up to `2 ^ 53` is rounded to no less than its whole part. -/
theorem IsNearest.whole_le {unit : ℤ} {multiple : ℕ} (h : IsNearest (num / den) unit multiple)
    (hden : 0 < den) (hnum : num ≤ 2 ^ 53) :
    ((num / den : ℕ) : ℚ) ≤ multiple * 2 ^ unit := by
  obtain ⟨k, hk⟩ : ∃ k : ℕ, ((num / den : ℕ) : ℚ) = k * 2 ^ unit := by
    rcases le_or_gt unit 0 with hunit | hunit
    · simpa using exists_onGrid (num / den) hunit
    · obtain ⟨grid, rfl⟩ := Int.eq_ofNat_of_zero_le hunit.le
      have hlow := h.fits.resolve_left (by omega)
      rw [le_div_iff₀ (by exact_mod_cast hden)] at hlow
      have hpower : 2 ^ (grid + 52) * den ≤ num := by exact_mod_cast hlow
      obtain ⟨q, g, hq, -, hvalue⟩ := exists_significand ((Nat.div_le_self num den).trans hnum)
      rw [hvalue]
      refine exists_units hq (.inr ?_)
      rw [← hvalue]
      exact_mod_cast (Nat.le_div_iff_mul_le hden).2 hpower
  have hwhole : ((num / den : ℕ) : ℚ) ≤ num / den := Nat.cast_div_le
  rw [hk] at hwhole ⊢
  have hle := h.le hwhole
  gcongr

/-- A quotient of naturals up to `2 ^ 53` is rounded to less than the next whole number. -/
theorem IsNearest.lt_whole_add_one {unit : ℤ} {multiple : ℕ}
    (h : IsNearest (num / den) unit multiple) (hden : 0 < den) (hnum : num ≤ 2 ^ 53) :
    (multiple : ℚ) * 2 ^ unit < (num / den : ℕ) + 1 := by
  have hd : (0 : ℚ) < den := by exact_mod_cast hden
  have hunit : (0 : ℚ) < 2 ^ unit := by positivity
  have hbound : (num : ℚ) ≤ 2 ^ 53 := by exact_mod_cast hnum
  have hnext : (num : ℚ) + 1 ≤ ((num / den : ℕ) + 1) * den := by
    rw [mul_comm]
    exact_mod_cast Nat.lt_mul_div_succ num hden
  by_contra hge
  have hreach : ((num / den : ℕ) : ℚ) + 1 ≤ num / den + 2 ^ unit / 2 := (not_lt.1 hge).trans h.near
  -- the next whole number is one part of the denominator away, so the unit is at least twice that
  have htwice : 2 ≤ den * (2 : ℚ) ^ unit := by
    have hscaled := hnext.trans (mul_le_mul_of_nonneg_right hreach hd.le)
    rw [add_mul, div_mul_cancel₀ _ hd.ne'] at hscaled
    linarith
  have hhigh : (num : ℚ) / den ≤ (2 ^ 52 : ℕ) * 2 ^ unit := by
    rw [div_le_iff₀ hd]
    push_cast
    linarith
  have hmultiple : (multiple : ℚ) * 2 ^ unit ≤ (2 ^ 52 : ℕ) * 2 ^ unit := by
    have hle := h.ge hhigh
    gcongr
  refine hge ?_
  rcases h.fits with hleast | hlow
  · have hsmall : (2 : ℚ) ^ unit ≤ 2 ^ (-53 : ℤ) := zpow_le_zpow_right₀ one_le_two (by omega)
    have hnonneg := (num / den).cast_nonneg (α := ℚ)
    norm_num at hsmall hmultiple
    linarith
  · have hbelow : (num : ℚ) / den < (num / den : ℕ) + 1 := by
      rw [div_lt_iff₀ hd]
      linarith
    refine lt_of_le_of_lt (hmultiple.trans ?_) hbelow
    rw [add_comm, zpow_add₀ (two_ne_zero' ℚ)] at hlow
    exact_mod_cast hlow

/-- A quotient of naturals up to `2 ^ 53` is not rounded beyond a whole number. -/
theorem floor_ofQuotient (hden : 0 < den) (hnum : num ≤ 2 ^ 53) :
    (ofQuotient false num den).isFinite = true ∧
      ⌊(ofQuotient false num den).toRat⌋ = (num / den : ℕ) := by
  have hle : (num : ℚ) / den ≤ 2 ^ (53 : ℤ) :=
    (div_le_self num.cast_nonneg (by exact_mod_cast hden)).trans (by exact_mod_cast hnum)
  have hwithin : (ofQuotient false num den).Within 53 :=
    within_ofQuotient hden (by norm_num) (by norm_num) hle
  have hfinite := hwithin.finite
  refine ⟨hfinite, ?_⟩
  rcases eq_or_ne num 0 with rfl | hne
  · rw [toRat_ofQuotient_zero, Nat.zero_div, Int.floor_zero, Nat.cast_zero]
  obtain ⟨unit, multiple, hnearest, hvalue⟩ := exists_isNearest hne hden hfinite
  rw [abs_of_nonneg toRat_ofQuotient_nonneg] at hvalue
  rw [hvalue, Int.floor_eq_iff, Int.cast_natCast]
  exact ⟨hnearest.whole_le hden hnum, hnearest.lt_whole_add_one hden hnum⟩

end Double

end TextGrammar
