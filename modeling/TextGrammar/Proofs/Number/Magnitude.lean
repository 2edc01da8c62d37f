import TextGrammar.Proofs.Number.Amount

/-! Magnitudes: bounds on what an operation is given bound what it returns, rounded as it is. -/
namespace TextGrammar

namespace Double

variable {x y : Double} {m num den : ℕ} {e k : ℤ} {negative : Bool}

/-- A finite number, at most a power of two away from zero. -/
structure Within (k : ℤ) (x : Double) : Prop where
  finite : x.isFinite = true
  abs_le : |x.toRat| ≤ 2 ^ k

theorem Within.neg (h : x.Within k) : (-x).Within k := by
  refine ⟨(isFinite_neg x).trans h.finite, ?_⟩
  rw [toRat_neg, abs_neg]
  exact h.abs_le

/-- Rounding at an exponent does not go beyond a power of two on the grid of that exponent. -/
theorem within_roundedAt (hden : 0 < den) (hgrid : e ≤ k) (hhigh : e ≤ 970)
    (h : (num : ℚ) / den * 2 ^ e ≤ 2 ^ k) : (roundedAt negative e num den).Within k := by
  have hnearest : nearest num den ≤ 2 ^ (k - e).toNat := by
    refine nearest_le hden ?_
    have hunits : (num : ℚ) ≤ 2 ^ (k - e).toNat * den := by
      rw [← div_le_iff₀ (by exact_mod_cast hden)]
      refine le_of_mul_le_mul_right ?_ (zpow_pos two_pos e)
      rwa [two_pow_toNat_mul hgrid]
    exact_mod_cast hunits
  have hfinite : (roundedAt negative e num den).isFinite = true := by
    simp only [roundedAt]
    split
    · rw [if_neg (by omega)]
      rfl
    · rw [if_neg (by omega)]
      rfl
  refine ⟨hfinite, ?_⟩
  cases hx : roundedAt negative e num den with
  | nan | infinite => simp [hx, isFinite] at hfinite
  | finite t q g =>
    obtain ⟨-, -, hvalue⟩ := roundedAt_eq_finite hx
    rw [abs_toRat_finite, hvalue, ← two_pow_toNat_mul hgrid]
    gcongr
    exact_mod_cast hnearest

theorem within_ofScaled (hlow : -1074 ≤ k) (hhigh : k ≤ 1022)
    (h : |(finite negative m e).toRat| ≤ 2 ^ k) : (ofScaled negative m e).Within k := by
  rw [abs_toRat_finite] at h
  rcases Nat.eq_zero_or_pos m with rfl | hm
  · rw [ofScaled, if_pos rfl]
    refine ⟨rfl, ?_⟩
    rw [abs_toRat_finite, Nat.cast_zero, zero_mul]
    positivity
  have hexponent : m.log2 + e ≤ k := by
    refine (zpow_le_zpow_iff_right₀ (one_lt_two : (1 : ℚ) < 2)).1 ?_
    rw [zpow_add₀ (two_ne_zero' ℚ)]
    refine le_trans ?_ h
    gcongr
    exact two_zpow_log2_le hm.ne'
  have hgrid : gridExponent m e ≤ k ∧ gridExponent m e ≤ 970 := by
    simp only [gridExponent]
    omega
  rw [ofScaled, if_neg hm.ne']
  change (roundedAt negative (gridExponent m e) (scaled m 1 (e - gridExponent m e)).1
    (scaled m 1 (e - gridExponent m e)).2).Within k
  refine within_roundedAt (scaled_pos m one_pos _) hgrid.1 hgrid.2 ?_
  rw [scaled_div, mul_assoc, ← zpow_add₀ (two_ne_zero' ℚ), Nat.cast_one, div_one, sub_add_cancel]
  exact h

/-- The fitting exponent gives a quotient at least 53 bits, unless it is the least one. -/
theorem two_zpow_fittingExponent_le (hnum : num ≠ 0) (hden : 0 < den) :
    fittingExponent num den = -1074 ∨ (2 : ℚ) ^ (fittingExponent num den + 52) ≤ num / den := by
  have hd : (0 : ℚ) < den := by exact_mod_cast hden
  refine or_iff_not_imp_left.2 fun hne => ?_
  simp only [fittingExponent] at hne ⊢
  split at hne
  · rename_i hle
    rw [if_pos hle, max_eq_right (by omega), sub_add_cancel]
    have hone : (1 : ℚ) ≤ num / den * 2 ^ (-((num.log2 : ℤ) - den.log2)) := by
      rw [← scaled_div, one_le_div₀ (by exact_mod_cast scaled_pos num hden _)]
      exact_mod_cast hle
    rwa [zpow_neg, ← div_eq_mul_inv, one_le_div₀ (by positivity)] at hone
  · rename_i hle
    rw [if_neg hle, max_eq_right (by omega), le_div_iff₀ hd]
    calc (2 : ℚ) ^ ((num.log2 : ℤ) - den.log2 - 53 + 52) * den
        ≤ 2 ^ ((num.log2 : ℤ) - den.log2 - 53 + 52) * 2 ^ ((den.log2 : ℤ) + 1) := by
          gcongr
          exact (lt_two_zpow_log2 den).le
      _ = 2 ^ (num.log2 : ℤ) := by
          rw [← zpow_add₀ (two_ne_zero' ℚ)]
          congr 1
          ring
      _ ≤ num := two_zpow_log2_le hnum

theorem fittingExponent_le (hnum : num ≠ 0) (hden : 0 < den) (h : (num : ℚ) / den ≤ 2 ^ k) :
    fittingExponent num den ≤ max (-1074) (k - 52) := by
  rcases two_zpow_fittingExponent_le hnum hden with hleast | hlow
  · exact hleast.trans_le (le_max_left _ _)
  · have := (zpow_le_zpow_iff_right₀ (one_lt_two : (1 : ℚ) < 2)).1 (hlow.trans h)
    omega

theorem within_ofQuotient (hden : 0 < den) (hlow : -1074 ≤ k) (hhigh : k ≤ 1022)
    (h : (num : ℚ) / den ≤ 2 ^ k) : (ofQuotient negative num den).Within k := by
  rcases eq_or_ne num 0 with rfl | hnum
  · rw [ofQuotient, if_pos rfl]
    refine ⟨rfl, ?_⟩
    rw [abs_toRat_finite, Nat.cast_zero, zero_mul]
    positivity
  have hexponent := fittingExponent_le hnum hden h
  rw [ofQuotient, if_neg hnum]
  change (roundedAt negative (fittingExponent num den)
    (scaled num den (-fittingExponent num den)).1
    (scaled num den (-fittingExponent num den)).2).Within k
  refine within_roundedAt (scaled_pos num hden _) (by omega) (by omega) ?_
  rw [scaled_div, mul_assoc, ← zpow_add₀ (two_ne_zero' ℚ), neg_add_cancel, zpow_zero, mul_one]
  exact h

theorem Within.add (hx : x.Within k) (hy : y.Within k) (hlow : -1075 ≤ k) (hhigh : k ≤ 1021) :
    (x + y).Within (k + 1) := by
  obtain ⟨negative, m, e, heq, hexact⟩ := exists_add_eq hx.finite hy.finite
  rw [heq]
  refine within_ofScaled (by omega) (by omega) ?_
  rw [hexact, zpow_add_one₀ (two_ne_zero' ℚ), mul_two]
  exact (abs_add_le _ _).trans (add_le_add hx.abs_le hy.abs_le)

theorem Within.sub (hx : x.Within k) (hy : y.Within k) (hlow : -1075 ≤ k) (hhigh : k ≤ 1021) :
    (x - y).Within (k + 1) := hx.add hy.neg hlow hhigh

theorem Within.mul {l : ℤ} (hx : x.Within k) (hy : y.Within l) (hlow : -1074 ≤ k + l)
    (hhigh : k + l ≤ 1022) : (x * y).Within (k + l) := by
  obtain ⟨negative, m, e, heq, hexact⟩ := exists_mul_eq hx.finite hy.finite
  rw [heq]
  refine within_ofScaled hlow hhigh ?_
  rw [hexact, abs_mul, zpow_add₀ (two_ne_zero' ℚ)]
  exact mul_le_mul hx.abs_le hy.abs_le (abs_nonneg _) (by positivity)

/-- The divisor is at least a power of two. -/
theorem Within.div {l : ℤ} (hx : x.Within k) (hy : y.isFinite = true) (hl : 2 ^ l ≤ y.toRat)
    (hlow : -1074 ≤ k - l) (hhigh : k - l ≤ 1022) : (x / y).Within (k - l) := by
  have hpos : 0 < y.toRat := lt_of_lt_of_le (by positivity) hl
  obtain ⟨negative, num, den, hden, heq, hexact⟩ := exists_div_eq hx.finite hy hpos.ne'
  rw [heq]
  refine within_ofQuotient hden hlow hhigh ?_
  rw [hexact, abs_div, abs_of_pos hpos, zpow_sub₀ (two_ne_zero' ℚ)]
  exact div_le_div₀ (by positivity) hx.abs_le (by positivity) hl

theorem within_ofInt {n : ℤ} (hlow : -1074 ≤ k) (hhigh : k ≤ 1022) (h : |(n : ℚ)| ≤ 2 ^ k) :
    (ofInt n).Within k := by
  refine within_ofScaled hlow hhigh ?_
  rw [abs_toRat_finite, zpow_zero, mul_one, Nat.cast_natAbs, Int.cast_abs]
  exact h

theorem within_natCast {n bits : ℕ} (h : n ≤ 2 ^ bits) (hbits : bits ≤ 1022) :
    (ofInt n).Within bits := by
  refine within_ofInt (by omega) (by omega) ?_
  rw [Int.cast_natCast, Nat.abs_cast, zpow_natCast]
  exact_mod_cast h

/-- A product of the format is not rounded. -/
theorem toRat_mul_eq {q : ℕ} {g : ℤ} (hx : x.isFinite = true) (hy : y.isFinite = true)
    (hq : q < 2 ^ 53) (hg : -1074 ≤ g) (hhigh : g ≤ 969) (h : x.toRat * y.toRat = q * 2 ^ g) :
    (x * y).isFinite = true ∧ (x * y).toRat = q * 2 ^ g := by
  obtain ⟨negative, m, e, heq, hexact⟩ := exists_mul_eq hx hy
  have hnonneg : (0 : ℚ) ≤ q * 2 ^ g := by positivity
  rw [h] at hexact
  have hbound : (q : ℚ) * 2 ^ g ≤ 2 ^ (53 + g) := by
    rw [zpow_add₀ (two_ne_zero' ℚ)]
    gcongr
    exact_mod_cast hq.le
  have hfinite : (ofScaled negative m e).isFinite = true := by
    refine (within_ofScaled (k := 53 + g) (by omega) (by omega) ?_).finite
    rw [hexact, abs_of_nonneg hnonneg]
    exact hbound
  rw [heq]
  refine ⟨hfinite, ?_⟩
  rcases Nat.eq_zero_or_pos m with rfl | hm
  · rw [toRat_ofScaled_zero, ← hexact]
    cases negative <;> simp
  · obtain rfl := sign_of_toRat_nonneg hm.ne' (hexact ▸ hnonneg)
    rw [toRat_finite_false] at hexact
    exact toRat_ofScaled_eq hq hg hexact hfinite

theorem floor?_of_isFinite (hx : x.isFinite = true) : x.floor? = .ok ⌊x.toRat⌋ := by
  cases hfloor : x.floor? with
  | ok k => rw [floor?_eq_ok hfloor]
  | error fault => cases x <;> simp_all [isFinite, floor?, toInt?, quotient?]

end Double

namespace Amount

variable {a b : Amount} {j k l : ℤ}

/-- A finite amount, at most a power of two away from zero. -/
structure Within (k : ℤ) (a : Amount) : Prop where
  finite : a.isFinite = true
  abs_le : |a.toRat| ≤ 2 ^ k

theorem within_real {x : Double} : (real x).Within k ↔ x.Within k :=
  ⟨fun h => ⟨h.finite, h.abs_le⟩, fun h => ⟨h.finite, h.abs_le⟩⟩

theorem within_whole {n : ℕ} : (whole n).Within k ↔ (n : ℚ) ≤ 2 ^ k := by
  have habs : |(whole n).toRat| = n := by rw [toRat, Int.cast_natCast, Nat.abs_cast]
  exact ⟨fun h => habs ▸ h.abs_le, fun h => ⟨rfl, habs.trans_le h⟩⟩

theorem Within.mono (h : a.Within k) (hkl : k ≤ l) : a.Within l :=
  ⟨h.finite, h.abs_le.trans (zpow_le_zpow_right₀ (by norm_num) hkl)⟩

theorem Within.exists_toDouble? (h : a.Within k) (hlow : -1074 ≤ k) (hhigh : k ≤ 1022) :
    ∃ x, a.toDouble? = .ok x ∧ x.Within k := by
  cases a with
  | real x => exact ⟨x, rfl, within_real.1 h⟩
  | whole n =>
    have hn := Double.within_ofInt hlow hhigh h.abs_le
    exact ⟨_, Double.ofInt?_of_isFinite hn.finite, hn⟩

/-- No positive amount is below the least positive number of the format. -/
theorem IsNumber.two_zpow_le {a : Amount} (h : a.IsNumber) (hpos : 0 < a.toRat) :
    2 ^ (-1074 : ℤ) ≤ a.toRat := by
  cases a with
  | whole n =>
    have hn : (1 : ℚ) ≤ n := by exact_mod_cast Int.cast_pos.1 hpos
    exact (zpow_le_one_of_nonpos₀ (by norm_num) (by norm_num)).trans hn
  | real x =>
    cases x with
    | nan | infinite => exact absurd hpos (lt_irrefl 0)
    | finite negative m e =>
      have hm : m ≠ 0 := by
        rintro rfl
        cases negative <;> simp [toRat] at hpos
      have hone : (1 : ℚ) ≤ m := by exact_mod_cast Nat.one_le_iff_ne_zero.2 hm
      calc (2 : ℚ) ^ (-1074 : ℤ) ≤ 1 * 2 ^ e := by
            rw [one_mul]
            exact zpow_le_zpow_right₀ one_le_two h.2.1
        _ ≤ m * 2 ^ e := by gcongr
        _ = |(Double.finite negative m e).toRat| := (Double.abs_toRat_finite negative m e).symm
        _ = (Double.finite negative m e).toRat := abs_of_pos hpos

/-- What is said of the exact operation and of the rounded one holds of their combination. -/
theorem Within.exists_combine {exact : ℤ → ℤ → ℤ} {rounded : Double → Double → Double}
    (ha : a.Within k) (hb : b.Within l) (hk : -1074 ≤ k ∧ k ≤ 1022) (hl : -1074 ≤ l ∧ l ≤ 1022)
    (hexact : ∀ m n : ℤ, |(m : ℚ)| ≤ 2 ^ k → |(n : ℚ)| ≤ 2 ^ l → |(exact m n : ℚ)| ≤ 2 ^ j)
    (hrounded : ∀ x y : Double, x.Within k → y.Within l → (rounded x y).Within j) :
    ∃ c, combine exact rounded a b = .ok c ∧ c.Within j := by
  have hreal (h : ∀ m n, a = whole m → b ≠ whole n) :
      ∃ c, combine exact rounded a b = .ok c ∧ c.Within j := by
    obtain ⟨x, hx, hxk⟩ := ha.exists_toDouble? hk.1 hk.2
    obtain ⟨y, hy, hyl⟩ := hb.exists_toDouble? hl.1 hl.2
    refine ⟨real (rounded x y), ?_, within_real.2 (hrounded x y hxk hyl)⟩
    rw [combine_of_not_whole h, hx, hy]
    rfl
  cases a with
  | real x => exact hreal (by simp)
  | whole m =>
    cases b with
    | real y => exact hreal (by simp)
    | whole n => exact ⟨whole (exact m n), rfl, rfl, hexact m n ha.abs_le hb.abs_le⟩

theorem Within.exists_add? (ha : a.Within k) (hb : b.Within k) (hlow : -1074 ≤ k)
    (hhigh : k ≤ 1021) : ∃ c, a.add? b = .ok c ∧ c.Within (k + 1) := by
  refine ha.exists_combine hb ⟨hlow, by omega⟩ ⟨hlow, by omega⟩ (fun m n hm hn => ?_)
    fun x y hx hy => hx.add hy (by omega) hhigh
  rw [Int.cast_add, zpow_add_one₀ (two_ne_zero' ℚ), mul_two]
  exact (abs_add_le _ _).trans (add_le_add hm hn)

theorem Within.exists_sub? (ha : a.Within k) (hb : b.Within k) (hlow : -1074 ≤ k)
    (hhigh : k ≤ 1021) : ∃ c, a.sub? b = .ok c ∧ c.Within (k + 1) := by
  refine ha.exists_combine hb ⟨hlow, by omega⟩ ⟨hlow, by omega⟩ (fun m n hm hn => ?_)
    fun x y hx hy => hx.sub hy (by omega) hhigh
  rw [Int.cast_sub, zpow_add_one₀ (two_ne_zero' ℚ), mul_two]
  exact (abs_sub _ _).trans (add_le_add hm hn)

theorem Within.exists_mul? (ha : a.Within k) (hb : b.Within l) (hk : -1074 ≤ k ∧ k ≤ 1022)
    (hl : -1074 ≤ l ∧ l ≤ 1022) (hlow : -1074 ≤ k + l) (hhigh : k + l ≤ 1022) :
    ∃ c, a.mul? b = .ok c ∧ c.Within (k + l) := by
  refine ha.exists_combine hb hk hl (fun m n hm hn => ?_) fun x y hx hy => hx.mul hy hlow hhigh
  rw [Int.cast_mul, abs_mul, zpow_add₀ (two_ne_zero' ℚ)]
  exact mul_le_mul hm hn (abs_nonneg _) (by positivity)

/-- Rounding does not carry an amount below a power of two. -/
theorem le_toRat_toDouble? {x : Double} (h : 2 ^ l ≤ a.toRat) (hx : a.toDouble? = .ok x) :
    2 ^ l ≤ x.toRat := by
  cases a with
  | real => cases hx; exact h
  | whole n =>
    obtain ⟨rfl, hfinite⟩ := Double.eq_of_ofInt?_eq_ok hx
    have hn : 0 ≤ n := toRat_whole_nonneg.1 (le_trans (by positivity) h)
    lift n to ℕ using hn
    simpa using Double.le_toRat_ofInt (m := 1) (e := l) (by norm_num) (by simpa [toRat] using h)
      hfinite

/-- The divisor is at least a power of two. -/
theorem Within.exists_div? (ha : a.Within k) (hb : b.Within j) (hk : -1074 ≤ k ∧ k ≤ 1022)
    (hj : -1074 ≤ j ∧ j ≤ 1022) (hl : 2 ^ l ≤ b.toRat) (hlow : -1074 ≤ k - l)
    (hhigh : k - l ≤ 1022) : ∃ q, a.div? b = .ok q ∧ q.Within (k - l) := by
  have hreal (h : ∀ m n, a = whole m → b ≠ whole n) :
      ∃ q, a.div? b = .ok q ∧ q.Within (k - l) := by
    obtain ⟨x, hx, hxk⟩ := ha.exists_toDouble? hk.1 hk.2
    obtain ⟨y, hy, hyj⟩ := hb.exists_toDouble? hj.1 hj.2
    refine ⟨x / y, ?_, hxk.div hyj.finite (le_toRat_toDouble? hl hy) hlow hhigh⟩
    rw [div?_of_not_whole h, hx, hy]
    rfl
  cases a with
  | real x => exact hreal (by simp)
  | whole m =>
    cases b with
    | real y => exact hreal (by simp)
    | whole n =>
      have hl : (2 : ℚ) ^ l ≤ n := hl
      have hn : (0 : ℚ) < n := lt_of_lt_of_le (by positivity) hl
      have hquotient : ((m.natAbs : ℕ) : ℚ) / (n.natAbs : ℕ) ≤ 2 ^ (k - l) := by
        rw [Nat.cast_natAbs, Nat.cast_natAbs, Int.cast_abs, Int.cast_abs, abs_of_pos hn,
          zpow_sub₀ (two_ne_zero' ℚ)]
        exact div_le_div₀ (by positivity) ha.abs_le (by positivity) hl
      have hpos : 0 < n := by exact_mod_cast hn
      have hwithin : (Double.ofQuotient (m < 0) m.natAbs n.natAbs).Within (k - l) :=
        Double.within_ofQuotient (Int.natAbs_pos.2 hpos.ne') hlow hhigh hquotient
      refine ⟨_, ?_, hwithin⟩
      rw [div?, if_neg hpos.le.not_gt]
      exact Double.ofIntQuotient?_of_isFinite hwithin.finite

theorem Within.exists_floor? (h : a.Within k) : a.floor? = .ok ⌊a.toRat⌋ := by
  cases a with
  | whole n => exact congrArg _ (Int.floor_intCast n).symm
  | real x => exact Double.floor?_of_isFinite h.finite

theorem two_pow_lt_tenPower {bits digits : ℕ} (h : bits < digits) : 2 ^ bits < tenPower digits :=
  (Nat.pow_le_pow_left (by norm_num) bits).trans_lt (Nat.pow_lt_pow_right (by norm_num) h)

/-- What is below a power of two has no more digits than that power has bits. -/
theorem checkWritable_of_abs_le {n : ℤ} (bits : ℕ) (hbits : bits < maxNumeralDigits)
    (h : |(n : ℚ)| ≤ 2 ^ bits) : checkWritable n = .ok () := by
  have hle : n.natAbs ≤ 2 ^ bits := by
    rw [← Int.cast_abs, Int.abs_eq_natAbs, Int.cast_natCast] at h
    exact_mod_cast h
  exact if_pos (hle.trans_lt (two_pow_lt_tenPower hbits))

theorem Within.exists_plainText? (h : a.Within k) (hhigh : k ≤ 1022) :
    ∃ text, a.plainText? = .ok text := by
  cases a with
  | real x => exact ⟨_, rfl⟩
  | whole n =>
    have hcheck : checkWritable n = .ok () := by
      refine checkWritable_of_abs_le k.toNat ?_ ?_
      · rw [maxNumeralDigits]
        omega
      · rw [← zpow_natCast]
        exact (h.mono (Int.self_le_toNat k)).abs_le
    refine ⟨toString n, ?_⟩
    rw [plainText?, hcheck]
    rfl

theorem isFinite_of_combine {exact : ℤ → ℤ → ℤ} {rounded : Double → Double → Double} {c : Amount}
    (hrounded : ∀ x y : Double, (rounded x y).isFinite = true →
      x.isFinite = true ∧ y.isFinite = true)
    (hc : combine exact rounded a b = .ok c) (h : c.isFinite = true) :
    a.isFinite = true ∧ b.isFinite = true := by
  by_cases hr : ∀ m n, a = whole m → b ≠ whole n
  · obtain ⟨x, y, hx, hy, rfl⟩ := combine_eq_ok hc hr
    obtain ⟨hfx, hfy⟩ := hrounded x y h
    exact ⟨isFinite_of_toDouble? hx hfx, isFinite_of_toDouble? hy hfy⟩
  · push Not at hr
    obtain ⟨m, n, rfl, rfl⟩ := hr
    exact ⟨rfl, rfl⟩

theorem isFinite_of_add? {c : Amount} (hc : a.add? b = .ok c) (h : c.isFinite = true) :
    a.isFinite = true ∧ b.isFinite = true :=
  isFinite_of_combine (fun _ _ => Double.isFinite_of_add) hc h

theorem isFinite_of_sub? {c : Amount} (hc : a.sub? b = .ok c) (h : c.isFinite = true) :
    a.isFinite = true ∧ b.isFinite = true :=
  isFinite_of_combine (fun _ _ => Double.isFinite_of_sub) hc h

theorem isFinite_of_mul? {c : Amount} (hc : a.mul? b = .ok c) (h : c.isFinite = true) :
    a.isFinite = true ∧ b.isFinite = true :=
  isFinite_of_combine (fun _ _ => Double.isFinite_of_mul) hc h

theorem isFinite_of_div? {q : Double} (hq : a.div? b = .ok q) (h : q.isFinite = true) :
    a.isFinite = true ∧ b.isNan = false := by
  by_cases hr : ∀ m n, a = whole m → b ≠ whole n
  · obtain ⟨x, y, hx, hy, rfl⟩ := div?_eq_ok hq hr
    obtain ⟨hfx, hny⟩ := Double.isFinite_of_div h
    refine ⟨isFinite_of_toDouble? hx hfx, ?_⟩
    cases b with
    | whole n => rfl
    | real z => cases hy; exact hny
  · push Not at hr
    obtain ⟨m, n, rfl, rfl⟩ := hr
    exact ⟨rfl, rfl⟩

theorem isFinite_of_floor? {n : ℤ} (h : a.floor? = .ok n) : a.isFinite = true := by
  cases a with
  | whole => rfl
  | real x => exact Double.isFinite_of_floor? h

end Amount

end TextGrammar
