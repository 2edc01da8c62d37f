import Mathlib.Algebra.Order.Field.Power
import Mathlib.Data.Rat.Floor
import Mathlib.Tactic.FieldSimp
import Mathlib.Tactic.Linarith
import Mathlib.Tactic.Positivity
import Mathlib.Tactic.Ring
import TextGrammar.Number.Amount

/-! Exact values of binary64 numbers, and how far an operation rounds away from them. -/
namespace TextGrammar

variable {num den m n : ℕ}

theorem le_nearest (h : 0 < den) (hm : m * den ≤ num) : m ≤ nearest num den := by
  have hb := @le_two_mul_nearest num den h
  by_contra hlt
  have hs : (nearest num den + 1) * den ≤ m * den := Nat.mul_le_mul_right den (by omega)
  have he : (nearest num den + 1) * den = den * nearest num den + den := by ring
  omega

theorem nearest_le (h : 0 < den) (hm : num ≤ m * den) : nearest num den ≤ m := by
  have hb := @two_mul_nearest_le num den h
  by_contra hlt
  have hs : (m + 1) * den ≤ nearest num den * den := Nat.mul_le_mul_right den (by omega)
  have he : (m + 1) * den = m * den + den := by ring
  have hc : nearest num den * den = den * nearest num den := Nat.mul_comm _ _
  omega

theorem nearest_mono (h : m ≤ n) : nearest m den ≤ nearest n den := by
  rcases Nat.lt_or_ge (m / den) (n / den) with hq | hq
  · have hm : nearest m den ≤ m / den + 1 := by
      simp only [nearest]
      split <;> omega
    have hn : n / den ≤ nearest n den := by
      simp only [nearest]
      split <;> omega
    omega
  · have he : m / den = n / den := Nat.le_antisymm (Nat.div_le_div_right h) hq
    have hm := Nat.div_add_mod m den
    have hn := Nat.div_add_mod n den
    simp only [nearest, he] at *
    split <;> split <;> simp_all
    omega

namespace Double

/-- The value of a finite number; the others have none, and count as zero. -/
def toRat : Double → ℚ
  | finite negative significand exponent => (signed negative significand : ℤ) * 2 ^ exponent
  | _ => 0

/-- The finite numbers of the format, if not in their only form. -/
def IsBinary64 : Double → Prop
  | finite _ significand exponent => significand < 2 ^ 53 ∧ -1074 ≤ exponent ∧ exponent ≤ 971
  | _ => True

@[simp] theorem toRat_finite_false (m : ℕ) (e : ℤ) : (finite false m e).toRat = m * 2 ^ e := by
  simp [toRat, signed]

@[simp] theorem toRat_finite_true (m : ℕ) (e : ℤ) : (finite true m e).toRat = -(m * 2 ^ e) := by
  simp [toRat, signed]

theorem scaled_pos (num : ℕ) (h : 0 < den) (exponent : ℤ) : 0 < (scaled num den exponent).2 := by
  simp only [scaled, Nat.shiftLeft_eq]
  positivity

theorem scaled_div (num den : ℕ) (exponent : ℤ) :
    ((scaled num den exponent).1 : ℚ) / (scaled num den exponent).2 = num / den * 2 ^ exponent := by
  simp only [scaled, Nat.shiftLeft_eq]
  push_cast
  rcases Int.le_total 0 exponent with h | h
  · obtain ⟨k, rfl⟩ := Int.eq_ofNat_of_zero_le h
    simp
    ring
  · obtain ⟨k, hk⟩ := Int.exists_eq_neg_ofNat h
    subst hk
    simp
    field_simp

/-- Rounding at an exponent keeps the sign and stays on the grid of that exponent. -/
theorem roundedAt_eq_finite {negative t : Bool} {exponent g : ℤ} {q : ℕ}
    (h : roundedAt negative exponent num den = finite t q g) :
    t = negative ∧ exponent ≤ g ∧ (q : ℚ) * 2 ^ g = nearest num den * 2 ^ exponent := by
  simp only [roundedAt] at h
  split at h
  · rename_i hn
    split at h <;> cases h
    refine ⟨rfl, by omega, ?_⟩
    rw [hn, zpow_add₀ (two_ne_zero' ℚ)]
    simp [twoPower]
    ring
  · split at h <;> cases h
    exact ⟨rfl, le_rfl, rfl⟩

/-- The exponent of the grid that a positive magnitude is rounded on. -/
def gridExponent (significand : ℕ) (exponent : ℤ) : ℤ :=
  max (-1074) (exponent + significand.log2 - 52)

theorem ofScaled_eq_finite {negative t : Bool} {exponent g : ℤ} {q : ℕ} (hm : m ≠ 0)
    (h : ofScaled negative m exponent = finite t q g) :
    t = negative ∧ gridExponent m exponent ≤ g ∧ (q : ℚ) * 2 ^ g =
      nearest (scaled m 1 (exponent - gridExponent m exponent)).1
        (scaled m 1 (exponent - gridExponent m exponent)).2 * 2 ^ gridExponent m exponent := by
  rw [ofScaled, if_neg hm] at h
  exact roundedAt_eq_finite h

theorem nearest_le_div_add (h : 0 < den) : (nearest num den : ℚ) ≤ num / den + 1 / 2 := by
  have hb : (2 : ℚ) * (den * nearest num den) ≤ 2 * num + den := by
    exact_mod_cast @two_mul_nearest_le num den h
  have hd : (0 : ℚ) < den := by exact_mod_cast h
  rw [← sub_le_iff_le_add, le_div_iff₀ hd]
  linarith

theorem two_zpow_log2_le (hm : m ≠ 0) : (2 : ℚ) ^ (m.log2 : ℤ) ≤ m := by
  rw [zpow_natCast]
  exact_mod_cast Nat.log2_self_le hm

theorem lt_two_zpow_log2 (n : ℕ) : (n : ℚ) < 2 ^ ((n.log2 : ℤ) + 1) := by
  have hlt : (n : ℚ) < 2 ^ (n.log2 + 1) := by exact_mod_cast @Nat.lt_log2_self n
  exact_mod_cast hlt

/-- A magnitude that is not too small is rounded up by at most one part in `2 ^ 53`. -/
theorem toRat_ofScaled_le {exponent : ℤ} (he : -1022 ≤ exponent + m.log2) :
    (ofScaled false m exponent).toRat ≤ m * 2 ^ exponent * (1 + 2 ^ (-53 : ℤ)) := by
  rcases Nat.eq_zero_or_pos m with rfl | hm
  · simp [ofScaled, toRat, signed]
  cases hf : ofScaled false m exponent with
  | nan | infinite =>
    simp only [toRat]
    positivity
  | finite t q g =>
    obtain ⟨rfl, -, hv⟩ := ofScaled_eq_finite hm.ne' hf
    have hg : gridExponent m exponent = exponent + m.log2 - 52 := by
      simp only [gridExponent]
      omega
    have hn := @nearest_le_div_add (scaled m 1 (exponent - gridExponent m exponent)).1 _
      (scaled_pos m one_pos (exponent - gridExponent m exponent))
    rw [scaled_div] at hn
    have hp : (0 : ℚ) < 2 ^ gridExponent m exponent := by positivity
    have hl := two_zpow_log2_le hm.ne'
    calc (finite false q g).toRat = q * 2 ^ g := toRat_finite_false q g
      _ ≤ (m / (1 : ℕ) * 2 ^ (exponent - gridExponent m exponent) + 1 / 2)
            * 2 ^ gridExponent m exponent := by
        rw [hv]
        exact mul_le_mul_of_nonneg_right hn hp.le
      _ = m * 2 ^ exponent + 2 ^ (m.log2 : ℤ) * 2 ^ exponent * 2 ^ (-53 : ℤ) := by
        rw [hg, add_mul, mul_assoc, ← zpow_add₀ (two_ne_zero' ℚ),
          ← zpow_add₀ (two_ne_zero' ℚ), ← zpow_add₀ (two_ne_zero' ℚ)]
        have h2 : (1 / 2 : ℚ) = 2 ^ (-1 : ℤ) := by norm_num
        rw [h2, ← zpow_add₀ (two_ne_zero' ℚ)]
        simp only [Nat.cast_one, div_one, sub_add_cancel]
        congr 2
        ring
      _ ≤ m * 2 ^ exponent + m * 2 ^ exponent * 2 ^ (-53 : ℤ) := by gcongr
      _ = m * 2 ^ exponent * (1 + 2 ^ (-53 : ℤ)) := by ring

theorem toRat_roundedAt_nonneg {exponent : ℤ} :
    0 ≤ (roundedAt false exponent num den).toRat := by
  simp only [roundedAt]
  split <;> split <;> simp [toRat, signed] <;> positivity

theorem toRat_ofScaled_nonneg {exponent : ℤ} : 0 ≤ (ofScaled false m exponent).toRat := by
  rw [ofScaled]
  split
  · simp [toRat, signed]
  · exact toRat_roundedAt_nonneg

theorem toRat_ofQuotient_nonneg : 0 ≤ (ofQuotient false num den).toRat := by
  rw [ofQuotient]
  split
  · simp [toRat, signed]
  · exact toRat_roundedAt_nonneg

theorem toRat_ofScaled_zero {negative : Bool} {exponent : ℤ} :
    (ofScaled negative 0 exponent).toRat = 0 := by
  cases negative <;> simp [ofScaled, toRat, signed]

theorem toRat_ofQuotient_zero {negative : Bool} : (ofQuotient negative 0 den).toRat = 0 := by
  cases negative <;> simp [ofQuotient, toRat, signed]

/-- A power of two as a shift of a smaller one. -/
theorem two_pow_toNat_mul {exponent target : ℤ} (h : target ≤ exponent) :
    (2 : ℚ) ^ (exponent - target).toNat * 2 ^ target = 2 ^ exponent := by
  have he : ((exponent - target).toNat : ℤ) = exponent - target := by omega
  rw [← zpow_natCast, he, ← zpow_add₀ (two_ne_zero' ℚ), sub_add_cancel]

theorem aligned_cast (negative : Bool) (m : ℕ) {exponent target : ℤ} (h : target ≤ exponent) :
    (aligned negative m exponent target : ℚ) * 2 ^ target
      = (finite negative m exponent).toRat := by
  have hz := two_pow_toNat_mul h
  cases negative <;> simp [aligned, signed, toRat, Nat.shiftLeft_eq, mul_assoc, hz]

theorem toRat_neg (x : Double) : (-x).toRat = -x.toRat := by
  cases x with
  | nan | infinite => exact neg_zero.symm
  | finite negative m exponent =>
    change (finite (!negative) m exponent).toRat = _
    cases negative <;> simp

theorem isFinite_neg (x : Double) : (-x).isFinite = x.isFinite := by cases x <;> rfl

@[simp] theorem abs_toRat_finite (negative : Bool) (m : ℕ) (e : ℤ) :
    |(finite negative m e).toRat| = m * 2 ^ e := by
  have hnonneg : (0 : ℚ) ≤ m * 2 ^ e := by positivity
  cases negative
  · rw [toRat_finite_false, abs_of_nonneg hnonneg]
  · rw [toRat_finite_true, abs_neg, abs_of_nonneg hnonneg]

theorem sign_of_toRat_nonneg {negative : Bool} {exponent : ℤ} (hm : m ≠ 0)
    (h : 0 ≤ (finite negative m exponent).toRat) : negative = false := by
  cases negative with
  | false => rfl
  | true =>
    have hp : (0 : ℚ) < m * 2 ^ exponent := by positivity
    rw [toRat_finite_true] at h
    linarith

/-- A sum is the exact one, rounded. If it is zero, it is positive unless both terms are negative. -/
theorem exists_add_finite (s t : Bool) (m n : ℕ) (e f : ℤ) :
    ∃ negative sum, finite s m e + finite t n f = ofScaled negative sum (min e f) ∧
      (finite negative sum (min e f)).toRat = (finite s m e).toRat + (finite t n f).toRat ∧
        (sum = 0 → negative = (s && t)) := by
  refine ⟨_, _, rfl, ?_, fun hzero => if_pos (Int.natAbs_eq_zero.1 hzero)⟩
  rw [← aligned_cast s m (min_le_left e f), ← aligned_cast t n (min_le_right e f), ← add_mul,
    ← Int.cast_add]
  generalize aligned s m e (min e f) + aligned t n f (min e f) = sum
  rw [toRat]
  congr 2
  split
  · rename_i hzero
    cases s && t <;> simp [signed, hzero]
  · rename_i hne
    rcases lt_or_gt_of_ne hne with hlt | hgt
    · rw [decide_eq_true hlt]
      simp only [signed, if_true]
      omega
    · rw [decide_eq_false (not_lt.2 hgt.le)]
      simp only [signed, Bool.false_eq_true, if_false]
      omega

theorem exists_add_eq {x y : Double} (hx : x.isFinite = true) (hy : y.isFinite = true) :
    ∃ negative m e, x + y = ofScaled negative m e ∧
      (finite negative m e).toRat = x.toRat + y.toRat := by
  cases x with
  | nan | infinite => cases hx
  | finite s m e =>
    cases y with
    | nan | infinite => cases hy
    | finite t n f =>
      obtain ⟨negative, sum, heq, hexact, -⟩ := exists_add_finite s t m n e f
      exact ⟨negative, sum, min e f, heq, hexact⟩

/-- A product is the exact one, rounded. -/
theorem exists_mul_eq {x y : Double} (hx : x.isFinite = true) (hy : y.isFinite = true) :
    ∃ negative m e, x * y = ofScaled negative m e ∧
      (finite negative m e).toRat = x.toRat * y.toRat := by
  cases x with
  | nan | infinite => cases hx
  | finite s m e =>
    cases y with
    | nan | infinite => cases hy
    | finite t n f =>
      refine ⟨_, _, _, rfl, ?_⟩
      have hsplit : (m : ℚ) * n * 2 ^ (e + f) = (m * 2 ^ e) * (n * 2 ^ f) := by
        rw [zpow_add₀ (two_ne_zero' ℚ)]
        ring
      cases s <;> cases t <;> simp [hsplit]

/-- A quotient is the exact one, rounded. -/
theorem exists_div_eq {x y : Double} (hx : x.isFinite = true) (hy : y.isFinite = true)
    (hne : y.toRat ≠ 0) :
    ∃ negative num den, 0 < den ∧ x / y = ofQuotient negative num den ∧
      (num : ℚ) / den = |x.toRat / y.toRat| := by
  cases x with
  | nan | infinite => cases hx
  | finite s m e =>
    cases y with
    | nan | infinite => cases hy
    | finite t n f =>
      have hn : n ≠ 0 := by
        rintro rfl
        cases t <;> simp at hne
      refine ⟨s != t, (scaled m n (e - f)).1, (scaled m n (e - f)).2,
        scaled_pos m (Nat.pos_of_ne_zero hn) _, ?_, ?_⟩
      · change div (finite s m e) (finite t n f) = _
        rw [div, if_neg hn]
      · rw [abs_div, abs_toRat_finite, abs_toRat_finite, scaled_div, zpow_sub₀ (two_ne_zero' ℚ)]
        field_simp

section Operands

variable {x y : Double}

theorem isFinite_of_add (h : (x + y).isFinite = true) : x.isFinite = true ∧ y.isFinite = true := by
  change (add x y).isFinite = true at h
  cases x with
  | nan => cases y <;> cases h
  | infinite s =>
    cases y with
    | nan | finite => cases h
    | infinite t =>
      rw [add] at h
      split at h <;> cases h
  | finite s m e =>
    cases y with
    | nan | infinite => cases h
    | finite t n f => exact ⟨rfl, rfl⟩

theorem isFinite_of_sub (h : (x - y).isFinite = true) : x.isFinite = true ∧ y.isFinite = true := by
  obtain ⟨hx, hy⟩ := isFinite_of_add (y := -y) h
  exact ⟨hx, (isFinite_neg y).symm.trans hy⟩

theorem isFinite_of_mul (h : (x * y).isFinite = true) : x.isFinite = true ∧ y.isFinite = true := by
  change (mul x y).isFinite = true at h
  cases x with
  | nan => cases y <;> cases h
  | infinite s =>
    cases y with
    | nan | infinite => cases h
    | finite t n f =>
      rw [mul] at h
      split at h <;> cases h
  | finite s m e =>
    cases y with
    | nan => cases h
    | infinite t =>
      rw [mul] at h
      split at h <;> cases h
    | finite t n f => exact ⟨rfl, rfl⟩

/-- A divisor of a finite quotient may be infinite, and the quotient is zero then. -/
theorem isFinite_of_div (h : (x / y).isFinite = true) : x.isFinite = true ∧ y.isNan = false := by
  change (div x y).isFinite = true at h
  cases x <;> cases y <;> simp_all [div, isFinite, isNan]

theorem isFinite_of_floor? {n : ℤ} (h : x.floor? = .ok n) : x.isFinite = true := by
  cases x with
  | nan | infinite => cases h
  | finite => rfl

end Operands

/-- What is not finite has no value, and counts as zero. -/
theorem toRat_of_not_isFinite {x : Double} (h : x.isFinite = false) : x.toRat = 0 := by
  cases x with
  | nan | infinite => rfl
  | finite => cases h

theorem toRat_ofScaled_nonneg_of {negative : Bool} {exponent : ℤ}
    (h : 0 ≤ (finite negative m exponent).toRat) : 0 ≤ (ofScaled negative m exponent).toRat := by
  rcases Nat.eq_zero_or_pos m with rfl | hm
  · exact toRat_ofScaled_zero.ge
  · rw [sign_of_toRat_nonneg hm.ne' h]
    exact toRat_ofScaled_nonneg

/-- A difference has the sign of the exact one, or none. -/
theorem toRat_sub_nonneg {x y : Double} (h : x.isFinite → y.isFinite → y.toRat ≤ x.toRat) :
    0 ≤ (x - y).toRat := by
  cases hf : (x - y).isFinite with
  | false => exact (toRat_of_not_isFinite hf).ge
  | true =>
    obtain ⟨hx, hy⟩ := isFinite_of_sub hf
    obtain ⟨negative, m, e, heq, hexact⟩ := exists_add_eq hx ((isFinite_neg y).trans hy)
    change 0 ≤ (x + -y).toRat
    rw [heq]
    refine toRat_ofScaled_nonneg_of ?_
    rw [hexact, toRat_neg]
    linarith [h hx hy]

theorem toRat_div_nonneg {x y : Double} (hx : 0 ≤ x.toRat) (hy : 0 ≤ y.toRat) :
    0 ≤ (x / y).toRat := by
  change 0 ≤ (div x y).toRat
  cases x with
  | nan => cases y <;> simp [div, toRat]
  | infinite => cases y <;> simp [div, toRat]
  | finite s m e =>
    cases y with
    | nan => simp [div, toRat]
    | infinite => simp [div, toRat, signed]
    | finite t n f =>
      simp only [div]
      split
      · split <;> simp [toRat]
      · rename_i hn
        rcases Nat.eq_zero_or_pos m with rfl | hm
        · simp [scaled, toRat_ofQuotient_zero]
        · have hs := sign_of_toRat_nonneg hm.ne' hx
          have ht := sign_of_toRat_nonneg hn hy
          rw [hs, ht]
          exact toRat_ofQuotient_nonneg

theorem floor?_eq_ok {x : Double} {k : ℤ} (h : x.floor? = .ok k) : k = ⌊x.toRat⌋ := by
  cases x with
  | nan | infinite => simp [floor?, toInt?, quotient?] at h
  | finite negative m exponent =>
    simp only [floor?, toInt?, quotient?, Except.ok.injEq] at h
    rw [← h, Int.fdiv_eq_ediv_of_nonneg _ (Int.natCast_nonneg _),
      ← Rat.floor_intCast_div_natCast]
    have hd := scaled_div m 1 exponent
    congr 1
    cases negative
    · simpa [signed] using hd
    · simpa [signed, neg_div] using hd

theorem ofInt_natCast (n : ℕ) : ofInt n = ofScaled false n 0 := by
  rw [ofInt, decide_eq_false (by omega), Int.natAbs_natCast]

/-- Positive integers are rounded on the grid that gives them 53 bits. -/
theorem ofInt_natCast_eq_roundedAt (hn : n ≠ 0) :
    ofInt n = roundedAt false ((n.log2 : ℤ) - 52) (n * 2 ^ (52 - n.log2)) (2 ^ (n.log2 - 52)) := by
  have hg : gridExponent n 0 = (n.log2 : ℤ) - 52 := by
    simp only [gridExponent]
    omega
  have hp : (0 - ((n.log2 : ℤ) - 52)).toNat = 52 - n.log2 := by omega
  have hd : (-(0 - ((n.log2 : ℤ) - 52))).toNat = n.log2 - 52 := by omega
  rw [ofInt_natCast, ofScaled, if_neg hn]
  change roundedAt false (gridExponent n 0) (scaled n 1 (0 - gridExponent n 0)).1
    (scaled n 1 (0 - gridExponent n 0)).2 = _
  simp only [hg, scaled, hp, hd, Nat.shiftLeft_eq, one_mul]

theorem ofInt_natCast_eq_finite {t : Bool} {g : ℤ} {q : ℕ} (hn : n ≠ 0)
    (h : ofInt n = finite t q g) :
    t = false ∧ -52 ≤ g ∧ (q : ℚ) * 2 ^ g =
      nearest (n * 2 ^ (52 - n.log2)) (2 ^ (n.log2 - 52)) * 2 ^ ((n.log2 : ℤ) - 52) := by
  rw [ofInt_natCast_eq_roundedAt hn] at h
  obtain ⟨ht, hg, hv⟩ := roundedAt_eq_finite h
  exact ⟨ht, by omega, hv⟩

/-- A number whose exponent is not below the one of a grid is on the grid. -/
theorem exists_onGrid (m : ℕ) {e grid : ℤ} (h : grid ≤ e) :
    ∃ i : ℕ, (m : ℚ) * 2 ^ e = i * 2 ^ grid := by
  refine ⟨m * 2 ^ (e - grid).toNat, ?_⟩
  push_cast
  rw [mul_assoc, two_pow_toNat_mul h]

/-- With an exponent below, a number of the format is below all points of 53 bits. -/
theorem lt_of_below_grid {e grid : ℤ} (hm : m < 2 ^ 53) (h : e < grid) :
    (m : ℚ) * 2 ^ e < 2 ^ (grid + 52) := by
  have hm' : (m : ℚ) < 2 ^ (53 : ℤ) := by exact_mod_cast hm
  calc (m : ℚ) * 2 ^ e < 2 ^ (53 : ℤ) * 2 ^ e := by gcongr
    _ = 2 ^ (53 + e) := (zpow_add₀ (by norm_num) _ _).symm
    _ ≤ 2 ^ (grid + 52) := zpow_le_zpow_right₀ (by norm_num) (by omega)

/-- Rounding does not go below a number of the format. -/
theorem le_toRat_ofScaled {e g : ℤ} {q : ℕ} (hq : q < 2 ^ 53)
    (hg : gridExponent m e ≤ g ∨ gridExponent m e = e + m.log2 - 52)
    (h : (q : ℚ) * 2 ^ g ≤ m * 2 ^ e) (hf : (ofScaled false m e).isFinite) :
    (q : ℚ) * 2 ^ g ≤ (ofScaled false m e).toRat := by
  rcases Nat.eq_zero_or_pos m with rfl | hm
  · rw [toRat_ofScaled_zero]
    simpa using h
  cases hx : ofScaled false m e with
  | nan | infinite => simp [hx, isFinite] at hf
  | finite t p f =>
    obtain ⟨rfl, -, hv⟩ := ofScaled_eq_finite hm.ne' hx
    have hden := scaled_pos m one_pos (e - gridExponent m e)
    -- in units of the grid, the nearest point is at least every whole number up to the magnitude
    have hunits {i : ℕ} (hi : (i : ℚ) * 2 ^ gridExponent m e ≤ m * 2 ^ e) :
        i ≤ nearest (scaled m 1 (e - gridExponent m e)).1 (scaled m 1 (e - gridExponent m e)).2 := by
      refine le_nearest hden ?_
      have hscaled : (i : ℚ) * (scaled m 1 (e - gridExponent m e)).2 ≤
          (scaled m 1 (e - gridExponent m e)).1 := by
        rw [← le_div_iff₀ (by exact_mod_cast hden), scaled_div, Nat.cast_one, div_one, zpow_sub₀
          (two_ne_zero' ℚ), ← mul_div_assoc, le_div_iff₀ (by positivity)]
        exact hi
      exact_mod_cast hscaled
    rw [toRat_finite_false, hv]
    rcases le_or_gt (gridExponent m e) g with hgrid | hgrid
    · obtain ⟨i, hi⟩ := exists_onGrid q hgrid
      rw [hi] at h ⊢
      have hnearest := hunits h
      gcongr
    · have hexponent : gridExponent m e + 52 = m.log2 + e := by
        have := hg.resolve_left (not_le.2 hgrid)
        omega
      have hlow : (2 : ℚ) ^ (gridExponent m e + 52) ≤ m * 2 ^ e := by
        rw [hexponent, zpow_add₀ (two_ne_zero' ℚ)]
        gcongr
        exact two_zpow_log2_le hm.ne'
      have hpower : (2 : ℚ) ^ (gridExponent m e + 52) = (2 ^ 52 : ℕ) * 2 ^ gridExponent m e := by
        rw [zpow_add₀ (two_ne_zero' ℚ), mul_comm]
        norm_num
      have hnearest := hunits (hpower ▸ hlow)
      calc (q : ℚ) * 2 ^ g ≤ 2 ^ (gridExponent m e + 52) := (lt_of_below_grid hq hgrid).le
        _ = (2 ^ 52 : ℕ) * 2 ^ gridExponent m e := hpower
        _ ≤ _ := by gcongr

/-- Rounding does not go beyond a number of the format. -/
theorem toRat_ofScaled_le_of_le {e g : ℤ} {q : ℕ} (hq : q < 2 ^ 53)
    (hg : gridExponent m e ≤ g ∨ gridExponent m e = e + m.log2 - 52)
    (h : (m : ℚ) * 2 ^ e ≤ q * 2 ^ g) : (ofScaled false m e).toRat ≤ q * 2 ^ g := by
  rcases Nat.eq_zero_or_pos m with rfl | hm
  · rw [toRat_ofScaled_zero]
    positivity
  cases hx : ofScaled false m e with
  | nan | infinite =>
    simp only [toRat]
    positivity
  | finite t p f =>
    obtain ⟨rfl, -, hv⟩ := ofScaled_eq_finite hm.ne' hx
    have hden := scaled_pos m one_pos (e - gridExponent m e)
    rw [toRat_finite_false, hv]
    rcases le_or_gt (gridExponent m e) g with hgrid | hgrid
    · obtain ⟨i, hi⟩ := exists_onGrid q hgrid
      rw [hi] at h ⊢
      have hunits : ((scaled m 1 (e - gridExponent m e)).1 : ℚ) ≤
          i * (scaled m 1 (e - gridExponent m e)).2 := by
        rw [← div_le_iff₀ (by exact_mod_cast hden), scaled_div, Nat.cast_one, div_one, zpow_sub₀
          (two_ne_zero' ℚ), ← mul_div_assoc, div_le_iff₀ (by positivity)]
        exact h
      have hnearest := nearest_le hden (by exact_mod_cast hunits)
      gcongr
    · have hexponent : gridExponent m e + 52 = m.log2 + e := by
        have := hg.resolve_left (not_le.2 hgrid)
        omega
      have hbelow := lt_of_below_grid hq hgrid
      rw [hexponent, zpow_add₀ (two_ne_zero' ℚ)] at hbelow
      have hlow : (2 : ℚ) ^ (m.log2 : ℤ) * 2 ^ e ≤ m * 2 ^ e := by
        gcongr
        exact two_zpow_log2_le hm.ne'
      linarith

/-- A number of the format is not rounded. -/
theorem toRat_ofScaled_eq {e g : ℤ} {q : ℕ} (hq : q < 2 ^ 53) (hg : -1074 ≤ g)
    (h : (m : ℚ) * 2 ^ e = q * 2 ^ g) (hfinite : (ofScaled false m e).isFinite = true) :
    (ofScaled false m e).toRat = q * 2 ^ g := by
  have hgrid : gridExponent m e ≤ g ∨ gridExponent m e = e + m.log2 - 52 := by
    simp only [gridExponent]
    omega
  refine le_antisymm (toRat_ofScaled_le_of_le hq hgrid h.le) ?_
  exact le_toRat_ofScaled hq hgrid h.ge hfinite

theorem gridExponent_natCast (n : ℕ) : gridExponent n 0 = 0 + n.log2 - 52 := by
  simp only [gridExponent]
  omega

theorem le_toRat_ofInt {e : ℤ} (hm : m < 2 ^ 53) (h : (m : ℚ) * 2 ^ e ≤ n)
    (hf : (ofInt n).isFinite) : (m : ℚ) * 2 ^ e ≤ (ofInt n).toRat := by
  rw [ofInt_natCast] at hf ⊢
  exact le_toRat_ofScaled hm (.inr (gridExponent_natCast n)) (by rwa [zpow_zero, mul_one]) hf

theorem toRat_ofInt_le {e : ℤ} (hm : m < 2 ^ 53) (h : (n : ℚ) ≤ m * 2 ^ e) :
    (ofInt n).toRat ≤ m * 2 ^ e := by
  rw [ofInt_natCast]
  exact toRat_ofScaled_le_of_le hm (.inr (gridExponent_natCast n)) (by rwa [zpow_zero, mul_one])

end Double

end TextGrammar
