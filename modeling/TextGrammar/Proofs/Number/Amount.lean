import TextGrammar.Proofs.Number.Exact
import TextGrammar.Proofs.Result

/-! Comparison and conversion of amounts: rounding never reverses the order of two amounts. -/
namespace TextGrammar

namespace Double

theorem roundedAt_not (negative : Bool) (exponent : ℤ) (num den : ℕ) :
    roundedAt (!negative) exponent num den = -roundedAt negative exponent num den := by
  simp only [roundedAt]
  split <;> split <;> rfl

theorem ofScaled_not (negative : Bool) (m : ℕ) (exponent : ℤ) :
    ofScaled (!negative) m exponent = -ofScaled negative m exponent := by
  simp only [ofScaled]
  split
  · rfl
  · exact roundedAt_not ..

theorem ofInt_neg {n : ℤ} (h : n ≠ 0) : ofInt (-n) = -ofInt n := by
  have hd : decide (-n < 0) = !decide (n < 0) := by
    rw [← decide_not]
    exact decide_eq_decide.2 (by omega)
  rw [ofInt, hd, Int.natAbs_neg, ofScaled_not, ofInt]

theorem isBinary64_neg {x : Double} (h : x.IsBinary64) : (-x).IsBinary64 := by
  cases x <;> exact h

theorem toRat_le_toRat_ofInt {x : Double} {n : ℤ} (hx : x.IsBinary64) (h : x.toRat ≤ n)
    (hf : (ofInt n).isFinite) : x.toRat ≤ (ofInt n).toRat := by
  rcases lt_trichotomy n 0 with hn | rfl | hn
  · obtain ⟨k, rfl⟩ : ∃ k : ℕ, n = -k := ⟨n.natAbs, by omega⟩
    have hk : k ≠ 0 := by omega
    rw [ofInt_neg (by omega), toRat_neg]
    have hneg : x.toRat < 0 := h.trans_lt (by exact_mod_cast hn)
    cases x with
    | nan | infinite => simp [toRat] at hneg
    | finite negative m e =>
      cases negative with
      | false =>
        have : (0 : ℚ) ≤ m * 2 ^ e := by positivity
        rw [toRat_finite_false] at hneg
        linarith
      | true =>
        rw [toRat_finite_true] at h ⊢
        push_cast at h
        have hle := toRat_ofInt_le hx.1 (by linarith : (k : ℚ) ≤ m * 2 ^ e)
        linarith
  · simpa [ofInt, toRat_ofScaled_zero] using h
  · obtain ⟨k, rfl⟩ : ∃ k : ℕ, n = k := ⟨n.toNat, by omega⟩
    have hpos : 0 ≤ (ofInt k).toRat := by
      rw [ofInt, decide_eq_false (by omega)]
      exact toRat_ofScaled_nonneg
    cases x with
    | nan | infinite => exact hpos
    | finite negative m e =>
      cases negative with
      | false =>
        rw [toRat_finite_false] at h ⊢
        exact le_toRat_ofInt hx.1 h hf
      | true =>
        refine le_trans ?_ hpos
        have : (0 : ℚ) ≤ m * 2 ^ e := by positivity
        rw [toRat_finite_true]
        linarith

theorem toRat_ofInt_le_toRat {x : Double} {n : ℤ} (hx : x.IsBinary64) (h : n ≤ x.toRat)
    (hf : (ofInt n).isFinite) : (ofInt n).toRat ≤ x.toRat := by
  rcases eq_or_ne n 0 with rfl | hn
  · simpa [ofInt, toRat_ofScaled_zero] using h
  · have hle := @toRat_le_toRat_ofInt (-x) (-n) (isBinary64_neg hx)
      (by rw [toRat_neg]; push_cast; linarith) (by rwa [ofInt_neg hn, isFinite_neg])
    rw [ofInt_neg hn, toRat_neg, toRat_neg] at hle
    linarith

theorem roundedAt_eq_infinite_iff {negative : Bool} {exponent : ℤ} {num den : ℕ} :
    (∃ s, roundedAt negative exponent num den = infinite s) ↔
      971 < exponent ∨ exponent = 971 ∧ nearest num den = twoPower 53 := by
  simp only [roundedAt]
  by_cases hq : nearest num den = twoPower 53
  · rw [if_pos hq]
    by_cases he : exponent ≥ 971
    · rw [if_pos he]
      refine ⟨fun _ => ?_, fun _ => ⟨_, rfl⟩⟩
      rcases he.lt_or_eq with h | h
      · exact Or.inl h
      · exact Or.inr ⟨h.symm, hq⟩
    · rw [if_neg he]
      constructor
      · rintro ⟨_, h⟩
        cases h
      · rintro (h | ⟨h, -⟩) <;> omega
  · rw [if_neg hq]
    by_cases he : exponent > 971
    · rw [if_pos he]
      exact ⟨fun _ => Or.inl he, fun _ => ⟨_, rfl⟩⟩
    · rw [if_neg he]
      constructor
      · rintro ⟨_, h⟩
        cases h
      · rintro (h | ⟨-, h⟩)
        · exact absurd h he
        · exact absurd h hq

theorem ofInt?_eq_error_iff {n : ℤ} :
    (∃ fault, ofInt? n = .error fault) ↔ ∃ s, ofInt n = infinite s := by
  simp only [ofInt?]
  constructor
  · rintro ⟨fault, h⟩
    split at h
    · exact ⟨_, ‹_›⟩
    · cases h
  · rintro ⟨s, h⟩
    rw [h]
    exact ⟨_, rfl⟩

theorem ofInt?_of_isFinite {n : ℤ} (h : (ofInt n).isFinite = true) : ofInt? n = .ok (ofInt n) := by
  rw [ofInt?]
  cases hx : ofInt n with
  | nan | finite => rfl
  | infinite => simp [hx, isFinite] at h

theorem ofIntQuotient?_of_isFinite {num : ℤ} {den : ℕ}
    (h : (ofQuotient (num < 0) num.natAbs den).isFinite = true) :
    ofIntQuotient? num den = .ok (ofQuotient (num < 0) num.natAbs den) := by
  rw [ofIntQuotient?]
  cases hx : ofQuotient (num < 0) num.natAbs den with
  | nan | finite => rfl
  | infinite => simp [hx, isFinite] at h

/-- An integer is in range if a larger one is. -/
theorem ofInt?_ok_of_le {m n : ℕ} (h : m ≤ n) (hn : ∃ x, ofInt? n = .ok x) :
    ∃ x, ofInt? m = .ok x := by
  obtain ⟨x, hx⟩ := hn
  cases hm : ofInt? m with
  | ok y => exact ⟨y, rfl⟩
  | error fault =>
    exfalso
    rcases Nat.eq_zero_or_pos m with rfl | hpos
    · cases hm
    have hlog : m.log2 ≤ n.log2 := by
      rw [Nat.le_log2 (by omega)]
      exact (Nat.log2_self_le hpos.ne').trans h
    have hover : ∃ fault, ofInt? n = .error fault := by
      have hinf := ofInt?_eq_error_iff.1 ⟨fault, hm⟩
      rw [ofInt_natCast_eq_roundedAt hpos.ne', roundedAt_eq_infinite_iff] at hinf
      rw [ofInt?_eq_error_iff, ofInt_natCast_eq_roundedAt (by omega), roundedAt_eq_infinite_iff]
      rcases hinf with hl | ⟨hl, hq⟩
      · left
        omega
      · rcases hlog.lt_or_eq with hlt | heq
        · left
          omega
        · right
          refine ⟨by omega, le_antisymm (nearest_le (by positivity) ?_) ?_⟩
          · rw [show 52 - n.log2 = 0 by omega, pow_zero, mul_one]
            calc n ≤ 2 ^ (n.log2 + 1) := (@Nat.lt_log2_self n).le
              _ = 2 ^ (53 + (n.log2 - 52)) := by
                congr 1
                omega
              _ = twoPower 53 * 2 ^ (n.log2 - 52) := pow_add 2 53 _
          · rw [← hq, heq]
            exact nearest_mono (Nat.mul_le_mul_right _ h)
    obtain ⟨fault, hf⟩ := hover
    rw [hx] at hf
    cases hf

theorem compareQuotient?_eq_compare {x : Double} (n : ℤ) (hf : x.isFinite) :
    x.compareQuotient? n 1 = some (compare x.toRat n) := by
  cases x with
  | nan | infinite => simp [isFinite] at hf
  | finite negative m e =>
    have hd : (0 : ℚ) < (scaled m 1 e).2 := by exact_mod_cast scaled_pos m one_pos e
    have hv : (finite negative m e).toRat * (scaled m 1 e).2
        = signed negative (scaled m 1 e).1 := by
      have hs := scaled_div m 1 e
      rw [div_eq_iff hd.ne'] at hs
      cases negative <;> simp [signed, hs]
    have hmono : StrictMono fun q : ℚ => q * (scaled m 1 e).2 :=
      fun a b hab => mul_lt_mul_of_pos_right hab hd
    have hcast : StrictMono fun k : ℤ => (k : ℚ) := Int.cast_strictMono
    simp only [compareQuotient?, Option.some.injEq]
    rw [← cmp_eq_compare, ← cmp_eq_compare]
    have hn : (n : ℚ) * (scaled m 1 e).2 = ((n * (scaled m 1 e).2 : ℤ) : ℚ) := by
      push_cast
      ring
    rw [← hmono.cmp_map_eq, ← hcast.cmp_map_eq, hv, hn, Nat.cast_one, mul_one]

theorem compare_mul_zpow (m n : ℕ) (e : ℤ) :
    compare ((m : ℚ) * 2 ^ e) (n * 2 ^ e) = compare m n := by
  have hmono : StrictMono fun k : ℕ => (k : ℚ) * 2 ^ e :=
    fun a b hab => mul_lt_mul_of_pos_right (Nat.cast_lt.2 hab) (by positivity)
  rw [← cmp_eq_compare, ← cmp_eq_compare]
  exact hmono.cmp_map_eq m n

theorem shiftLeft_mul_zpow (m : ℕ) {e f : ℤ} (h : f ≤ e) :
    ((m <<< (e - f).toNat : ℕ) : ℚ) * 2 ^ f = m * 2 ^ e := by
  rw [Nat.shiftLeft_eq, ← two_pow_toNat_mul h, ← mul_assoc]
  push_cast
  rfl

theorem compareMagnitudes_eq_compare (m n : ℕ) (e f : ℤ) :
    compareMagnitudes m e n f = compare ((m : ℚ) * 2 ^ e) (n * 2 ^ f) := by
  rw [compareMagnitudes]
  split
  · rename_i he
    rw [← shiftLeft_mul_zpow n he, compare_mul_zpow]
  · rename_i he
    rw [← shiftLeft_mul_zpow m (not_le.1 he).le, compare_mul_zpow]

/-- Finite numbers compare as their values do. -/
theorem compare?_eq_compare {x y : Double} (hx : x.isFinite) (hy : y.isFinite) :
    x.compare? y = some (compare x.toRat y.toRat) := by
  cases x with
  | nan | infinite => simp [isFinite] at hx
  | finite s m e =>
    cases y with
    | nan | infinite => simp [isFinite] at hy
    | finite t n f =>
      have hm : (0 : ℚ) ≤ m * 2 ^ e := by positivity
      have hn : (0 : ℚ) ≤ n * 2 ^ f := by positivity
      simp only [compare?, Option.some.injEq]
      split
      · rename_i hzero
        obtain ⟨rfl, rfl⟩ : m = 0 ∧ n = 0 := by simpa using hzero
        cases s <;> cases t <;> simp
      · rename_i hzero
        have hpos : (0 : ℚ) < m * 2 ^ e + n * 2 ^ f := by
          rcases Nat.eq_zero_or_pos m with rfl | hm
          · have : 0 < n := Nat.pos_of_ne_zero (by simpa using hzero)
            positivity
          · positivity
        cases s <;> cases t
        · simpa using compareMagnitudes_eq_compare m n e f
        · refine (compare_gt_iff_gt.2 ?_).symm
          rw [toRat_finite_false, toRat_finite_true]
          linarith
        · refine (compare_lt_iff_lt.2 ?_).symm
          rw [toRat_finite_false, toRat_finite_true]
          linarith
        · have hneg : StrictAnti fun q : ℚ => -q := fun a b hab => neg_lt_neg hab
          rw [toRat_finite_true, toRat_finite_true, ← cmp_eq_compare, hneg.cmp_map_eq,
            cmp_eq_compare]
          exact compareMagnitudes_eq_compare n m f e

theorem toRat_of_isZero {x : Double} (h : x.isZero = true) : x.isFinite = true ∧ x.toRat = 0 := by
  cases x with
  | nan | infinite => cases h
  | finite negative significand exponent =>
    obtain rfl : significand = 0 := by simpa [isZero] using h
    exact ⟨rfl, by simp [toRat, signed]⟩

theorem le_iff_toRat_le {x y : Double} (hx : x.isFinite) (hy : y.isFinite) :
    x.le y = true ↔ x.toRat ≤ y.toRat := by
  rw [le, compare?_eq_compare hx hy, ← not_lt, ← compare_gt_iff_gt]
  cases compare x.toRat y.toRat <;> simp

theorem eq_of_ofInt?_eq_ok {n : ℤ} {x : Double} (h : ofInt? n = .ok x) :
    x = ofInt n ∧ x.isFinite := by
  have hn : ofInt n ≠ nan := by
    simp only [ofInt, ofScaled, roundedAt]
    split
    · simp
    · split <;> split <;> simp
  simp only [ofInt?] at h
  split at h
  · cases h
  · rename_i hi
    cases h
    refine ⟨rfl, ?_⟩
    cases hx : ofInt n with
    | nan => exact absurd hx hn
    | infinite s => exact absurd hx (hi s)
    | finite => rfl

end Double

namespace Amount

/-- A whole number, or a number of the format. -/
def IsNumber : Amount → Prop
  | whole _ => True
  | real x => x.IsBinary64

/-- The exact value, if there is one. -/
def toRat : Amount → ℚ
  | whole n => n
  | real x => x.toRat

/-- A whole number, or a binary64 number that has a value. -/
def isFinite : Amount → Bool
  | whole _ => true
  | real x => x.isFinite

theorem isFinite_of_toDouble? {a : Amount} {x : Double} (hx : a.toDouble? = .ok x)
    (h : x.isFinite = true) : a.isFinite = true := by
  cases a with
  | whole n => rfl
  | real y => cases hx; exact h

@[simp] theorem toRat_zero : (0 : Amount).toRat = 0 := Int.cast_zero

/-- Amounts compare as their values do, however they are written. -/
theorem compare?_eq_compare {a b : Amount} (ha : a.isFinite = true) (hb : b.isFinite = true) :
    a.compare? b = some (compare a.toRat b.toRat) := by
  cases a with
  | whole m =>
    cases b with
    | whole n =>
      rw [compare?, toRat, toRat, ← cmp_eq_compare, ← cmp_eq_compare,
        (Int.cast_strictMono (R := ℚ)).cmp_map_eq]
    | real y =>
      rw [compare?, Double.compareQuotient?_eq_compare m hb, Option.map_some,
        ← Std.OrientedOrd.eq_swap]
      rfl
  | real x =>
    cases b with
    | whole n => exact Double.compareQuotient?_eq_compare n ha
    | real y => exact Double.compare?_eq_compare ha hb

theorem compare?_eq_none_or_gt {a b : Amount} (h : a.le b = false) :
    a.compare? b = none ∨ a.compare? b = some .gt := by
  rw [le] at h
  cases hc : a.compare? b with
  | none => exact Or.inl rfl
  | some order => cases order <;> simp_all

theorem toRat_lt_of_le_eq_false {a b : Amount} (ha : a.isFinite = true) (hb : b.isFinite = true)
    (h : a.le b = false) : b.toRat < a.toRat := by
  have hc := compare?_eq_none_or_gt h
  rw [compare?_eq_compare ha hb] at hc
  simpa [compare_gt_iff_gt] using hc

/-- What a difference becomes when one of the amounts is no whole number. -/
theorem toRat_le_of_compare? {x y : Double} {a b : Amount} (ha : a.IsNumber) (hb : b.IsNumber)
    (h : a.le b = false) (hr : ∀ m n, a = whole m → b ≠ whole n) (hx : a.toDouble? = .ok x)
    (hy : b.toDouble? = .ok y) (hfx : x.isFinite) (hfy : y.isFinite) : y.toRat ≤ x.toRat := by
  have hlt := toRat_lt_of_le_eq_false (isFinite_of_toDouble? hx hfx) (isFinite_of_toDouble? hy hfy) h
  cases a with
  | whole m =>
    obtain ⟨rfl, -⟩ := Double.eq_of_ofInt?_eq_ok hx
    cases b with
    | whole n => exact absurd rfl (hr m n rfl)
    | real y' =>
      cases hy
      exact Double.toRat_le_toRat_ofInt hb hlt.le hfx
  | real x' =>
    cases hx
    cases b with
    | whole n =>
      obtain ⟨rfl, -⟩ := Double.eq_of_ofInt?_eq_ok hy
      exact Double.toRat_ofInt_le_toRat ha hlt.le hfy
    | real y' =>
      cases hy
      exact hlt.le

theorem eq_ok_of_toDouble? {α : Type} {f : Double → Double → α} {a b : Amount} {w : α}
    (h : (do return f (← a.toDouble?) (← b.toDouble?)) = Except.ok (ε := NumberFault) w) :
    ∃ x y, a.toDouble? = .ok x ∧ b.toDouble? = .ok y ∧ w = f x y := by
  obtain ⟨x, hx, h⟩ := bind_eq_ok.1 h
  obtain ⟨y, hy, h⟩ := bind_eq_ok.1 h
  exact ⟨x, y, hx, hy, (pure_eq_ok.1 h).symm⟩

section NotWhole

variable {a b : Amount}

/-- Unless both amounts are whole, they are combined as binary64 numbers. -/
theorem combine_of_not_whole {exact : ℤ → ℤ → ℤ} {rounded : Double → Double → Double}
    (hr : ∀ m n, a = whole m → b ≠ whole n) :
    combine exact rounded a b = do return real (rounded (← a.toDouble?) (← b.toDouble?)) := by
  cases a with
  | whole m =>
    cases b with
    | whole n => exact absurd rfl (hr m n rfl)
    | real y => rfl
  | real x => cases b <;> rfl

theorem div?_of_not_whole (hr : ∀ m n, a = whole m → b ≠ whole n) :
    a.div? b = do return (← a.toDouble?) / (← b.toDouble?) := by
  cases a with
  | whole m =>
    cases b with
    | whole n => exact absurd rfl (hr m n rfl)
    | real y => rfl
  | real x => cases b <;> rfl

theorem combine_eq_ok {exact : ℤ → ℤ → ℤ} {rounded : Double → Double → Double} {w : Amount}
    (h : combine exact rounded a b = .ok w) (hr : ∀ m n, a = whole m → b ≠ whole n) :
    ∃ x y, a.toDouble? = .ok x ∧ b.toDouble? = .ok y ∧ w = real (rounded x y) :=
  eq_ok_of_toDouble? (f := fun x y => real (rounded x y)) (by rwa [combine_of_not_whole hr] at h)

theorem div?_eq_ok {q : Double} (h : a.div? b = .ok q) (hr : ∀ m n, a = whole m → b ≠ whole n) :
    ∃ x y, a.toDouble? = .ok x ∧ b.toDouble? = .ok y ∧ q = x / y :=
  eq_ok_of_toDouble? (f := (· / ·)) (by rwa [div?_of_not_whole hr] at h)

end NotWhole

theorem toRat_whole_nonneg {n : ℤ} : 0 ≤ (whole n).toRat ↔ 0 ≤ n := Int.cast_nonneg_iff

/-- The difference of amounts in order is not negative, also when it is rounded. -/
theorem toRat_sub?_nonneg {a b w : Amount} (ha : a.IsNumber) (hb : b.IsNumber)
    (h : a.le b = false) (hw : a.sub? b = .ok w) : 0 ≤ w.toRat := by
  by_cases hr : ∀ m n, a = whole m → b ≠ whole n
  · obtain ⟨x, y, hx, hy, rfl⟩ := combine_eq_ok hw hr
    exact Double.toRat_sub_nonneg fun hfx hfy => toRat_le_of_compare? ha hb h hr hx hy hfx hfy
  · push Not at hr
    obtain ⟨m, n, rfl, rfl⟩ := hr
    cases hw
    rcases compare?_eq_none_or_gt h with hc | hc
    · cases hc
    · simp only [compare?, Option.some.injEq, compare_gt_iff_gt] at hc
      exact toRat_whole_nonneg.2 (Int.sub_nonneg.2 hc.le)

theorem toRat_toDouble?_nonneg {a : Amount} {x : Double} (ha : 0 ≤ a.toRat)
    (h : a.toDouble? = .ok x) : 0 ≤ x.toRat := by
  cases a with
  | real => cases h; exact ha
  | whole n =>
    obtain ⟨rfl, -⟩ := Double.eq_of_ofInt?_eq_ok h
    rw [Double.ofInt, decide_eq_false (not_lt.2 (toRat_whole_nonneg.1 ha))]
    exact Double.toRat_ofScaled_nonneg

theorem toRat_div?_nonneg {a b : Amount} {x : Double} (ha : 0 ≤ a.toRat) (hb : 0 ≤ b.toRat)
    (h : a.div? b = .ok x) : 0 ≤ x.toRat := by
  by_cases hr : ∀ m n, a = whole m → b ≠ whole n
  · obtain ⟨y, z, hy, hz, rfl⟩ := div?_eq_ok h hr
    exact Double.toRat_div_nonneg (toRat_toDouble?_nonneg ha hy) (toRat_toDouble?_nonneg hb hz)
  · push Not at hr
    obtain ⟨m, n, rfl, rfl⟩ := hr
    rw [div?, if_neg (not_lt.2 (toRat_whole_nonneg.1 hb))] at h
    simp only [Double.ofIntQuotient?] at h
    split at h
    · cases h
    · cases h
      rw [decide_eq_false (not_lt.2 (toRat_whole_nonneg.1 ha))]
      exact Double.toRat_ofQuotient_nonneg

/-- What is not finite has no value, and counts as zero. -/
theorem toRat_of_not_isFinite {a : Amount} (h : a.isFinite = false) : a.toRat = 0 := by
  cases a with
  | whole n => cases h
  | real x => exact Double.toRat_of_not_isFinite h

theorem toRat_nonneg_of_not_lt_zero {a : Amount} (h : a.lt 0 = false) : 0 ≤ a.toRat := by
  cases hf : a.isFinite with
  | false => exact (toRat_of_not_isFinite hf).ge
  | true =>
    refine not_lt.1 fun hneg => ?_
    rw [lt, compare?_eq_compare hf rfl, toRat_zero, compare_lt_iff_lt.2 hneg] at h
    cases h

theorem toRat_nonneg_of_not_le_zero {a : Amount} (h : a.le 0 = false) : 0 ≤ a.toRat := by
  apply toRat_nonneg_of_not_lt_zero
  rcases compare?_eq_none_or_gt h with hc | hc <;> rw [lt, hc]

theorem lt_whole (m n : ℤ) : (whole m).lt (whole n) = decide (m < n) := by
  rw [lt, compare?]
  cases hc : compare m n with
  | lt => simp [compare_lt_iff_lt.1 hc]
  | eq => simp [compare_eq_iff_eq.1 hc]
  | gt => simp [(compare_gt_iff_gt.1 hc).le]

end Amount

end TextGrammar
