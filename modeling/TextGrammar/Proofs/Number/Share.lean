import TextGrammar.Data.Operations
import TextGrammar.Proofs.Number.Magnitude

/-! Shares of a natural number: a part of it, without the fraction, is not above it. -/
namespace TextGrammar

variable {m : ℕ}

namespace Double

/-- Up to `2 ^ 53`, a natural is a number of the format. -/
theorem exists_significand {n : ℕ} (h : n ≤ 2 ^ 53) :
    ∃ (q : ℕ) (g : ℤ), q < 2 ^ 53 ∧ -1074 ≤ g ∧ (n : ℚ) = q * 2 ^ g := by
  rcases h.lt_or_eq with hlt | rfl
  · exact ⟨n, 0, hlt, by norm_num, by simp⟩
  · exact ⟨2 ^ 52, 1, by norm_num, by norm_num, by norm_num⟩

/-- A product with a factor between zero and one is rounded from a value between zero and the other
factor. -/
theorem exists_mul_eq_ofScaled {x y : Double} (hx : x.isFinite = true) (hy : y.isFinite = true)
    (hxlow : 0 ≤ x.toRat) (hylow : 0 ≤ y.toRat) (hhigh : x.toRat ≤ 1) :
    ∃ negative m e, y * x = ofScaled negative m e ∧ (m = 0 ∨ negative = false) ∧
      (m : ℚ) * 2 ^ e ≤ y.toRat := by
  obtain ⟨negative, m, e, heq, hexact⟩ := exists_mul_eq hy hx
  have hnonneg : 0 ≤ (finite negative m e).toRat := hexact ▸ mul_nonneg hylow hxlow
  refine ⟨negative, m, e, heq, ?_, ?_⟩
  · rcases Nat.eq_zero_or_pos m with hzero | hpos
    · exact .inl hzero
    · exact .inr (sign_of_toRat_nonneg hpos.ne' hnonneg)
  · rw [← abs_toRat_finite negative, abs_of_nonneg hnonneg, hexact]
    exact mul_le_of_le_one_right hylow hhigh

/-- A product with a factor between zero and one stays between zero and the other factor, also when
it is rounded. -/
theorem toRat_mul_le {x : Double} (hx : x.isFinite = true) (hlow : 0 ≤ x.toRat) (hhigh : x.toRat ≤ 1)
    {n : ℕ} (hn : n ≤ 2 ^ 53) :
    (ofInt n * x).isFinite = true ∧ 0 ≤ (ofInt n * x).toRat ∧ (ofInt n * x).toRat ≤ n := by
  have hwithin := within_natCast hn (by norm_num)
  have hnonneg : 0 ≤ (ofInt n).toRat := by
    rw [ofInt_natCast]
    exact toRat_ofScaled_nonneg
  have hx' : x.Within 0 := ⟨hx, by rwa [abs_of_nonneg hlow, zpow_zero]⟩
  refine ⟨(hwithin.mul hx' (by norm_num) (by norm_num)).finite, ?_⟩
  obtain ⟨q, g, hq, hg, hv⟩ := exists_significand hn
  have hfactor : (ofInt n).toRat ≤ n := hv ▸ toRat_ofInt_le hq hv.le
  obtain ⟨negative, m, e, heq, rfl | rfl, hle⟩ :=
    exists_mul_eq_ofScaled hx hwithin.finite hlow hnonneg hhigh
  · rw [heq, toRat_ofScaled_zero]
    exact ⟨le_rfl, n.cast_nonneg⟩
  · rw [heq]
    have hgrid : gridExponent m e ≤ g ∨ gridExponent m e = e + m.log2 - 52 := by
      simp only [gridExponent]
      omega
    refine ⟨toRat_ofScaled_nonneg, ?_⟩
    rw [hv]
    exact toRat_ofScaled_le_of_le hq hgrid ((hle.trans hfactor).trans_eq hv)

/-- What is not negative loses its fraction by rounding down. -/
theorem truncate?_eq_floor {x : Double} (hx : x.isFinite = true) (hlow : 0 ≤ x.toRat) :
    x.truncate? = .ok ⌊x.toRat⌋ := by
  cases x with
  | nan | infinite => simp [isFinite] at hx
  | finite negative m e =>
    have hfloor : (finite negative m e).floor? =
        .ok (Int.fdiv (signed negative (scaled m 1 e).1) (scaled m 1 e).2) := rfl
    have hsign : 0 ≤ signed negative (scaled m 1 e).1 := by
      rcases Nat.eq_zero_or_pos m with rfl | hm
      · cases negative <;> simp [scaled, signed]
      · obtain rfl := sign_of_toRat_nonneg hm.ne' hlow
        exact Int.natCast_nonneg _
    rw [← floor?_eq_ok hfloor, truncate?, toInt?]
    simp only [quotient?]
    rw [Int.tdiv_eq_ediv_of_nonneg hsign, Int.fdiv_eq_ediv_of_nonneg _ (Int.natCast_nonneg _)]

end Double

namespace Amount

/-- What can be a share of something: a number between zero and one. -/
structure IsShare (amount : Amount) : Prop where
  finite : ∀ x, amount = .real x → x.isFinite = true
  nonneg : 0 ≤ amount.toRat
  le_one : amount.toRat ≤ 1

end Amount

/-- A share of a natural is a natural up to it, without its fraction. -/
theorem Data.exists_share {share : Amount} (h : share.IsShare) {n : ℕ} (hn : n ≤ 2 ^ 53) :
    ∃ k : ℕ, k ≤ n ∧ (Data.number share : Value).timesToInteger n = .ok (k : ℤ) := by
  cases share with
  | whole r =>
    have hlow : 0 ≤ r := Amount.toRat_whole_nonneg.1 h.nonneg
    have hhigh : r ≤ 1 := by
      have hr : (r : ℚ) ≤ 1 := h.le_one
      exact_mod_cast hr
    have htimes : (Data.number (.whole r) : Value).timesToInteger n = .ok (n * r) := rfl
    obtain rfl | rfl : r = 0 ∨ r = 1 := by omega
    · exact ⟨0, Nat.zero_le n, by rw [htimes, mul_zero, Nat.cast_zero]⟩
    · exact ⟨n, le_rfl, by rw [htimes, mul_one]⟩
  | real x =>
    obtain ⟨hfinite, hlow, hhigh⟩ := Double.toRat_mul_le (h.finite x rfl) h.nonneg h.le_one hn
    have hfactor : Double.ofInt? n = .ok (Double.ofInt n) := Double.ofInt?_of_isFinite
      (Double.within_natCast hn (by norm_num)).finite
    have htimes : (Data.number (.real x) : Value).timesToInteger n =
        (Double.ofInt n * x).truncate?.mapError .number := by
      simp only [Data.timesToInteger, Data.amount?, Amount.mul?, Amount.combine, Amount.toDouble?,
        hfactor]
      rfl
    refine ⟨⌊(Double.ofInt n * x).toRat⌋.toNat, ?_, ?_⟩
    · have hfloor : ⌊(Double.ofInt n * x).toRat⌋ ≤ n := by
        exact_mod_cast (Int.floor_le _).trans hhigh
      omega
    · rw [htimes, Double.truncate?_eq_floor hfinite hlow,
        Int.toNat_of_nonneg (Int.floor_nonneg.2 hlow)]
      rfl

end TextGrammar
