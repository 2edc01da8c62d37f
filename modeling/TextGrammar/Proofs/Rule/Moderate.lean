import Mathlib.Algebra.Order.Archimedean.Basic
import TextGrammar.Proofs.Number.Magnitude
import TextGrammar.Proofs.Rule.Range

/-! Ranges that answer: operations on moderate numbers at most double the bound on them. -/
namespace TextGrammar

open Amount

namespace Rule.Range

variable {rule : Rule.Range} {source : Source} {text : String} {j u : ℤ}

/-- Numbers far from the largest ones, with the bounds not too many steps away from zero. -/
structure Moderate (rule : Rule.Range) : Prop where
  low : rule.low.Within 1018
  high : rule.high.Within 1018
  unit : rule.unit.Within 1018
  low_steps : |rule.low.toRat| ≤ 2 ^ (1018 : ℤ) * rule.unit.toRat
  high_steps : |rule.high.toRat| ≤ 2 ^ (1018 : ℤ) * rule.unit.toRat

/-- The values can be counted, each of them has a text, and so has every draw. -/
structure Answers (rule : Rule.Range) : Prop where
  size : ∃ count, rule.size = .ok count ∧ 0 < count ∧
    ∀ index < count, ∃ text, rule.nth (.whole (index : ℕ)) = .ok text
  draw : ∀ source, ∃ text, (rule.draw source).1 = .ok text

/-- The powers of two around the step and above the bounds. All that is computed from the range is
bounded by their sums and differences. -/
structure Scaled (rule : Rule.Range) (u j : ℤ) : Prop where
  unit : rule.unit.Within (u + 1)
  le_unit : 2 ^ u ≤ rule.unit.toRat
  low : rule.low.Within j
  high : rule.high.Within j
  unit_range : -1074 ≤ u ∧ u ≤ 1018
  bound_range : -1074 ≤ j ∧ j ≤ 1018
  steps_range : -1074 ≤ j + 1 - u ∧ j + 1 - u ≤ 1020

/-- Bounds that differ are not both zero, so there is a step to measure them with. -/
theorem Moderate.unit_pos (h : rule.Moderate) (hle : rule.high.le rule.low = false) :
    0 < rule.unit.toRat := by
  by_contra hneg
  have hzero {q : ℚ} (hq : |q| ≤ 2 ^ (1018 : ℤ) * rule.unit.toRat) : q = 0 :=
    abs_nonpos_iff.1 (hq.trans (mul_nonpos_of_nonneg_of_nonpos (by positivity) (not_lt.1 hneg)))
  have hlt := toRat_lt_of_le_eq_false h.high.finite h.low.finite hle
  rw [hzero h.low_steps, hzero h.high_steps] at hlt
  exact lt_irrefl 0 hlt

theorem Moderate.exists_scaled (h : rule.Moderate) (hnumber : rule.unit.IsNumber)
    (hle : rule.high.le rule.low = false) : ∃ u j, rule.Scaled u j := by
  have hpos := h.unit_pos hle
  obtain ⟨u, hlow, hhigh⟩ := exists_mem_Ico_zpow hpos one_lt_two
  have hu : u ≤ 1018 := (zpow_le_zpow_iff_right₀ (one_lt_two : (1 : ℚ) < 2)).1
    (hlow.trans ((le_abs_self _).trans h.unit.abs_le))
  have hleast : -1074 < u + 1 := (zpow_lt_zpow_iff_right₀ (one_lt_two : (1 : ℚ) < 2)).1
    ((hnumber.two_zpow_le hpos).trans_lt hhigh)
  have hbound {a : Amount} (ha : a.Within 1018)
      (hsteps : |a.toRat| ≤ 2 ^ (1018 : ℤ) * rule.unit.toRat) : a.Within (min 1018 (1019 + u)) := by
    rcases min_choice 1018 (1019 + u) with hmin | hmin
    · rwa [hmin]
    · rw [hmin]
      refine ⟨ha.finite, hsteps.trans ?_⟩
      calc (2 : ℚ) ^ (1018 : ℤ) * rule.unit.toRat ≤ 2 ^ (1018 : ℤ) * 2 ^ (u + 1) := by
            gcongr
        _ = 2 ^ (1019 + u) := by
            rw [← zpow_add₀ (two_ne_zero' ℚ)]
            congr 1
            ring
  exact ⟨u, min 1018 (1019 + u), {
    unit := ⟨h.unit.finite, by rw [abs_of_pos hpos]; exact hhigh.le⟩
    le_unit := hlow
    low := hbound h.low h.low_steps
    high := hbound h.high h.high_steps
    unit_range := by omega
    bound_range := by omega
    steps_range := by omega }⟩

theorem exists_stepText (rule : Rule.Range) {value : Amount} (h : value.Within 1021) :
    ∃ text, rule.stepText value = .ok text := by
  cases hk : rule.kind with
  | decimal =>
    rw [stepText, hk]
    exact h.exists_plainText? (by norm_num)
  | integer =>
    have hhalf : (Amount.real (.ofQuotient false 1 2)).Within 1021 := by
      have hwithin : (Double.ofQuotient false 1 2).Within 0 :=
        Double.within_ofQuotient two_pos (by norm_num) (by norm_num) (by norm_num)
      exact (within_real.2 hwithin).mono (by norm_num)
    obtain ⟨sum, hsum, hwithin⟩ := h.exists_add? hhalf (by norm_num) (by norm_num)
    rw [stepText, hk]
    exact ⟨_, bind_eq_ok.2 ⟨sum, hsum, bind_eq_ok.2 ⟨_, hwithin.exists_floor?, rfl⟩⟩⟩

theorem exists_freeText (rule : Rule.Range) {value : Amount} (h : value.Within 1021) :
    ∃ text, rule.freeText value = .ok text := by
  cases hk : rule.kind with
  | decimal =>
    rw [freeText, hk]
    exact h.exists_plainText? (by norm_num)
  | integer =>
    rw [freeText, hk]
    exact ⟨_, bind_eq_ok.2 ⟨_, h.exists_floor?, rfl⟩⟩

theorem Scaled.exists_width (h : rule.Scaled u j) :
    ∃ width, rule.high.sub? rule.low = .ok width ∧ width.Within (j + 1) := by
  have := h.bound_range
  exact h.high.exists_sub? h.low (by omega) (by omega)

/-- What is added to the low bound stays small enough for a text. -/
theorem Scaled.exists_sum (h : rule.Scaled u j) {offset : Amount} (ho : offset.Within (j + 2)) :
    ∃ value, rule.low.add? offset = .ok value ∧ value.Within 1021 := by
  have := h.bound_range
  obtain ⟨value, hv, hwithin⟩ :=
    (h.low.mono (show j ≤ j + 2 by omega)).exists_add? ho (by omega) (by omega)
  exact ⟨value, hv, hwithin.mono (by omega)⟩

theorem Scaled.exists_size (h : rule.Scaled u j) :
    ∃ count, rule.size = .ok count ∧
      ∀ index < count, (Amount.whole (index : ℕ)).Within (j + 1 - u) := by
  have := h.bound_range
  have := h.unit_range
  have := h.steps_range
  obtain ⟨width, hw, hwidth⟩ := h.exists_width
  obtain ⟨quotient, hq, hquotient⟩ := hwidth.exists_div? h.unit ⟨by omega, by omega⟩
    ⟨by omega, by omega⟩ h.le_unit (by omega) (by omega)
  refine ⟨_, bind_eq_ok.2 ⟨width, hw, bind_eq_ok.2 ⟨quotient, hq, bind_eq_ok.2
    ⟨_, Double.floor?_of_isFinite hquotient.finite, rfl⟩⟩⟩, fun index hindex => ?_⟩
  have hfloor : (index : ℤ) ≤ ⌊quotient.toRat⌋ := by omega
  have hle : (index : ℚ) ≤ quotient.toRat := by exact_mod_cast Int.le_floor.1 hfloor
  exact within_whole.2 (hle.trans ((le_abs_self _).trans hquotient.abs_le))

theorem Scaled.exists_nth (h : rule.Scaled u j) {index : Amount} (hindex : index.Within (j + 1 - u)) :
    ∃ text, rule.nth index = .ok text := by
  have := h.bound_range
  have := h.unit_range
  have := h.steps_range
  obtain ⟨offset, ho, hoffset⟩ := hindex.exists_mul? h.unit ⟨by omega, by omega⟩
    ⟨by omega, by omega⟩ (by omega) (by omega)
  obtain ⟨value, hv, hvalue⟩ := h.exists_sum (hoffset.mono (by omega))
  obtain ⟨text, ht⟩ := rule.exists_stepText hvalue
  exact ⟨text, bind_eq_ok.2 ⟨offset, ho, bind_eq_ok.2 ⟨value, hv, ht⟩⟩⟩

theorem Scaled.exists_draw (h : rule.Scaled u j) {count : ℕ} (hs : rule.size = .ok count)
    (hcount : 0 < count) (hindex : ∀ index < count, (Amount.whole (index : ℕ)).Within (j + 1 - u)) :
    ∃ text, (rule.draw source).1 = .ok text := by
  have := h.bound_range
  have := h.steps_range
  cases hstep : rule.step with
  | none =>
    obtain ⟨width, hw, hwidth⟩ := h.exists_width
    obtain ⟨offset, ho, hoffset⟩ := source.exists_stretched hwidth (by omega) (by omega)
    obtain ⟨value, hv, hvalue⟩ := h.exists_sum (hoffset.mono (by omega))
    obtain ⟨text, ht⟩ := rule.exists_freeText hvalue
    refine ⟨text, ?_⟩
    simp only [draw, hstep]
    exact bind_eq_ok.2 ⟨width, hw, bind_eq_ok.2 ⟨offset, ho, bind_eq_ok.2 ⟨value, hv, ht⟩⟩⟩
  | some step =>
    have hwithin : (Amount.whole count).Within (1020 + 1) := by
      obtain ⟨last, rfl⟩ : ∃ last, count = last + 1 := ⟨count - 1, by omega⟩
      have hlast : (last : ℚ) ≤ 2 ^ (1020 : ℤ) :=
        within_whole.1 ((hindex last last.lt_succ_self).mono h.steps_range.2)
      rw [within_whole, Nat.cast_add_one, zpow_add_one₀ (two_ne_zero' ℚ), mul_two]
      exact add_le_add hlast (one_le_zpow₀ one_le_two (by norm_num))
    obtain ⟨amount, hamount⟩ := source.exists_amountBetween hwithin (by norm_num) (by norm_num)
    obtain ⟨index, hlt, rfl⟩ := Source.exists_whole_of_amountBetween hcount hamount
    obtain ⟨text, ht⟩ := h.exists_nth (hindex index hlt)
    refine ⟨text, ?_⟩
    simp only [nth, Rule.Range.unit, hstep, Option.getD_some] at ht
    simp only [draw, hstep, hs]
    rw [hamount]
    exact ht

/-- A moderate range answers. -/
theorem Moderate.answers (h : rule.Moderate) (ha : (Rule.range rule).Accepted)
    (hnumber : rule.unit.IsNumber) : rule.Answers := by
  obtain ⟨u, j, hscaled⟩ := h.exists_scaled hnumber ha.2.2.1
  obtain ⟨count, hsize, hindex⟩ := hscaled.exists_size
  have hpos := size_pos ha hsize
  exact {
    size := ⟨count, hsize, hpos, fun index hlt => hscaled.exists_nth (hindex index hlt)⟩
    draw := fun source => hscaled.exists_draw hsize hpos hindex }

theorem isFinite_of_size {count : ℕ} (h : rule.size = .ok count) :
    rule.low.isFinite = true ∧ rule.high.isFinite = true ∧ rule.unit.isNan = false := by
  obtain ⟨width, hw, h⟩ := bind_eq_ok.1 h
  obtain ⟨quotient, hq, h⟩ := bind_eq_ok.1 h
  obtain ⟨steps, hf, -⟩ := bind_eq_ok.1 h
  obtain ⟨hwidth, hunit⟩ := isFinite_of_div? hq (Double.isFinite_of_floor? hf)
  obtain ⟨hhigh, hlow⟩ := isFinite_of_sub? hw hwidth
  exact ⟨hlow, hhigh, hunit⟩

theorem isFinite_of_stepText {value : Amount} (hk : rule.kind = .integer)
    (h : rule.stepText value = .ok text) : value.isFinite = true := by
  simp only [stepText, hk] at h
  obtain ⟨sum, hs, h⟩ := bind_eq_ok.1 h
  obtain ⟨n, hf, -⟩ := bind_eq_ok.1 h
  exact (isFinite_of_add? hs (isFinite_of_floor? hf)).1

theorem isFinite_of_freeText {value : Amount} (hk : rule.kind = .integer)
    (h : rule.freeText value = .ok text) : value.isFinite = true := by
  simp only [freeText, hk] at h
  obtain ⟨n, hf, -⟩ := bind_eq_ok.1 h
  exact isFinite_of_floor? hf

theorem isFinite_of_draw (hk : rule.kind = .integer) (h : (rule.draw source).1 = .ok text) :
    rule.low.isFinite = true ∧ rule.high.isFinite = true ∧ rule.unit.isFinite = true := by
  cases hstep : rule.step with
  | none =>
    simp only [draw, hstep] at h
    obtain ⟨width, hw, h⟩ := bind_eq_ok.1 h
    obtain ⟨offset, ho, h⟩ := bind_eq_ok.1 h
    obtain ⟨value, hv, h⟩ := bind_eq_ok.1 h
    obtain ⟨hlow, hoffset⟩ := isFinite_of_add? hv (isFinite_of_freeText hk h)
    obtain ⟨hhigh, -⟩ := isFinite_of_sub? hw (isFinite_of_mul? ho hoffset).2
    rw [unit, hstep]
    exact ⟨hlow, hhigh, rfl⟩
  | some step =>
    simp only [draw, hstep] at h
    split at h
    · cases h
    · rename_i count hc
      obtain ⟨place, -, h⟩ := bind_eq_ok.1 h
      obtain ⟨offset, ho, h⟩ := bind_eq_ok.1 h
      obtain ⟨value, hv, h⟩ := bind_eq_ok.1 h
      obtain ⟨hlow, hoffset⟩ := isFinite_of_add? hv (isFinite_of_stepText hk h)
      rw [unit, hstep]
      exact ⟨hlow, (isFinite_of_size hc).2.1, (isFinite_of_mul? ho hoffset).2⟩

theorem isFinite_of_nth {index : ℤ} (hk : rule.kind = .integer)
    (h : rule.nth (.whole index) = .ok text) :
    rule.low.isFinite = true ∧ rule.unit.isFinite = true := by
  obtain ⟨offset, ho, h⟩ := bind_eq_ok.1 h
  obtain ⟨value, hv, h⟩ := bind_eq_ok.1 h
  obtain ⟨hlow, hoffset⟩ := isFinite_of_add? hv (isFinite_of_stepText hk h)
  exact ⟨hlow, (isFinite_of_mul? ho hoffset).2⟩

/-- A range that is defined has at least one value, if its values can be counted, and it answers if
it is moderate. What is no finite number passes the definition as well, and fails later. -/
theorem answers_of_define {low high step kind : Datum}
    (hnumber : ∀ datum ∈ [low, high, step], ∀ amount,
      datum.plainAmount? = some amount → amount.IsNumber)
    (h : Rule.Range.define low high step kind = .ok rule) :
    (∀ count, rule.size = .ok count → 0 < count) ∧
    (rule.Moderate → rule.Answers) ∧
    (rule.low.isFinite = false ∨ rule.high.isFinite = false ∨ rule.unit.isNan = true →
      ∃ fault, rule.size = .error fault ∧
        (rule.step ≠ none → ∀ source, (rule.draw source).1 = .error fault)) ∧
    (rule.kind = .integer →
      (rule.low.isFinite = false ∨ rule.unit.isFinite = false →
        ∀ index : ℤ, ∃ fault, rule.nth (.whole index) = .error fault) ∧
      (rule.low.isFinite = false ∨ rule.high.isFinite = false ∨ rule.unit.isFinite = false →
        ∀ source, ∃ fault, (rule.draw source).1 = .error fault)) := by
  have haccepted : (Rule.range rule).Accepted :=
    accepted_of_define (hnumber low (by simp)) (hnumber high (by simp)) h
  have hunit : rule.unit.IsNumber := by
    cases hs : rule.step with
    | none =>
      rw [unit, hs]
      exact trivial
    | some amount =>
      rw [unit, hs]
      exact hnumber step (by simp) amount ((define_eq_ok h).2.2.2 amount hs).1
  refine ⟨fun count hsize => size_pos haccepted hsize,
    fun hmoderate => hmoderate.answers haccepted hunit, fun hbad => ?_,
    fun hk => ⟨fun hbad index => ?_, fun hbad source => ?_⟩⟩
  · cases hsize : rule.size with
    | ok count => simp [isFinite_of_size hsize] at hbad
    | error fault =>
      refine ⟨fault, rfl, fun hstep source => ?_⟩
      obtain ⟨amount, hs⟩ := Option.ne_none_iff_exists'.1 hstep
      simp only [draw, hs, hsize]
  · cases hn : rule.nth (.whole index) with
    | ok text => simp [isFinite_of_nth hk hn] at hbad
    | error fault => exact ⟨fault, rfl⟩
  · cases hd : (rule.draw source).1 with
    | ok text => simp [isFinite_of_draw hk hd] at hbad
    | error fault => exact ⟨fault, rfl⟩

/-- A range from a whole number to another one, in steps of a half. -/
def halfSteps : Rule.Range :=
  { low := 0, high := 10, step := some (.real (.ofQuotient false 1 2)), kind := .decimal }

theorem ofQuotient_half : Double.ofQuotient false 1 2 = .finite false (2 ^ 52) (-53) := rfl

theorem moderate_halfSteps : halfSteps.Moderate := by
  have hunit : halfSteps.unit.toRat = 1 / 2 := by
    change (Double.ofQuotient false 1 2).toRat = 1 / 2
    rw [ofQuotient_half, Double.toRat_finite_false]
    norm_num
  have hlow : halfSteps.low.toRat = 0 := toRat_zero
  have hhigh : halfSteps.high.toRat = 10 := Int.cast_ofNat 10
  have hlarge : (2 : ℚ) ^ (5 : ℤ) ≤ 2 ^ (1018 : ℤ) := zpow_le_zpow_right₀ one_le_two (by norm_num)
  exact {
    low := ⟨rfl, by rw [hlow, abs_zero]; positivity⟩
    high := Within.mono (k := 5) ⟨rfl, by rw [hhigh]; norm_num⟩ (by norm_num)
    unit := Within.mono (k := 5) ⟨rfl, by rw [hunit]; norm_num⟩ (by norm_num)
    low_steps := by
      rw [hlow, abs_zero, hunit]
      positivity
    high_steps := by
      rw [hhigh, hunit]
      refine le_trans ?_ (mul_le_mul_of_nonneg_right hlarge (by norm_num))
      norm_num }

theorem answers_halfSteps :
    Rule.Range.define (.number 0) (.number 10) (.number (.real (.ofQuotient false 1 2)))
        (.text "float") = .ok halfSteps ∧
      halfSteps.Moderate ∧ halfSteps.Answers := by
  have hdefine : Rule.Range.define (.number 0) (.number 10)
      (.number (.real (.ofQuotient false 1 2))) (.text "float") = .ok halfSteps := rfl
  refine ⟨hdefine, moderate_halfSteps, (answers_of_define ?_ hdefine).2.1 moderate_halfSteps⟩
  have hhalf : (Amount.real (.ofQuotient false 1 2)).IsNumber := by
    rw [ofQuotient_half]
    exact ⟨by norm_num, by norm_num, by norm_num⟩
  rintro datum hdatum amount hamount
  simp only [List.mem_cons, List.not_mem_nil, or_false] at hdatum
  obtain rfl | rfl | rfl := hdatum
  · cases hamount
    exact trivial
  · cases hamount
    exact trivial
  · cases hamount
    exact hhalf

/-- A range from what is no number. -/
def nanRange : Rule.Range :=
  { low := .real .nan, high := 5, step := none, kind := .integer }

/-- Nothing is said about a bound that compares with nothing, until the range is used. -/
theorem define_nanRange :
    Rule.Range.define (.number (.real .nan)) (.number 5) .nothing (.text "integer") =
        .ok nanRange ∧
      nanRange.size = .error .nanToInteger ∧ nanRange.nth 0 = .error .nanToInteger ∧
      ∀ source, (nanRange.draw source).1 = .error .nanToInteger := by
  refine ⟨rfl, rfl, rfl, fun source => ?_⟩
  simp only [draw, nanRange]
  generalize source.draw = drawn
  obtain ⟨x, source⟩ := drawn
  cases x <;> rfl

end Rule.Range

end TextGrammar
