import Std.Data.String.ToInt
import TextGrammar.Proofs.Number.Whole
import TextGrammar.Proofs.Outcomes.Listing
import TextGrammar.Proofs.Rule.Moderate

/-! Integer ranges between whole numbers in whole steps: exact, but for two uses of binary64. -/
namespace TextGrammar.Rule.Range

open Double

variable {rule : Rule.Range} {low high step : ℤ}

/-- An integer range whose bounds and step are whole numbers. -/
structure IsWhole (rule : Rule.Range) (low high step : ℤ) : Prop where
  low_eq : rule.low = .whole low
  high_eq : rule.high = .whole high
  step_eq : rule.step = some (.whole step)
  kind_eq : rule.kind = .integer
  low_lt : low < high
  step_pos : 0 < step

theorem step_of_define {low high kind : Datum} {amount : Amount}
    (h : Rule.Range.define low high (.number amount) kind = .ok rule) : rule.step = some amount := by
  simp only [Rule.Range.define] at h
  split at h
  · split at h
    · cases h
    · split at h
      · cases h
      · split at h
        · rw [← pure_eq_ok.1 h]
        · cases h
  · cases h

theorem isWhole_of_define {kind : Datum} (h : Rule.Range.define (.number (.whole low))
    (.number (.whole high)) (.number (.whole step)) kind = .ok rule) (hkind : rule.kind = .integer) :
    rule.IsWhole low high step := by
  obtain ⟨hlow, hhigh, hle, hsteps⟩ := define_eq_ok h
  have hstep := step_of_define h
  have hlow : rule.low = .whole low := (Option.some.inj hlow).symm
  have hhigh : rule.high = .whole high := (Option.some.inj hhigh).symm
  have hpositive := (hsteps _ hstep).2
  rw [hlow, hhigh] at hle
  exact {
    low_eq := hlow
    high_eq := hhigh
    step_eq := hstep
    kind_eq := hkind
    low_lt := Int.cast_lt.1 (Amount.toRat_lt_of_le_eq_false rfl rfl hle)
    step_pos := Int.cast_pos.1 (Amount.toRat_lt_of_le_eq_false rfl rfl hpositive) }

/-- How many steps there are, the low bound included. -/
def stepCount (low high step : ℤ) : ℕ := ((high - low) / step + 1).toNat

/-- The range counts its steps, writes each one as it is, and is reported as these texts. -/
structure IsExact (rule : Rule.Range) (low high step : ℤ) : Prop where
  size : rule.size = .ok (stepCount low high step)
  nth : ∀ index < stepCount low high step,
    rule.nth (.whole (index : ℕ)) = .ok (toString (low + index * step))
  distinct : ∀ index < stepCount low high step, ∀ other < stepCount low high step,
    rule.nth (.whole (index : ℕ)) = rule.nth (.whole (other : ℕ)) → index = other
  between : ∀ index < stepCount low high step,
    low ≤ low + (index : ℕ) * step ∧ low + (index : ℕ) * step ≤ high
  listed : ∀ (store : Store) (name : String) (limit : Bound) (cap : ℤ)
    (openRangesInfinite mergeOutcomes : Bool), store.rule? name = some (.range rule) →
    0 < limit.value → ∃ distribution,
      Distribution.ofRule (.capped store limit (.ofInt cap) openRangesInfinite) mergeOutcomes name
        = .ok distribution ∧
      distribution.outcomes.map Prod.fst = (List.range (min (stepCount low high step) cap.toNat)).map
        fun (index : ℕ) => toString (low + index * step)

theorem toString_injective {m n : ℤ} (h : toString m = toString n) : m = n := by
  rw [Int.toString_eq_repr, Int.toString_eq_repr] at h
  exact Int.repr_injective h

theorem toRat_half : (Double.ofQuotient false 1 2).toRat = 1 / 2 := by
  rw [ofQuotient_half, toRat_finite_false]
  norm_num

/-- A whole number is written with a half added and the fraction dropped. -/
theorem roundedText_whole (v : ℤ) :
    roundedText (.whole v) = do return toString (halfFloor ⌊(← ofInt? v).toRat⌋) := by
  cases hv : ofInt? v with
  | error fault =>
    simp only [roundedText, Amount.add?, Amount.combine, Amount.toDouble?, hv]
    rfl
  | ok x =>
    obtain ⟨rfl, hfinite⟩ := eq_of_ofInt?_eq_ok hv
    have hfloor := floor?_ofInt_add_half hfinite rfl toRat_half
    simp only [roundedText, Amount.add?, Amount.combine, Amount.toDouble?, hv]
    change ((ofInt v + Double.ofQuotient false 1 2).floor? >>= fun n => .ok (toString n)) = _
    rw [hfloor]
    rfl

theorem roundedText_whole_iff (v : ℤ) :
    roundedText (.whole v) = .ok (toString v) ↔ KeepsHalf v := by
  rw [roundedText_whole, keepsHalf_iff, bind_eq_ok]
  constructor
  · rintro ⟨x, hx, htext⟩
    obtain ⟨rfl, hfinite⟩ := eq_of_ofInt?_eq_ok hx
    exact ⟨hfinite, toString_injective (pure_eq_ok.1 htext)⟩
  · rintro ⟨hfinite, hv⟩
    exact ⟨_, ofInt?_of_isFinite hfinite, pure_eq_ok.2 (congrArg toString hv)⟩

theorem IsWhole.nth_eq (h : rule.IsWhole low high step) (index : ℤ) :
    rule.nth (.whole index) = roundedText (.whole (low + index * step)) := by
  simp only [nth, unit, h.low_eq, h.step_eq, Option.getD_some]
  change rule.stepText (.whole (low + index * step)) = _
  rw [stepText, h.kind_eq]

theorem IsWhole.nth_eq_iff (h : rule.IsWhole low high step) (index : ℤ) :
    rule.nth (.whole index) = .ok (toString (low + index * step)) ↔
      KeepsHalf (low + index * step) := by
  rw [h.nth_eq, roundedText_whole_iff]

/-- Bounds that are at most `2 ^ 53` apart have a quotient that is not rounded beyond a step. -/
theorem IsWhole.size_eq (h : rule.IsWhole low high step) (hwidth : high - low ≤ 2 ^ 53) :
    rule.size = .ok (stepCount low high step) := by
  have := h.low_lt
  have hpos := h.step_pos
  lift step to ℕ using hpos.le
  obtain ⟨width, hw⟩ := Int.eq_ofNat_of_zero_le (show 0 ≤ high - low by omega)
  obtain ⟨hfinite, hfloor⟩ :=
    floor_ofQuotient (show 0 < step by omega) (show width ≤ 2 ^ 53 by omega)
  have hsub : rule.high.sub? rule.low = .ok (.whole width) := by
    rw [h.high_eq, h.low_eq, ← hw]
    rfl
  have hdiv : (Amount.whole width).div? rule.unit = .ok (ofQuotient false width step) := by
    rw [unit, h.step_eq, Option.getD_some, Amount.div?, if_neg (by omega)]
    exact @ofIntQuotient?_of_isFinite (width : ℤ) step hfinite
  rw [size, hsub]
  change ((Amount.whole width).div? rule.unit >>= fun x => x.floor? >>= fun steps =>
    .ok (steps + 1).toNat) = _
  rw [hdiv]
  change ((ofQuotient false width step).floor? >>= fun steps => .ok (steps + 1).toNat) = _
  rw [floor?_of_isFinite hfinite, hfloor, stepCount, hw]
  rfl

theorem IsWhole.lt_stepCount_iff (h : rule.IsWhole low high step) {index : ℕ} :
    index < stepCount low high step ↔ index * step ≤ high - low := by
  have := h.low_lt
  have hnonneg := Int.ediv_nonneg (show 0 ≤ high - low by omega) h.step_pos.le
  rw [← Int.le_ediv_iff_mul_le h.step_pos, stepCount]
  omega

/-- A range is exact if its count is and every value comes back from the half. -/
theorem IsWhole.isExact_iff (h : rule.IsWhole low high step) :
    rule.IsExact low high step ↔ rule.size = .ok (stepCount low high step) ∧
      ∀ index < stepCount low high step, KeepsHalf (low + (index : ℕ) * step) := by
  refine ⟨fun hexact => ⟨hexact.size, fun index hlt => (h.nth_eq_iff index).1 (hexact.nth index hlt)⟩,
    fun ⟨hsize, hkeeps⟩ => ?_⟩
  have hnth (index : ℕ) (hlt : index < stepCount low high step) :
      rule.nth (.whole index) = .ok (toString (low + index * step)) :=
    (h.nth_eq_iff index).2 (hkeeps index hlt)
  have hinjective : Function.Injective fun index : ℕ => toString (low + index * step) := by
    intro index other heq
    have hmul := add_left_cancel (toString_injective heq)
    exact_mod_cast mul_right_cancel₀ h.step_pos.ne' hmul
  exact {
    size := hsize
    nth := hnth
    distinct := fun index hlt other hother heq => by
      rw [hnth index hlt, hnth other hother, Except.ok.injEq] at heq
      exact hinjective heq
    between := fun index hlt => by
      have hle := h.lt_stepCount_iff.1 hlt
      have := mul_nonneg index.cast_nonneg h.step_pos.le
      omega
    listed := fun store name limit cap openRangesInfinite mergeOutcomes hrule hlimit => by
      refine Distribution.ofRule_of_range hrule hlimit (by simp [h.step_eq]) hsize ?_
        (List.nodup_range.map hinjective) mergeOutcomes
      refine mapM_range_eq_ok.2 ⟨by simp, fun index hlt => ?_⟩
      rw [List.length_map, List.length_range] at hlt
      rw [List.getElem_map, List.getElem_range]
      exact hnth index (by omega) }

/-- A range of numbers up to `2 ^ 52` is exact, and draws one of its values. -/
theorem IsWhole.isExact_of_small (h : rule.IsWhole low high step) (hlow : -2 ^ 52 ≤ low)
    (hhigh : high ≤ 2 ^ 52) : rule.IsExact low high step := by
  refine h.isExact_iff.2 ⟨h.size_eq (by omega), fun index hlt => .inl ?_⟩
  have hle := h.lt_stepCount_iff.1 hlt
  have := mul_nonneg index.cast_nonneg h.step_pos.le
  omega

theorem IsExact.exists_draw (h : rule.IsExact low high step) (hwhole : rule.IsWhole low high step)
    (hwidth : high - low ≤ 2 ^ 53) (source : Source) : ∃ index < stepCount low high step,
      (rule.draw source).1 = .ok (toString (low + (index : ℕ) * step)) := by
  have hcount : 0 < stepCount low high step :=
    hwhole.lt_stepCount_iff.2 (by have := hwhole.low_lt; simp; omega)
  have hwithin : (Amount.whole (stepCount low high step)).Within 54 := by
    have hle : stepCount low high step ≤ 2 ^ 54 := by
      by_contra hlarge
      have hstep := hwhole.lt_stepCount_iff.1 (not_le.1 hlarge)
      have hpos := hwhole.step_pos
      push_cast at hstep
      nlinarith
    exact Amount.within_whole.2 (by exact_mod_cast hle)
  obtain ⟨amount, hamount⟩ := source.exists_amountBetween hwithin (by norm_num) (by norm_num)
  obtain ⟨index, hlt, rfl⟩ := Source.exists_whole_of_amountBetween hcount hamount
  refine ⟨index, hlt, ?_⟩
  have htext := h.nth index hlt
  simp only [Rule.Range.nth, unit, hwhole.step_eq, Option.getD_some] at htext
  simp only [draw, hwhole.step_eq, h.size]
  rw [hamount]
  exact htext

/-- An integer range between whole numbers in whole steps writes a value as it is exactly if the
value comes back from the half, and is exact exactly if its count is and all of its values do. Up to
`2 ^ 53` the count is, and up to `2 ^ 52` the values do. -/
theorem isExact_of_define {kind : Datum} (h : Rule.Range.define (.number (.whole low))
    (.number (.whole high)) (.number (.whole step)) kind = .ok rule) (hkind : rule.kind = .integer) :
    (∀ index : ℤ, rule.nth (.whole index) = .ok (toString (low + index * step)) ↔
      KeepsHalf (low + index * step)) ∧
    (rule.IsExact low high step ↔ rule.size = .ok (stepCount low high step) ∧
      ∀ index < stepCount low high step, KeepsHalf (low + (index : ℕ) * step)) ∧
    (high - low ≤ 2 ^ 53 → rule.size = .ok (stepCount low high step)) ∧
    (-2 ^ 52 ≤ low → high ≤ 2 ^ 52 → rule.IsExact low high step ∧
      ∀ source, ∃ index < stepCount low high step,
        (rule.draw source).1 = .ok (toString (low + (index : ℕ) * step))) := by
  have hwhole := isWhole_of_define h hkind
  refine ⟨hwhole.nth_eq_iff, hwhole.isExact_iff, hwhole.size_eq, fun hlow hhigh => ?_⟩
  have hexact := hwhole.isExact_of_small hlow hhigh
  exact ⟨hexact, hexact.exists_draw hwhole (by omega)⟩

/-- A range from zero to ten in steps of three. -/
def everyThird : Rule.Range :=
  { low := 0, high := 10, step := some 3, kind := .integer }

theorem isExact_everyThird :
    Rule.Range.define (.number 0) (.number 10) (.number 3) (.text "integer") = .ok everyThird ∧
      everyThird.kind = .integer ∧ stepCount 0 10 3 = 4 ∧ everyThird.IsExact 0 10 3 ∧
      (List.range 4).map (fun (index : ℕ) => toString (0 + (index : ℤ) * 3)) =
        ["0", "3", "6", "9"] := by
  have hdefine : Rule.Range.define (.number 0) (.number 10) (.number 3) (.text "integer") =
      .ok everyThird := rfl
  obtain ⟨-, -, -, hsmall⟩ := @isExact_of_define everyThird 0 10 3 _ hdefine rfl
  exact ⟨hdefine, rfl, rfl, (hsmall (by norm_num) (by norm_num)).1, by decide⟩

/-- A range of two numbers that lie beyond `2 ^ 52`. -/
def farNumbers : Rule.Range :=
  { low := .whole (2 ^ 52 + 1), high := .whole (2 ^ 52 + 2), step := some 1, kind := .integer }

/-- Both values are written as the second one. -/
theorem nth_farNumbers :
    Rule.Range.define (.number (.whole (2 ^ 52 + 1))) (.number (.whole (2 ^ 52 + 2))) (.number 1)
        (.text "integer") = .ok farNumbers ∧
      farNumbers.size = .ok 2 ∧ farNumbers.nth 0 = .ok "4503599627370498" ∧
        farNumbers.nth 1 = .ok "4503599627370498" ∧
        ¬farNumbers.IsExact (2 ^ 52 + 1) (2 ^ 52 + 2) 1 := by
  have hfirst : farNumbers.nth 0 = .ok "4503599627370498" := by decide
  have hsecond : farNumbers.nth 1 = .ok "4503599627370498" := by decide
  refine ⟨by rfl, by rfl, hfirst, hsecond, fun hexact => ?_⟩
  have hsame := hexact.distinct 0 (by decide) 1 (by decide) (hfirst.trans hsecond.symm)
  exact absurd hsame (by decide)

end TextGrammar.Rule.Range
