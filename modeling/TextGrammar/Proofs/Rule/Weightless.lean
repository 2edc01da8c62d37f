import TextGrammar.Proofs.Rule.WellFormed

/-! Which values a weighted rule draws: those with weight, or the last one beyond all totals. -/
namespace TextGrammar

namespace Double

/-- A total that is not too large keeps its value when a zero is added. -/
theorem IsMagnitude.add_isZero {total weight : Double} (htotal : total.IsMagnitude)
    (hfinite : total.isFinite = true) (hbound : total.toRat ≤ 2 ^ (64 : ℤ))
    (hweight : weight.isZero = true) :
    (total + weight).isFinite = true ∧ (total + weight).toRat = total.toRat := by
  obtain ⟨hfinite', hvalue⟩ := toRat_of_isZero hweight
  cases total with
  | nan | infinite => cases hfinite
  | finite s m e =>
    cases weight with
    | nan | infinite => cases hfinite'
    | finite t n f =>
      obtain ⟨rfl, hm, he⟩ := htotal
      obtain ⟨sum, hsum, hexact⟩ := @add_eq_ofScaled m n e f t hvalue.ge
      rw [hvalue, add_zero] at hexact
      rw [toRat_finite_false] at hbound
      have hrounded : (ofScaled false sum (min e f)).isFinite = true :=
        (within_ofScaled (k := 64) (by norm_num) (by norm_num)
          (by rwa [abs_toRat_finite, hexact])).finite
      rw [hsum, toRat_finite_false]
      exact ⟨hrounded, toRat_ofScaled_eq hm he hexact hrounded⟩

/-- A number that exceeds a total exceeds it with a zero added too. -/
theorem IsMagnitude.exceeded_add {x total weight : Double} (hx : x.isFinite = true)
    (hbound : x.toRat ≤ 1) (htotal : total.IsMagnitude)
    (hweight : weight.isZero = true) (h : x.le total = false) : x.le (total + weight) = false := by
  have hfinite : total.isFinite = true := by
    cases total with
    | nan => exact htotal.elim
    | finite => rfl
    | infinite negative =>
      obtain rfl : negative = false := htotal
      cases x with
      | nan | infinite => cases hx
      | finite => cases h
  have hlt : total.toRat < x.toRat := by
    rw [← not_le, ← le_iff_toRat_le hx hfinite, h]
    exact Bool.false_ne_true
  have hsmall : total.toRat ≤ 2 ^ (64 : ℤ) := (hlt.le.trans hbound).trans (by norm_num)
  obtain ⟨hsum, hvalue⟩ := htotal.add_isZero hfinite hsmall hweight
  rw [← Bool.not_eq_true, le_iff_toRat_le hx hsum, hvalue, not_le]
  exact hlt

end Double

namespace Source

variable {α : Type} {x : Double} {value : α}

/-- By running totals, a value with weight is picked, or else the last one if all are exceeded. -/
theorem weighs_or_last_of_pick (hx : x.isFinite = true) (hbound : x.toRat ≤ 1)
    {total : Double} (htotal : total.IsMagnitude) {weights : List Double}
    (hweights : ∀ weight ∈ weights, weight.isFinite = true ∧ 0 ≤ weight.toRat)
    (hfirst : x.le total = false ∨ ∀ weight ∈ weights.head?, weight.isZero = false)
    {values : List α} (hlength : values.length = weights.length)
    (h : pick x (values.zip (totalsFrom total weights)) = some value) :
    (∃ weight, (value, weight) ∈ values.zip weights ∧ weight.isZero = false) ∨
      (∀ bound ∈ totalsFrom total weights, x.le bound = false) ∧ values.getLast? = some value := by
  induction weights generalizing total values with
  | nil =>
    rw [totalsFrom, List.zip_nil_right] at h
    cases h
  | cons weight rest ih =>
    cases values with
    | nil => cases h
    | cons first others =>
      obtain ⟨⟨hfinite, hnonneg⟩, hrest⟩ := List.forall_mem_cons.1 hweights
      obtain ⟨hmagnitude, -⟩ := htotal.le_add hfinite hnonneg
      rw [totalsFrom, List.zip_cons_cons, pick_cons] at h
      cases hle : x.le (total + weight) with
      | true =>
        rw [if_pos (.inl hle)] at h
        cases h
        refine .inl ⟨weight, List.mem_cons_self, ?_⟩
        rcases hfirst with hexceeds | hweight
        · by_contra hzero
          rw [Bool.not_eq_false] at hzero
          rw [htotal.exceeded_add hx hbound hzero hexceeds] at hle
          cases hle
        · exact hweight weight rfl
      | false =>
        have hlength' : others.length = rest.length := Nat.succ.inj hlength
        cases rest with
        | nil =>
          obtain rfl := List.length_eq_zero_iff.1 hlength'
          rw [if_pos (.inr rfl)] at h
          cases h
          refine .inr ⟨?_, rfl⟩
          intro bound hmem
          rw [totalsFrom, totalsFrom, List.mem_singleton] at hmem
          rw [hmem, hle]
        | cons next rest =>
          cases others with
          | nil => cases hlength'
          | cons second others =>
            rw [if_neg (by simp [hle, totalsFrom])] at h
            rcases ih hmagnitude hrest (.inl hle) hlength' h with
              ⟨weight', hmem, hweight⟩ | ⟨hall, hlast⟩
            · exact .inl ⟨weight', List.mem_cons_of_mem _ hmem, hweight⟩
            · refine .inr ⟨?_, by rwa [List.getLast?_cons_cons]⟩
              intro bound hmem
              rcases List.mem_cons.1 hmem with rfl | hmem
              · exact hle
              · exact hall bound hmem

end Source

namespace Rule.Weighted

/-- Wherever the value stands in the rule, its weight is zero. -/
def IsWeightless (rule : Rule.Weighted) (value : String) : Prop :=
  ∀ place ∈ rule.values.zip rule.weights, place.1 = value → place.2.isZero = true

/-- A rule that is let through draws a value. Unless zero is drawn and the first weight is zero,
that is a value with weight, or the last one if the number drawn exceeds all running totals. -/
theorem draw_weightless {values weights : Datum} {rule : Rule.Weighted} {source : Source}
    (hdefine : Rule.Weighted.define values weights = .ok rule)
    (hdraw : source.advance.1 ≠ 0 ∨ ∀ weight ∈ rule.weights.head?, weight.isZero = false) :
    ∃ value, (rule.draw source).1 = .ok (some value) ∧
      (rule.IsWeightless value →
        (∀ bound ∈ rule.bounds, source.draw.1.le bound = false) ∧
          rule.values.getLast? = some value) := by
  obtain ⟨hvalues, hlength, hnonneg, -⟩ := accepted_of_define hdefine
  have hfinite := hasFiniteWeights_of_define hdefine
  have hbounds : rule.values.length = rule.bounds.length := by
    rw [rule.bounds_eq, length_totalsFrom, hlength]
  obtain ⟨value, hvalue, hchoice⟩ := Source.exists_chooseWeighted source hvalues hbounds
  refine ⟨value, ?_, ?_⟩
  · change (source.chooseWeighted rule.values rule.bounds).1.map some = _
    rw [hchoice]
    rfl
  · intro hweightless
    obtain ⟨hx, hstate, hone⟩ := source.toRat_draw
    have hzero : (0 : Double).toRat = 0 := @Double.toRat_ofScaled_zero false 0
    have hfirst : source.draw.1.le 0 = false ∨
        ∀ weight ∈ rule.weights.head?, weight.isZero = false := by
      refine hdraw.imp_left fun hne => ?_
      rw [← Bool.not_eq_true, Double.le_iff_toRat_le hx rfl, hstate, hzero, not_le]
      positivity
    rw [rule.bounds_eq] at hvalue ⊢
    have hmagnitude : (0 : Double).IsMagnitude := Double.isMagnitude_ofScaled 0 0
    rcases Source.weighs_or_last_of_pick hx hone hmagnitude
      (fun weight hmem => ⟨hfinite weight hmem, (hnonneg weight hmem).1⟩) hfirst hlength hvalue with
      ⟨weight, hmem, hweight⟩ | hlast
    · rw [hweightless (value, weight) hmem rfl] at hweight
      cases hweight
    · exact hlast

/-- A rule whose weights add up to a little less than one, the last of them zero. -/
def shortRule : Rule.Weighted where
  values := ["a", "b"]
  weights := [.ofQuotient false 99995 100000, 0]

/-- The number drawn from here is above both running totals of that rule. -/
def shortSource : Source := (Source.unseeded 0).seedWith 9712

theorem define_shortRule : Rule.Weighted.define (.list [.text "a", .text "b"])
    (.list [.number (.real (.ofQuotient false 99995 100000)), .number (.real 0)]) =
      .ok shortRule := by
  refine eq_ok_of_toOption ?_
  decide +kernel

/-- The last value is drawn for want of another, though it has no weight. -/
theorem draw_shortRule : Rule.Weighted.define (.list [.text "a", .text "b"])
      (.list [.number (.real (.ofQuotient false 99995 100000)), .number (.real 0)]) =
        .ok shortRule ∧
    (shortRule.draw shortSource).1 = .ok (some "b") ∧ shortRule.IsWeightless "b" := by
  refine ⟨define_shortRule, eq_ok_of_toOption ?_, ?_⟩
  · decide +kernel
  · rw [IsWeightless]
    decide

theorem draw_weightless_shortRule : shortSource.advance.1 ≠ 0 ∧
    ∃ value, (shortRule.draw shortSource).1 = .ok (some value) ∧
      (shortRule.IsWeightless value →
        (∀ bound ∈ shortRule.bounds, shortSource.draw.1.le bound = false) ∧
          shortRule.values.getLast? = some value) := by
  have hstate : shortSource.advance.1 ≠ 0 := by decide
  exact ⟨hstate, draw_weightless define_shortRule (.inl hstate)⟩

end Rule.Weighted

end TextGrammar
