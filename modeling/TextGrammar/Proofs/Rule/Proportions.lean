import TextGrammar.Proofs.Random.Fairness
import TextGrammar.Proofs.Rule.WellFormed

/-! How many states of the source draw each value of a weighted rule. -/
namespace TextGrammar

theorem ncard_lt_succ (total : ℕ) (position : ℕ → ℕ) (place : ℕ) :
    {next | next < total ∧ position next < place + 1}.ncard =
      {next | next < total ∧ position next < place}.ncard +
        {next | next < total ∧ position next = place}.ncard := by
  have hfinite {holds : ℕ → Prop} : {next | next < total ∧ holds next}.Finite :=
    (Set.finite_Iio total).subset fun _ hnext => hnext.1
  have hdisjoint : Disjoint {next | next < total ∧ position next < place}
      {next | next < total ∧ position next = place} :=
    Set.disjoint_left.2 fun _ hbefore hat => hbefore.2.ne hat.2
  rw [← Set.ncard_union_eq hdisjoint hfinite hfinite]
  congr 1
  ext next
  change next < total ∧ position next < place + 1 ↔
    next < total ∧ position next < place ∨ next < total ∧ position next = place
  omega

/-- A share of the numbers below a bound, rounded up by less than one. -/
theorem ncard_le_share {total : ℕ} {share : ℚ} (hlow : 0 ≤ share) (hhigh : share ≤ 1) :
    share * total ≤ {next : ℕ | next < total ∧ (next : ℚ) ≤ share * total}.ncard ∧
      ({next : ℕ | next < total ∧ (next : ℚ) ≤ share * total}.ncard : ℚ) ≤ share * total + 1 := by
  have hnonneg : 0 ≤ share * total := by positivity
  have hset : {next : ℕ | next < total ∧ (next : ℚ) ≤ share * total} =
      Finset.range (min total (⌊share * total⌋₊ + 1)) := by
    ext next
    rw [Finset.coe_range, Set.mem_Iio, lt_min_iff, Nat.lt_succ_iff, Nat.le_floor_iff hnonneg]
    rfl
  rw [hset, Set.ncard_coe_finset, Finset.card_range, Nat.cast_min, Nat.cast_add_one]
  constructor
  · refine le_min ?_ (Nat.lt_floor_add_one _).le
    exact mul_le_of_le_one_left (by positivity) hhigh
  · exact (min_le_right _ _).trans (by gcongr; exact Nat.floor_le hnonneg)

namespace Source

/-- What is picked stands at the first bound that is not exceeded, or else at the end. -/
theorem pick_zip {α : Type} (x : Double) {values : List α} {bounds : List Double}
    (hlength : values.length = bounds.length) :
    pick x (values.zip bounds) = values[min (bounds.findIdx (x.le ·)) (values.length - 1)]? := by
  induction bounds generalizing values with
  | nil =>
    obtain rfl := List.length_eq_zero_iff.1 hlength
    rfl
  | cons bound rest ih =>
    cases values with
    | nil => cases hlength
    | cons value others =>
      have hlength' : others.length = rest.length := Nat.succ.inj hlength
      rw [List.zip_cons_cons, pick_cons, List.findIdx_cons, ih hlength']
      cases hle : x.le bound with
      | true => simp
      | false =>
        cases rest with
        | nil =>
          obtain rfl := List.length_eq_zero_iff.1 hlength'
          simp
        | cons next rest =>
          cases others with
          | nil => cases hlength'
          | cons second others => simp [Nat.succ_min_succ]

end Source

namespace Rule.Weighted

/-- The place that a draw falls on: what is drawn if each value is its own place. -/
def place (rule : Rule.Weighted) (source : Source) : Except Failure (Fin rule.values.length) :=
  (source.chooseWeighted (List.finRange rule.values.length) rule.bounds).1

/-- What so many of the weights add up to. -/
def share (rule : Rule.Weighted) (count : ℕ) : ℚ :=
  ((rule.weights.take count).map Double.toRat).sum

/-- The running totals come out without rounding. -/
def HasExactBounds (rule : Rule.Weighted) : Prop :=
  ∀ (place : ℕ) (h : place < rule.bounds.length),
    rule.bounds[place].isFinite = true ∧ rule.bounds[place].toRat = rule.share (place + 1)

/-- The place of the first running total that a number does not exceed, or else the last place. -/
def position (rule : Rule.Weighted) (x : Double) : ℕ :=
  min (rule.bounds.findIdx (x.le ·)) (rule.values.length - 1)

variable {rule : Rule.Weighted} {source : Source}

theorem place_eq_ok_iff (h : (Rule.weighted rule).WellFormed) {place : Fin rule.values.length} :
    rule.place source = .ok place ↔ rule.position source.draw.1 = place := by
  obtain ⟨hvalues, -, hlength, -⟩ := h
  have hplaces : (List.finRange rule.values.length).length = rule.bounds.length := by
    rw [List.length_finRange, hlength]
  have hne : List.finRange rule.values.length ≠ [] := by
    rwa [ne_eq, ← List.length_eq_zero_iff, List.length_finRange, List.length_eq_zero_iff]
  obtain ⟨found, hpick, hchoice⟩ := source.exists_chooseWeighted hne hplaces
  rw [Source.pick_zip _ hplaces, List.length_finRange] at hpick
  have hposition : rule.position source.draw.1 = found := by
    obtain ⟨hlt, hfound⟩ := List.getElem?_eq_some_iff.1 hpick
    rw [← hfound, List.getElem_finRange]
    rfl
  rw [Rule.Weighted.place, hchoice, hposition, Except.ok.injEq, Fin.ext_iff]

/-- A draw gives the value at its place. -/
theorem draw_eq_place (h : (Rule.weighted rule).WellFormed) :
    ∃ place, rule.place source = .ok place ∧
      (rule.draw source).1 = .ok (some rule.values[place]) := by
  have hplace {place : Fin rule.values.length} := @place_eq_ok_iff rule source h place
  obtain ⟨hvalues, -, hlength, -⟩ := h
  obtain ⟨value, hpick, hchoice⟩ := source.exists_chooseWeighted hvalues hlength.symm
  rw [Source.pick_zip _ hlength.symm] at hpick
  obtain ⟨hlt, rfl⟩ := List.getElem?_eq_some_iff.1 hpick
  refine ⟨⟨rule.position source.draw.1, hlt⟩, hplace.2 rfl, ?_⟩
  change (source.chooseWeighted rule.values rule.bounds).1.map some = _
  rw [hchoice]
  rfl

theorem share_succ {place : ℕ} (h : place < rule.weights.length) :
    rule.share (place + 1) = rule.share place + rule.weights[place].toRat := by
  rw [share, List.take_succ_eq_append_getElem h, List.map_append, List.sum_append, share]
  simp

theorem share_mono (h : ∀ weight ∈ rule.weights, 0 ≤ weight.toRat) : Monotone rule.share := by
  refine monotone_nat_of_le_succ fun place => ?_
  rcases lt_or_ge place rule.weights.length with hlt | hge
  · rw [share_succ hlt]
    exact le_add_of_nonneg_right (h _ (List.getElem_mem hlt))
  · rw [share, share, List.take_of_length_le hge, List.take_of_length_le (by omega)]

/-- A number falls on one of the first places exactly if their weights reach it. -/
theorem position_lt_iff (hformed : (Rule.weighted rule).WellFormed)
    (hnonneg : ∀ weight ∈ rule.weights, 0 ≤ weight.toRat) (hexact : rule.HasExactBounds)
    (hsum : rule.share rule.values.length = 1) {x : Double} (hx : x.isFinite = true)
    (hone : x.toRat ≤ 1) {count : ℕ} (hcount : count ≤ rule.values.length) :
    rule.position x < count ↔ 0 < count ∧ x.toRat ≤ rule.share count := by
  obtain ⟨-, -, hlength, -⟩ := hformed
  have hmono := share_mono hnonneg
  have hreaches {place : ℕ} (h : place < rule.bounds.length) :
      x.le rule.bounds[place] = true ↔ x.toRat ≤ rule.share (place + 1) := by
    obtain ⟨hfinite, hvalue⟩ := hexact place h
    rw [Double.le_iff_toRat_le hx hfinite, hvalue]
  cases count with
  | zero => simp
  | succ place =>
    have hplace : place < rule.bounds.length := by omega
    rw [position, Nat.lt_succ_iff, min_le_iff]
    refine ⟨fun hle => ⟨place.succ_pos, ?_⟩, fun ⟨_, hle⟩ => .inl ?_⟩
    · rcases hle with hfirst | hlast
      · have hlt : rule.bounds.findIdx (x.le ·) < rule.bounds.length := by omega
        have hbound := (hreaches hlt).1 (List.findIdx_getElem (w := hlt))
        exact hbound.trans (hmono (by omega))
      · rw [show place + 1 = rule.values.length by omega, hsum]
        exact hone
    · by_contra hafter
      have hpassed := List.not_of_lt_findIdx (not_le.1 hafter)
      rw [(hreaches hplace).2 hle] at hpassed
      cases hpassed

/-- The states that draw one of the first places are as many as their weights ask for, or one more. -/
theorem ncard_position_lt (hformed : (Rule.weighted rule).WellFormed)
    (hnonneg : ∀ weight ∈ rule.weights, 0 ≤ weight.toRat) (hexact : rule.HasExactBounds)
    (hsum : rule.share rule.values.length = 1) {count : ℕ} (hcount : count ≤ rule.values.length) :
    rule.share count * 2 ^ 32 ≤ {next : ℕ | next < 2 ^ 32 ∧
        rule.position (.ofScaled false next (-32)) < count}.ncard ∧
      ({next : ℕ | next < 2 ^ 32 ∧ rule.position (.ofScaled false next (-32)) < count}.ncard : ℚ) ≤
        rule.share count * 2 ^ 32 + 1 := by
  have hmono := share_mono hnonneg
  have hzero : rule.share 0 = 0 := by simp [share]
  have hlow : 0 ≤ rule.share count := hzero ▸ hmono (Nat.zero_le count)
  have hhigh : rule.share count ≤ 1 := hsum ▸ hmono hcount
  rcases Nat.eq_zero_or_pos count with rfl | hpos
  · simp [hzero]
  have hset : {next : ℕ | next < 2 ^ 32 ∧ rule.position (.ofScaled false next (-32)) < count} =
      {next : ℕ | next < 2 ^ 32 ∧ (next : ℚ) ≤ rule.share count * (2 ^ 32 : ℕ)} := by
    refine Set.ext fun next => and_congr_right fun hnext => ?_
    obtain ⟨hfinite, hvalue, hone⟩ := Double.toRat_ofState hnext
    rw [position_lt_iff hformed hnonneg hexact hsum hfinite hone hcount, hvalue, zpow_neg,
      ← div_eq_mul_inv, div_le_iff₀ (by positivity)]
    exact_mod_cast and_iff_right hpos
  rw [hset]
  exact_mod_cast ncard_le_share hlow hhigh

/-- A rule that is let through draws the value at some place. If its weights add up to one and its
running totals are not rounded, each place is drawn from as many states as its weight asks for, up to
one state. -/
theorem draw_proportional {values weights : Datum} {rule : Rule.Weighted}
    (hdefine : Rule.Weighted.define values weights = .ok rule)
    (hsum : (rule.weights.map Double.toRat).sum = 1) (hexact : rule.HasExactBounds) :
    (∀ source : Source, ∃ place, rule.place source = .ok place ∧
        (rule.draw source).1 = .ok (some rule.values[place])) ∧
      ∀ (source : Source) (place : Fin rule.values.length),
        ∃ weight, rule.weights[place.val]? = some weight ∧
          |({state : Fin stateCount | rule.place (source.seedWith state.val) = .ok place}.ncard : ℚ) -
            weight.toRat * 2 ^ 32| ≤ 1 := by
  have hformed := wellFormed_of_define hdefine
  obtain ⟨-, hlength, hweights, -⟩ := accepted_of_define hdefine
  have hnonneg : ∀ weight ∈ rule.weights, 0 ≤ weight.toRat :=
    fun weight hweight => (hweights weight hweight).1
  have hall : rule.share rule.values.length = 1 := by
    rw [share, hlength, List.take_length, hsum]
  refine ⟨fun source => draw_eq_place hformed, fun source place => ?_⟩
  have hplace : place.val < rule.weights.length := hlength ▸ place.isLt
  refine ⟨rule.weights[place.val], List.getElem?_eq_getElem hplace, ?_⟩
  have hcounted : {state : Fin stateCount |
      rule.place (source.seedWith state.val) = .ok place}.ncard =
        {next | next < 2 ^ 32 ∧ rule.position (.ofScaled false next (-32)) = place.val}.ncard := by
    simp only [place_eq_ok_iff hformed, Source.draw_eq_ofState]
    exact source.ncard_advance fun next => rule.position (.ofScaled false next (-32)) = place.val
  -- the states of the place are what the counts up to it and before it leave between them
  obtain ⟨hlow, hhigh⟩ := ncard_position_lt hformed hnonneg hexact hall place.isLt.le
  obtain ⟨hlow', hhigh'⟩ :=
    ncard_position_lt hformed hnonneg hexact hall (Nat.succ_le_of_lt place.isLt)
  rw [ncard_lt_succ (2 ^ 32) (fun next => rule.position (.ofScaled false next (-32))), Nat.cast_add,
    share_succ hplace] at hlow' hhigh'
  rw [hcounted, abs_le]
  constructor
  · linarith
  · linarith

/-- Two values with half of the weight each, and one without weight between them. -/
def halvedRule : Rule.Weighted where
  values := ["a", "b", "c"]
  weights := [.ofQuotient false 1 2, 0, .ofQuotient false 1 2]

theorem define_halvedRule : Rule.Weighted.define (.list [.text "a", .text "b", .text "c"])
    (.list [.number (.real (.ofQuotient false 1 2)), .number 0,
      .number (.real (.ofQuotient false 1 2))]) = .ok halvedRule := by
  refine eq_ok_of_toOption ?_
  decide +kernel

theorem draw_proportional_halvedRule :
    (halvedRule.weights.map Double.toRat).sum = 1 ∧ halvedRule.HasExactBounds ∧
      (∀ source : Source, ∃ place, halvedRule.place source = .ok place ∧
        (halvedRule.draw source).1 = .ok (some halvedRule.values[place])) ∧
      ∀ (source : Source) (place : Fin halvedRule.values.length),
        ∃ weight, halvedRule.weights[place.val]? = some weight ∧
          |({state : Fin stateCount |
            halvedRule.place (source.seedWith state.val) = .ok place}.ncard : ℚ) -
              weight.toRat * 2 ^ 32| ≤ 1 := by
  have hsum : (halvedRule.weights.map Double.toRat).sum = 1 := by decide +kernel
  have hexact : halvedRule.HasExactBounds := by
    rw [HasExactBounds]
    decide +kernel
  exact ⟨hsum, hexact, draw_proportional define_halvedRule hsum hexact⟩

end Rule.Weighted

end TextGrammar
