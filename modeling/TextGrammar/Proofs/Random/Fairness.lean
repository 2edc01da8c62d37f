import Mathlib.Algebra.Order.Floor.Div
import Mathlib.Data.Set.Card
import Mathlib.GroupTheory.GroupAction.Ring
import TextGrammar.Proofs.Generator.Seed
import TextGrammar.Proofs.Number.Magnitude
import TextGrammar.Proofs.Random.Period

/-! How evenly the source chooses: each place has as many states as the others, up to one. -/
namespace TextGrammar

section Parts

variable {total count place : ℕ}

/-- A range is cut into parts whose sizes are rounded either way. -/
theorem ceilDiv_add_sub_ceilDiv (hcount : 0 < count) (start : ℕ) :
    (start + total) ⌈/⌉ count - start ⌈/⌉ count = total / count ∨
      (start + total) ⌈/⌉ count - start ⌈/⌉ count = total ⌈/⌉ count := by
  have hstart : start ≤ count * (start ⌈/⌉ count) := (ceilDiv_le_iff_le_mul hcount).1 le_rfl
  have htotal : total ≤ count * (total ⌈/⌉ count) := (ceilDiv_le_iff_le_mul hcount).1 le_rfl
  have hhigh : (start + total) ⌈/⌉ count ≤ start ⌈/⌉ count + total ⌈/⌉ count := by
    rw [ceilDiv_le_iff_le_mul hcount, Nat.mul_add]
    exact Nat.add_le_add hstart htotal
  have hlow : start ⌈/⌉ count + total / count ≤ (start + total) ⌈/⌉ count := by
    have hsum : start + total ≤ count * ((start + total) ⌈/⌉ count) :=
      (ceilDiv_le_iff_le_mul hcount).1 le_rfl
    have hquotient := Nat.mul_div_le total count
    have hle : total / count ≤ (start + total) ⌈/⌉ count := by
      refine Nat.le_of_mul_le_mul_left ?_ hcount
      omega
    rw [← Nat.le_sub_iff_add_le hle, ceilDiv_le_iff_le_mul hcount, Nat.mul_sub]
    omega
  have hround : total ⌈/⌉ count ≤ total / count + 1 := by
    rw [ceilDiv_le_iff_le_mul hcount]
    exact (Nat.lt_mul_div_succ total hcount).le
  omega

/-- The numbers of a range that are scaled down to one place. -/
theorem setOf_scaled_eq_place (htotal : 0 < total) (hplace : place < count) :
    {state | state < total ∧ state * count / total = place} =
      Finset.Ico (place * total ⌈/⌉ count) ((place * total + total) ⌈/⌉ count) := by
  have hcount : 0 < count := Nat.zero_lt_of_lt hplace
  ext state
  have hhigh : state < (place * total + total) ⌈/⌉ count ↔ count * state < place * total + total :=
    lt_iff_lt_of_le_iff_le (ceilDiv_le_iff_le_mul hcount)
  have hrange : count * state < place * total + total → state < total := by
    intro hlt
    refine Nat.lt_of_mul_lt_mul_left (a := count) (hlt.trans_le ?_)
    rw [← Nat.succ_mul]
    exact Nat.mul_le_mul_right total hplace
  rw [Finset.coe_Ico, Set.mem_Ico, ceilDiv_le_iff_le_mul hcount, hhigh]
  change state < total ∧ state * count / total = place ↔ _
  rw [Nat.div_eq_iff htotal, mul_comm state]
  constructor
  · rintro ⟨-, hlow, hlt⟩
    omega
  · rintro ⟨hlow, hlt⟩
    exact ⟨hrange hlt, hlow, by omega⟩

theorem ncard_scaled_eq_place (htotal : 0 < total) (hplace : place < count) :
    {state | state < total ∧ state * count / total = place}.ncard ∈
      ({total / count, total ⌈/⌉ count} : Set ℕ) := by
  rw [setOf_scaled_eq_place htotal hplace, Set.ncard_coe_finset, Nat.card_Ico]
  exact ceilDiv_add_sub_ceilDiv (Nat.zero_lt_of_lt hplace) _

/-- Each place has a number that is scaled down to it, if there are no more places than numbers. -/
theorem exists_scaled_eq_place (hplace : place < count) (hle : count ≤ total) :
    ∃ state < total, state * count / total = place := by
  have hcount : 0 < count := Nat.zero_lt_of_lt hplace
  have htotal : 0 < total := hcount.trans_le hle
  have hfloor : 0 < total / count := Nat.div_pos hle hcount
  have hround : total / count ≤ total ⌈/⌉ count := floorDiv_le_ceilDiv (a := count) (b := total)
  have hsome : {state | state < total ∧ state * count / total = place}.ncard ≠ 0 := by
    rcases ncard_scaled_eq_place htotal hplace with hcard | hcard
    · rw [hcard]
      exact hfloor.ne'
    · rw [hcard]
      exact (hfloor.trans_le hround).ne'
  exact Set.nonempty_of_ncard_ne_zero hsome

end Parts

namespace Source

variable (source : Source)

theorem advance_seedWith (state : Fin stateCount) :
    (source.seedWith state.val).advance.1 = nextState state.val := by
  rw [seedWith_val]
  rfl

/-- The step permutes the states, so it is the same to count them before it or after it. -/
theorem ncard_advance (holds : ℕ → Prop) :
    {state : Fin stateCount | holds (source.seedWith state.val).advance.1}.ncard =
      {next | next < 2 ^ 32 ∧ holds next}.ncard := by
  refine Set.BijOn.ncard_eq (f := fun state => nextState state.val) ⟨?_, ?_, ?_⟩
  · intro state hstate
    have hholds : holds (source.seedWith state.val).advance.1 := hstate
    rw [advance_seedWith] at hholds
    exact ⟨nextState_lt _, hholds⟩
  · intro state _ other _ heq
    exact Fin.val_injective (bijOn_nextState.injOn state.isLt other.isLt heq)
  · rintro next ⟨hlt, hholds⟩
    obtain ⟨state, hstate, rfl⟩ := bijOn_nextState.surjOn hlt
    refine ⟨⟨state, hstate⟩, ?_, rfl⟩
    change holds (source.seedWith (Fin.mk state hstate : Fin stateCount).val).advance.1
    rwa [advance_seedWith]

variable {source} {count : ℕ}

/-- Up to `2 ^ 21`, the number drawn is stretched without rounding. -/
theorem index_eq (hcount : count ≤ 2 ^ 21) :
    (source.index count).1 = .ok (source.advance.1 * count / 2 ^ 32) := by
  obtain ⟨hx, hvalue, -⟩ := source.toRat_draw
  have hfactor : (Double.ofInt count).isFinite = true :=
    (Double.within_natCast hcount (by norm_num)).finite
  have hfactorValue : (Double.ofInt count).toRat = count * 2 ^ (0 : ℤ) := by
    rw [Double.ofInt_natCast] at hfactor ⊢
    exact Double.toRat_ofScaled_eq (hcount.trans_lt (by norm_num)) (by norm_num) rfl hfactor
  have hlt : source.advance.1 * count < 2 ^ 53 := by
    calc source.advance.1 * count < 2 ^ 32 * 2 ^ 21 :=
          Nat.mul_lt_mul_of_lt_of_le source.advance_lt hcount (by norm_num)
      _ = 2 ^ 53 := by norm_num
  have hexact : source.draw.1.toRat * (Double.ofInt count).toRat =
      (source.advance.1 * count : ℕ) * 2 ^ (-32 : ℤ) := by
    rw [hvalue, hfactorValue]
    push_cast
    ring
  obtain ⟨hfinite, hproduct⟩ :=
    Double.toRat_mul_eq hx hfactor hlt (by norm_num) (by norm_num) hexact
  have hmul : (Amount.real source.draw.1).mul? (.whole count) =
      .ok (.real (source.draw.1 * Double.ofInt count)) := by
    simp only [Amount.mul?, Amount.combine, Amount.toDouble?, Double.ofInt?_of_isFinite hfactor]
    rfl
  have hfloor : ⌊((source.advance.1 * count : ℕ) : ℚ) * 2 ^ (-32 : ℤ)⌋ =
      (source.advance.1 * count / 2 ^ 32 : ℕ) := by
    rw [zpow_neg, ← div_eq_mul_inv]
    exact_mod_cast Rat.floor_natCast_div_natCast (source.advance.1 * count) (2 ^ 32)
  simp only [index, hmul]
  have hplace := Double.floor?_of_isFinite hfinite
  rw [hproduct, hfloor] at hplace
  exact congrArg (Except.map Int.toNat) hplace

/-- A choice among up to `2 ^ 21` values falls on the place that the state after the step marks when
the states are cut into as many parts. The parts are as large as each other up to one state, and
each has the state of some seed. -/
theorem choose_fair {α : Type} {values : List α} (hne : values ≠ [])
    (hlength : values.length ≤ 2 ^ 21) :
    (∀ source : Source, ∃ place : Fin values.length,
        place.val = source.advance.1 * values.length / 2 ^ 32 ∧
          (source.index values.length).1 = .ok place.val ∧
          (source.choose values).1 = .ok values[place]) ∧
      (∀ (source : Source) (place : Fin values.length),
        {state : Fin stateCount |
            ((source.seedWith state.val).index values.length).1 = .ok place.val}.ncard ∈
          ({2 ^ 32 / values.length, 2 ^ 32 ⌈/⌉ values.length} : Set ℕ)) ∧
      ∀ place : Fin values.length, ∃ seed : Fin stateCount, ∀ source : Source,
        ((source.seedWith seed.val).choose values).1 = .ok values[place] := by
  have hpos := List.length_pos_iff.2 hne
  have hplaces (source : Source) : (source.index values.length).1 =
      .ok (source.advance.1 * values.length / 2 ^ 32) := index_eq hlength
  have hcount (source : Source) (place : Fin values.length) :
      {state : Fin stateCount |
          ((source.seedWith state.val).index values.length).1 = .ok place.val}.ncard ∈
        ({2 ^ 32 / values.length, 2 ^ 32 ⌈/⌉ values.length} : Set ℕ) := by
    simp only [hplaces, Except.ok.injEq]
    rw [source.ncard_advance fun next => next * values.length / 2 ^ 32 = place.val]
    exact ncard_scaled_eq_place (by norm_num) place.isLt
  refine ⟨?_, hcount, ?_⟩
  · intro source
    have hlt := index_lt hpos (hplaces source)
    exact ⟨⟨_, hlt⟩, rfl, hplaces source, choose_eq_ok hlt (hplaces source)⟩
  · intro place
    have hle : values.length ≤ 2 ^ 32 := hlength.trans (by norm_num)
    obtain ⟨next, hnext, hscaled⟩ := exists_scaled_eq_place place.isLt hle
    obtain ⟨state, hstate, rfl⟩ := bijOn_nextState.surjOn hnext
    refine ⟨⟨state, hstate⟩, fun source => choose_eq_ok place.isLt ?_⟩
    rw [hplaces, advance_seedWith, hscaled]

theorem choose_fair_three : ["a", "b", "c"] ≠ [] ∧ ["a", "b", "c"].length ≤ 2 ^ 21 ∧
    ((unseeded 0).seedWith 1).advance.1 * 3 / 2 ^ 32 = 0 ∧
      (((unseeded 0).seedWith 1).choose ["a", "b", "c"]).1 = .ok "a" ∧
        ∀ (source : Source) (place : Fin 3),
          {state : Fin stateCount |
              ((source.seedWith state.val).index 3).1 = .ok place.val}.ncard ∈
            ({2 ^ 32 / 3, 2 ^ 32 ⌈/⌉ 3} : Set ℕ) := by
  have hne : ["a", "b", "c"] ≠ [] := by decide
  have hlength : ["a", "b", "c"].length ≤ 2 ^ 21 := by decide
  obtain ⟨hplaces, hcount, -⟩ := choose_fair hne hlength
  have hscaled : ((unseeded 0).seedWith 1).advance.1 * 3 / 2 ^ 32 = 0 := by decide
  obtain ⟨place, hplace, -, hvalue⟩ := hplaces ((unseeded 0).seedWith 1)
  obtain rfl : place = ⟨0, by decide⟩ := Fin.ext (hplace.trans hscaled)
  exact ⟨hne, hlength, hscaled, hvalue, hcount⟩

end Source

end TextGrammar
