import TextGrammar.Proofs.Number.Share
import TextGrammar.Random

/-! What the random source draws: places and offsets below the count they are drawn for. -/
namespace TextGrammar

theorem nextState_lt (state : ℕ) : nextState state < 2 ^ 32 := Nat.mod_lt _ (by decide)

/-- Three roundings do not make up for the one state in `2 ^ 32` that is missing to the count. -/
theorem rounded_product_lt {state count x y : ℚ} (hs : state + 1 ≤ 2 ^ 32) (hc : 0 < count)
    (hy0 : 0 ≤ y) (hx : x ≤ state * 2 ^ (-32 : ℤ) * (1 + 2 ^ (-53 : ℤ)))
    (hy : y ≤ count * 2 ^ (0 : ℤ) * (1 + 2 ^ (-53 : ℤ))) (hstate : 0 ≤ state) :
    x * y * (1 + 2 ^ (-53 : ℤ)) < count := by
  have hle : state ≤ 2 ^ 32 - 1 := by linarith
  calc x * y * (1 + 2 ^ (-53 : ℤ))
      ≤ (state * 2 ^ (-32 : ℤ) * (1 + 2 ^ (-53 : ℤ))) *
          (count * 2 ^ (0 : ℤ) * (1 + 2 ^ (-53 : ℤ))) * (1 + 2 ^ (-53 : ℤ)) := by gcongr
    _ ≤ ((2 ^ 32 - 1) * 2 ^ (-32 : ℤ) * (1 + 2 ^ (-53 : ℤ))) *
          (count * 2 ^ (0 : ℤ) * (1 + 2 ^ (-53 : ℤ))) * (1 + 2 ^ (-53 : ℤ)) := by gcongr
    _ = count * ((2 ^ 32 - 1) * 2 ^ (-32 : ℤ) * (1 + 2 ^ (-53 : ℤ)) ^ 3) := by ring
    _ < count * 1 := by
      gcongr
      norm_num
    _ = count := mul_one _

/-- What is drawn for a count is below it. -/
theorem Double.toRat_mul_ofInt_lt {state count : ℕ} (hs : state < 2 ^ 32) (hc : 0 < count) :
    0 ≤ (ofScaled false state (-32) * ofInt count).toRat ∧
      (ofScaled false state (-32) * ofInt count).toRat < count := by
  have hcount : (0 : ℚ) < count := by exact_mod_cast hc
  change 0 ≤ (mul (ofScaled false state (-32)) (ofInt count)).toRat ∧
    (mul (ofScaled false state (-32)) (ofInt count)).toRat < count
  have hbx := @toRat_ofScaled_le state (-32) (by omega)
  have hby : (ofInt count).toRat ≤ count * 2 ^ (0 : ℤ) * (1 + 2 ^ (-53 : ℤ)) := by
    rw [ofInt, decide_eq_false (by omega)]
    exact toRat_ofScaled_le (by omega)
  cases hx : ofScaled false state (-32) with
  | nan => simpa [mul, toRat] using hc
  | infinite s =>
    cases ofInt count with
    | finite t n f =>
      simp only [mul]
      split <;> simpa [toRat] using hc
    | _ => simpa [mul, toRat] using hc
  | finite s m e =>
    cases hy : ofInt count with
    | nan => simpa [mul, toRat] using hc
    | infinite t =>
      simp only [mul]
      split <;> simpa [toRat] using hc
    | finite t n f =>
      obtain ⟨rfl, hf, -⟩ := ofInt_natCast_eq_finite hc.ne' hy
      simp only [mul]
      rcases Nat.eq_zero_or_pos (m * n) with hz | hpos
      · simpa [hz, toRat_ofScaled_zero] using hc
      have hstate : state ≠ 0 := by
        rintro rfl
        cases hx
        simp at hpos
      obtain ⟨rfl, he, -⟩ := ofScaled_eq_finite hstate hx
      have he : -84 ≤ e := by
        simp only [gridExponent] at he
        omega
      refine ⟨toRat_ofScaled_nonneg, ?_⟩
      rw [hx, toRat_finite_false] at hbx
      rw [hy, toRat_finite_false] at hby
      calc (ofScaled false (m * n) (e + f)).toRat
          ≤ (m * n : ℕ) * 2 ^ (e + f) * (1 + 2 ^ (-53 : ℤ)) := toRat_ofScaled_le (by omega)
        _ = (m * 2 ^ e) * (n * 2 ^ f) * (1 + 2 ^ (-53 : ℤ)) := by
          rw [zpow_add₀ (two_ne_zero' ℚ)]
          push_cast
          ring
        _ < count := rounded_product_lt (by exact_mod_cast hs) hcount (by positivity) hbx hby
          state.cast_nonneg

/-- A state over the modulus is not rounded. -/
theorem Double.toRat_ofState {state : ℕ} (h : state < 2 ^ 32) :
    (ofScaled false state (-32)).isFinite = true ∧
      (ofScaled false state (-32)).toRat = state * 2 ^ (-32 : ℤ) ∧
      (ofScaled false state (-32)).toRat ≤ 1 := by
  have hle : (state : ℚ) * 2 ^ (-32 : ℤ) ≤ 1 := by
    calc (state : ℚ) * 2 ^ (-32 : ℤ) ≤ 2 ^ 32 * 2 ^ (-32 : ℤ) := by
          gcongr
          exact_mod_cast h.le
      _ = 1 := by norm_num
  have hfinite : (ofScaled false state (-32)).isFinite = true :=
    (within_ofScaled (k := 0) (by norm_num) (by norm_num)
      (by rwa [abs_toRat_finite, zpow_zero])).finite
  have hvalue : (ofScaled false state (-32)).toRat = state * 2 ^ (-32 : ℤ) :=
    toRat_ofScaled_eq (by omega) (by norm_num) rfl hfinite
  exact ⟨hfinite, hvalue, hvalue.trans_le hle⟩

namespace Source

theorem advance_lt (source : Source) : source.advance.1 < 2 ^ 32 := by
  rw [advance]
  split
  · exact nextState_lt _
  · exact nextState_lt _

theorem draw_eq_ofState (source : Source) :
    source.draw.1 = .ofScaled false source.advance.1 (-32) := rfl

/-- The number drawn is the next state over the modulus. -/
theorem toRat_draw (source : Source) :
    source.draw.1.isFinite = true ∧ source.draw.1.toRat = source.advance.1 * 2 ^ (-32 : ℤ) ∧
      source.draw.1.toRat ≤ 1 :=
  Double.toRat_ofState source.advance_lt

/-- A number drawn from `[0, 1)`, stretched to a count and floored, is a place below the count. -/
theorem floor_stretched {source : Source} {count : ℕ} (hc : 0 < count) {product : Amount}
    {offset : ℤ} (hp : (Amount.real source.draw.1).mul? (.whole count) = .ok product)
    (ho : product.floor? = .ok offset) : 0 ≤ offset ∧ offset < count := by
  obtain ⟨x, y, hxy, hy, rfl⟩ := Amount.combine_eq_ok hp (by simp)
  cases hxy
  obtain ⟨rfl, -⟩ := Double.eq_of_ofInt?_eq_ok hy
  obtain ⟨hlow, hhigh⟩ := Double.toRat_mul_ofInt_lt source.advance_lt hc
  have hfloor := Double.floor?_eq_ok ho
  refine ⟨hfloor ▸ Int.floor_nonneg.2 hlow, ?_⟩
  rw [hfloor, Int.floor_lt]
  exact_mod_cast hhigh

theorem exists_whole_of_amountBetween {source : Source} {count : ℕ} {amount : Amount}
    (hc : 0 < count) (h : (source.amountBetween 0 (.whole count)).1 = .ok amount) :
    ∃ index < count, amount = .whole (index : ℕ) := by
  simp only [amountBetween] at h
  obtain ⟨width, hw, hrest⟩ := bind_eq_ok.1 h
  obtain ⟨product, hp, hrest⟩ := bind_eq_ok.1 hrest
  obtain ⟨offset, ho, hsum⟩ := bind_eq_ok.1 hrest
  obtain rfl : width = .whole count := by
    cases hw
    simp
  obtain ⟨hnonneg, hlt⟩ := floor_stretched hc hp ho
  refine ⟨offset.toNat, by omega, ?_⟩
  cases hsum
  simp [Int.toNat_of_nonneg hnonneg]

theorem index_lt {source : Source} {count place : ℕ} (hc : 0 < count)
    (h : (source.index count).1 = .ok place) : place < count := by
  simp only [index] at h
  obtain ⟨product, hp, hrest⟩ := bind_eq_ok.1 h
  obtain ⟨offset, ho, hplace⟩ := bind_eq_ok.1 hrest
  obtain ⟨hnonneg, hlt⟩ := floor_stretched hc hp ho
  obtain rfl := pure_eq_ok.1 hplace
  omega

/-- A number drawn is stretched to a width without growing beyond it. -/
theorem exists_stretched (source : Source) {width : Amount} {k : ℤ} (h : width.Within k)
    (hlow : -1074 ≤ k) (hhigh : k ≤ 1022) :
    ∃ product, (Amount.real source.draw.1).mul? width = .ok product ∧ product.Within k := by
  obtain ⟨hfinite, -, hle⟩ := source.toRat_draw
  have hdraw : (Amount.real source.draw.1).Within 0 := by
    refine ⟨hfinite, ?_⟩
    rw [zpow_zero]
    exact (abs_of_nonneg Double.toRat_ofScaled_nonneg).trans_le hle
  simpa using hdraw.exists_mul? h (by norm_num) ⟨hlow, hhigh⟩ (by omega) (by omega)

theorem exists_amountBetween (source : Source) {count : ℕ} {k : ℤ}
    (h : (Amount.whole count).Within k) (hlow : -1074 ≤ k) (hhigh : k ≤ 1022) :
    ∃ amount, (source.amountBetween 0 (.whole count)).1 = .ok amount := by
  obtain ⟨product, hp, hwithin⟩ := source.exists_stretched h hlow hhigh
  have hwidth : (Amount.whole count).sub? 0 = .ok (.whole count) := by
    change Except.ok (Amount.whole (count - 0)) = _
    rw [sub_zero]
  refine ⟨.whole (⌊product.toRat⌋ + 0), bind_eq_ok.2 ⟨_, hwidth, bind_eq_ok.2 ⟨product, hp, ?_⟩⟩⟩
  exact bind_eq_ok.2 ⟨_, hwithin.exists_floor?, rfl⟩

/-- Up to `2 ^ 64`, a count is not too large to stretch a number to. -/
theorem exists_index {source : Source} {count : ℕ} (hc : count ≤ 2 ^ 64) :
    ∃ place, (source.index count).1 = .ok place := by
  have hcount : (Amount.whole count).Within 64 := Amount.within_whole.2 (by exact_mod_cast hc)
  obtain ⟨product, hp, hwithin⟩ := source.exists_stretched hcount (by norm_num) (by norm_num)
  refine ⟨⌊product.toRat⌋.toNat, bind_eq_ok.2 ⟨product, hp, ?_⟩⟩
  exact bind_eq_ok.2 ⟨_, hwithin.exists_floor?, rfl⟩

/-- A choice fails where there is nothing to choose from, or where a count is out of range. -/
theorem choose_eq_error {α : Type} {values : List α} {source : Source} {failure : Failure}
    (h : (source.choose values).1 = .error failure) :
    values = [] ∧ failure = .value .nothingToChoose ∨ ∃ fault, failure = .number fault := by
  simp only [choose] at h
  split at h
  · rename_i hempty
    cases h
    exact .inl ⟨List.isEmpty_iff.1 hempty, rfl⟩
  · rename_i hvalues
    split at h
    · rename_i fault _ _
      cases h
      exact .inr ⟨fault, rfl⟩
    · rename_i place after hplace
      have hpos : 0 < values.length := List.length_pos_iff.2 (by simpa using hvalues)
      have hlt : place < values.length := index_lt hpos (congrArg Prod.fst hplace)
      rw [List.getElem?_eq_getElem hlt] at h
      cases h

theorem choose_eq_ok {α : Type} {values : List α} {source : Source} {place : ℕ}
    (hlt : place < values.length) (hplace : (source.index values.length).1 = .ok place) :
    (source.choose values).1 = .ok values[place] := by
  have hne : values ≠ [] := List.length_pos_iff.1 (Nat.zero_lt_of_lt hlt)
  rw [choose, if_neg (by simpa using hne)]
  rcases hindex : source.index values.length with ⟨result, after⟩
  obtain rfl : result = .ok place := (congrArg Prod.fst hindex).symm.trans hplace
  simp only [List.getElem?_eq_getElem hlt]

/-- There is a value for a choice from a list that is not too long. -/
theorem exists_choose {α : Type} {values : List α} {source : Source} (hne : values ≠ [])
    (hlength : values.length ≤ 2 ^ 64) : ∃ value, (source.choose values).1 = .ok value := by
  obtain ⟨place, hplace⟩ := @exists_index source _ hlength
  exact ⟨_, choose_eq_ok (index_lt (List.length_pos_iff.2 hne) hplace) hplace⟩

theorem pick_cons {α : Type} (x : Double) (value : α) (bound : Double)
    (rest : List (α × Double)) :
    pick x ((value, bound) :: rest) =
      if x.le bound ∨ rest = [] then some value else pick x rest := by
  cases rest with
  | nil => simp [pick]
  | cons next rest => simp [pick]

theorem exists_pick {α : Type} (x : Double) {bounds : List (α × Double)} (h : bounds ≠ []) :
    ∃ value, pick x bounds = some value := by
  fun_induction pick x bounds with
  | case1 => exact absurd rfl h
  | case2 value bound => exact ⟨value, rfl⟩
  | case3 value bound rest hrest hle => exact ⟨value, rfl⟩
  | case4 value bound rest hrest hle ih => exact ih (by simpa using hrest)

/-- Where each value has a bound, one of them is picked. -/
theorem exists_chooseWeighted {α : Type} {values : List α} {bounds : List Double} (source : Source)
    (hne : values ≠ []) (hlength : values.length = bounds.length) :
    ∃ value, pick source.draw.1 (values.zip bounds) = some value ∧
      (source.chooseWeighted values bounds).1 = .ok value := by
  have hzip : values.zip bounds ≠ [] := by
    intro hnil
    rcases List.zip_eq_nil_iff.1 hnil with rfl | rfl
    · exact hne rfl
    · exact hne (List.length_eq_zero_iff.1 hlength)
  obtain ⟨value, hvalue⟩ := exists_pick source.draw.1 hzip
  refine ⟨value, hvalue, ?_⟩
  simp only [chooseWeighted, if_neg (not_not.2 hlength), List.isEmpty_iff, if_neg hne, hvalue]

/-- A choice by weight fails only where bounds are missing or there is nothing to choose from. -/
theorem chooseWeighted_eq_error {α : Type} {values : List α} {bounds : List Double}
    {source : Source} {failure : Failure}
    (h : (source.chooseWeighted values bounds).1 = .error failure) :
    values.length ≠ bounds.length ∧ failure = .value .lengthsDiffer ∨
      values = [] ∧ failure = .value .nothingToChoose := by
  by_cases hlength : values.length = bounds.length
  · by_cases hne : values = []
    · rw [chooseWeighted, if_neg (not_not.2 hlength), if_pos (List.isEmpty_iff.2 hne)] at h
      cases h
      exact .inr ⟨hne, rfl⟩
    · obtain ⟨value, -, hchoice⟩ := exists_chooseWeighted source hne hlength
      rw [hchoice] at h
      cases h
  · rw [chooseWeighted, if_pos hlength] at h
    cases h
    exact .inl ⟨hlength, rfl⟩

end Source

end TextGrammar
