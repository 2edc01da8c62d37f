import TextGrammar.Proofs.Random
import TextGrammar.Proofs.Rule.Accepted

/-! Ranges: they have at least one step, draw nothing but steps, and write no tokens. -/
namespace TextGrammar

theorem percent_notMem_digits (n : ℕ) : '%' ∉ Nat.toDigits 10 n := by
  intro h
  have := Nat.isDigit_of_mem_toDigits (by decide) (by decide) h
  simp [Char.isDigit] at this

theorem percent_notMem_integer (n : ℤ) : '%' ∉ (toString n).toList := by
  rw [Int.toString_eq_repr]
  cases n with
  | ofNat n => simpa [Int.repr, Nat.toList_repr] using percent_notMem_digits n
  | negSucc n => simpa [Int.repr, Nat.toList_repr] using percent_notMem_digits (n + 1)

theorem Double.percent_notMem_decimalText (digits : ℕ) (power : ℤ) :
    '%' ∉ (decimalText digits power).toList := by
  have hshown : '%' ∉ ((Nat.toDigits 10 digits).reverse.dropWhile (· == '0')).reverse := by
    intro h
    apply percent_notMem_digits digits
    exact List.mem_reverse.1 ((List.dropWhile_sublist _).subset (List.mem_reverse.1 h))
  generalize hs : ((Nat.toDigits 10 digits).reverse.dropWhile (· == '0')).reverse = shown at hshown
  have htake (n : ℕ) : '%' ∉ shown.take n := fun h => hshown (List.mem_of_mem_take h)
  have hdrop (n : ℕ) : '%' ∉ shown.drop n := fun h => hshown (List.mem_of_mem_drop h)
  have hsize (n : ℕ) := percent_notMem_digits n
  simp only [decimalText, hs]
  split
  · split
    · simp [hshown, List.mem_replicate]
    · split <;> simp [htake, hdrop, List.mem_replicate]
  · have htail : '%' ∉ shown.tail := by simpa using hdrop 1
    split <;> split <;> split <;> simp [htake, htail, hsize]

theorem Double.percent_notMem_text (x : Double) : '%' ∉ x.text.toList := by
  cases x with
  | nan => decide
  | infinite negative => cases negative <;> decide
  | finite negative significand exponent =>
    have hd := percent_notMem_decimalText (shortestDigits significand exponent).1
      (shortestDigits significand exponent).2
    simp only [text]
    split <;> split <;> simp_all

theorem Amount.percent_notMem_plainText (amount : Amount) : '%' ∉ amount.plainText.toList := by
  cases amount with
  | whole n => exact percent_notMem_integer n
  | real x =>
    simp only [plainText]
    split
    · split
      · exact percent_notMem_integer _
      · exact x.percent_notMem_text
    · exact x.percent_notMem_text

theorem Amount.plainText_of_plainText? {amount : Amount} {text : String}
    (h : amount.plainText? = .ok text) : amount.plainText = text := by
  cases amount with
  | whole n =>
    simp only [plainText?] at h
    -- The bound on what is written is a power that must not be multiplied out.
    generalize checkWritable n = checked at h
    obtain ⟨-, -, h⟩ := bind_eq_ok.1 h
    exact pure_eq_ok.1 h
  | real x => exact pure_eq_ok.1 h

namespace Rule.Range

variable {rule : Rule.Range} {source : Source} {text : String}

theorem percent_notMem_stepText {value : Amount} (h : rule.stepText value = .ok text) :
    '%' ∉ text.toList := by
  simp only [stepText] at h
  split at h
  · obtain ⟨sum, -, h⟩ := bind_eq_ok.1 h
    obtain ⟨n, -, h⟩ := bind_eq_ok.1 h
    rw [← pure_eq_ok.1 h]
    exact percent_notMem_integer n
  · rw [← Amount.plainText_of_plainText? h]
    exact value.percent_notMem_plainText

theorem percent_notMem_nth {index : Amount} (h : rule.nth index = .ok text) :
    '%' ∉ text.toList := by
  obtain ⟨offset, -, h⟩ := bind_eq_ok.1 h
  obtain ⟨value, -, h⟩ := bind_eq_ok.1 h
  exact percent_notMem_stepText h

theorem unit_nonneg (h : (Rule.range rule).Accepted) : 0 ≤ rule.unit.toRat := by
  cases hs : rule.step with
  | none => simp [unit, hs, show (1 : Amount) = .whole 1 from rfl, Amount.toRat]
  | some step =>
    simp only [unit, hs, Option.getD_some]
    exact Amount.toRat_nonneg_of_not_le_zero (h.2.2.2 step hs)

/-- Bounds in order are at least no step apart, and the low bound counts. -/
theorem size_pos {count : ℕ} (h : (Rule.range rule).Accepted) (hs : rule.size = .ok count) :
    0 < count := by
  obtain ⟨width, hw, hs⟩ := bind_eq_ok.1 hs
  obtain ⟨quotient, hq, hs⟩ := bind_eq_ok.1 hs
  obtain ⟨steps, hf, hs⟩ := bind_eq_ok.1 hs
  have hwidth := Amount.toRat_sub?_nonneg h.2.1 h.1 h.2.2.1 hw
  have hquotient := Amount.toRat_div?_nonneg hwidth (unit_nonneg h) hq
  have hsteps : 0 ≤ steps := by
    rw [Double.floor?_eq_ok hf]
    exact Int.floor_nonneg.2 hquotient
  rw [← pure_eq_ok.1 hs]
  omega

/-- A range with a step draws one of its steps. -/
theorem exists_nth_of_draw {step : Amount} (h : (Rule.range rule).Accepted)
    (hs : rule.step = some step) (hd : (rule.draw source).1 = .ok text) :
    ∃ count, rule.size = .ok count ∧ ∃ index < count, rule.nth (.whole index) = .ok text := by
  simp only [draw, hs] at hd
  split at hd
  · cases hd
  · rename_i count hc
    dsimp only at hd
    generalize hv : (Source.amountBetween 0 (.whole count) source).1 = value at hd
    obtain ⟨offset, rfl, hd⟩ := bind_eq_ok.1 hd
    obtain ⟨index, hi, rfl⟩ := Source.exists_whole_of_amountBetween (size_pos h hc) hv
    refine ⟨count, hc, index, hi, ?_⟩
    simp only [nth, unit, hs, Option.getD_some]
    exact hd

end Rule.Range

end TextGrammar
