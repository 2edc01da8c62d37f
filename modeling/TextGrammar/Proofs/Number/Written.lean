import Mathlib.Data.List.Basic
import TextGrammar.Number.Shortest

/-! The characters that a number is written in. -/
namespace TextGrammar.Double

variable {c : Char} {n : Nat}

/-- The characters of decimals, and the letters of what is no decimal. -/
def written : List Char :=
  ['0', '1', '2', '3', '4', '5', '6', '7', '8', '9', '.', 'e', '+', '-', 'n', 'a', 'i', 'f']

theorem mem_written_of_mem_toDigits (h : c ∈ Nat.toDigits 10 n) : c ∈ written := by
  obtain ⟨hlow, hhigh⟩ := Char.isDigit_iff_toNat.1
    (Nat.isDigit_of_mem_toDigits (by decide) (by decide) h)
  have hcodes : ∀ code ≤ '9'.toNat, '0'.toNat ≤ code → Char.ofNat code ∈ written := by decide
  have hmem := hcodes c.toNat hhigh hlow
  rwa [Char.ofNat_toNat] at hmem

theorem mem_written_of_mem_zeros (h : c ∈ List.replicate n '0') : c ∈ written := by
  rw [List.eq_of_mem_replicate h]
  decide

/-- The zeros at the end of the digits are not shown. -/
theorem mem_written_of_mem_shown
    (h : c ∈ ((Nat.toDigits 10 n).reverse.dropWhile (· == '0')).reverse) : c ∈ written := by
  have hmem := (List.dropWhile_sublist _).subset (List.mem_reverse.1 h)
  exact mem_written_of_mem_toDigits (List.mem_reverse.1 hmem)

theorem mem_written_of_mem_decimalText {digits : Nat} {power : Int}
    (h : c ∈ (decimalText digits power).toList) : c ∈ written := by
  have hshown {d : Char} := mem_written_of_mem_shown (c := d) (n := digits)
  simp only [decimalText] at h
  generalize ((Nat.toDigits 10 digits).reverse.dropWhile (· == '0')).reverse = shown at h hshown
  split at h
  · split at h
    · simp only [String.toList_ofList, List.mem_append, List.mem_cons] at h
      rcases h with (rfl | rfl | hzeros) | hdigits
      · decide
      · decide
      · exact mem_written_of_mem_zeros hzeros
      · exact hshown hdigits
    · simp only [String.toList_ofList, List.mem_append, List.mem_cons] at h
      rcases h with (hwhole | hzeros) | rfl | hpart
      · exact hshown (List.mem_of_mem_take hwhole)
      · exact mem_written_of_mem_zeros hzeros
      · decide
      · split at hpart
        · rw [List.mem_singleton.1 hpart]
          decide
        · exact hshown (List.mem_of_mem_drop hpart)
  · simp only [String.toList_ofList, List.mem_append, List.mem_cons, List.not_mem_nil,
      or_false] at h
    rcases h with ((hfirst | hpart) | rfl | rfl) | hsize
    · exact hshown (List.mem_of_mem_take hfirst)
    · split at hpart
      · cases hpart
      · rcases List.mem_cons.1 hpart with rfl | hrest
        · decide
        · exact hshown (List.mem_of_mem_drop hrest)
    · decide
    · split <;> decide
    · split at hsize
      · rcases List.mem_cons.1 hsize with rfl | hrest
        · decide
        · exact mem_written_of_mem_toDigits hrest
      · exact mem_written_of_mem_toDigits hsize

theorem mem_written_of_mem_text {x : Double} (h : c ∈ x.text.toList) : c ∈ written := by
  have hletters {word : String} (hall : (word.toList.all fun d => d ∈ written) = true) {d : Char}
      (hd : d ∈ word.toList) : d ∈ written :=
    of_decide_eq_true (List.all_eq_true.1 hall d hd)
  cases x with
  | nan => exact hletters (by decide) h
  | infinite negative => cases negative <;> exact hletters (by decide) h
  | finite negative significand exponent =>
    have hmagnitude {d : Char} (hd : d ∈ (if significand = 0 then "0.0" else
        decimalText (shortestDigits significand exponent).1
          (shortestDigits significand exponent).2).toList) : d ∈ written := by
      split at hd
      · exact hletters (by decide) hd
      · exact mem_written_of_mem_decimalText hd
    cases negative with
    | false => exact hmagnitude h
    | true =>
      have hminus : c ∈ ("-" ++ _ : String).toList := h
      rw [String.toList_append, List.mem_append] at hminus
      rcases hminus with hsign | hrest
      · exact hletters (by decide) hsign
      · exact hmagnitude hrest

end TextGrammar.Double
