import Mathlib.Data.List.Chain
import TextGrammar.Text.Blank
import TextGrammar.Text.Case
import TextGrammar.Text.Code
import TextGrammar.Text.Digit
import TextGrammar.Text.Word

/-! Classes of characters: digits and letters are word characters, and blanks are none. -/
namespace TextGrammar

variable {ranges : List (Nat × Nat)} {n : Nat} {c : Char}

theorem exists_of_inRanges (h : inRanges ranges n = true) :
    ∃ range ∈ ranges, range.1 ≤ n ∧ n ≤ range.2 := by
  induction ranges with
  | nil => cases h
  | cons range rest ih =>
    rw [inRanges] at h
    split at h
    · cases h
    · rename_i hlow
      rcases Bool.or_eq_true .. ▸ h with hhigh | hrest
      · exact ⟨range, List.mem_cons_self, Nat.le_of_not_lt hlow, of_decide_eq_true hhigh⟩
      · obtain ⟨found, hmem, hfound⟩ := ih hrest
        exact ⟨found, List.mem_cons_of_mem _ hmem, hfound⟩

/-- Since the search stops early, all ranges count only if they ascend. -/
theorem inRanges_of_mem {range : Nat × Nat} (hascending : ranges.Pairwise fun r s => r.1 < s.1)
    (hmem : range ∈ ranges) (hlow : range.1 ≤ n) (hhigh : n ≤ range.2) :
    inRanges ranges n = true := by
  induction ranges with
  | nil => cases hmem
  | cons first rest ih =>
    rw [List.pairwise_cons] at hascending
    rw [inRanges]
    rcases List.mem_cons.1 hmem with rfl | hrest
    · rw [if_neg (Nat.not_lt.2 hlow), decide_eq_true hhigh, Bool.true_or]
    · have hfirst : first.1 < range.1 := hascending.1 range hrest
      rw [if_neg (by omega), ih hascending.2 hrest, Bool.or_true]

/-- The letters beyond ASCII that are taken for one of ASCII when case is ignored. -/
def oddLetters : List Char := ['\u017F', '\u212A', '\u0130', '\u0131']

/-- What is read off the tables of blanks, digits and word characters. -/
structure TablesAgree : Prop where
  ascending : wordRanges.IsChain fun r s => r.1 < s.1
  /-- All ten digits of a script stand in one range. -/
  digits : (digitZeros.all fun first => first.blt 0x60 || wordRanges.any fun range =>
    range.1.ble first && (first + 9).ble range.2) = true
  blanks : (blankRanges.all fun blank => wordRanges.all fun word =>
    blank.2.blt word.1 || word.2.blt blank.1) = true
  odd : (oddLetters.all fun c => isWord c && !isDigit c) = true

theorem tablesAgree : TablesAgree where
  ascending := by decide +kernel
  digits := by decide +kernel
  blanks := by decide +kernel
  odd := by decide +kernel

theorem wordRanges_ascending : wordRanges.Pairwise fun r s => r.1 < s.1 :=
  List.isChain_iff_pairwise (R := fun r s : Nat × Nat => r.1 < s.1) |>.1 tablesAgree.ascending

theorem isAlphanum_iff : c.isAlphanum = true ↔
    65 ≤ c.toNat ∧ c.toNat ≤ 90 ∨ 97 ≤ c.toNat ∧ c.toNat ≤ 122 ∨ 48 ≤ c.toNat ∧ c.toNat ≤ 57 := by
  have hranges : c.isAlphanum = (decide (65 ≤ c.val ∧ c.val ≤ 90) ||
      decide (97 ≤ c.val) && decide (c.val ≤ 122) ||
        decide (48 ≤ c.val) && decide (c.val ≤ 57)) := rfl
  rw [hranges]
  simp only [Bool.or_eq_true, Bool.and_eq_true, decide_eq_true_eq, UInt32.le_iff_toNat_le, or_assoc]
  exact Iff.rfl

theorem isWord_of_isAlphanum (hascii : c.toNat < 0x80) (h : c.isAlphanum = true) :
    isWord c = true := by
  rw [isWord, if_pos hascii, h, Bool.true_or]

theorem isUpper_iff : isUpper c = true ↔ 65 ≤ c.toNat ∧ c.toNat ≤ 90 := by
  simp only [isUpper, Bool.and_eq_true, decide_eq_true_eq]
  exact Iff.rfl

theorem isLower_iff : isLower c = true ↔ 97 ≤ c.toNat ∧ c.toNat ≤ 122 := by
  simp only [isLower, Bool.and_eq_true, decide_eq_true_eq]
  exact Iff.rfl

theorem isWord_of_isDigit (h : isDigit c = true) : isWord c = true := by
  unfold isDigit digitValue? at h
  split at h
  · rename_i hascii
    split at h
    · rename_i hdigit
      rw [Bool.and_eq_true, decide_eq_true_eq, decide_eq_true_eq] at hdigit
      exact isWord_of_isAlphanum hascii (isAlphanum_iff.2 (.inr (.inr hdigit)))
    · cases h
  · rename_i hascii
    rw [Option.isSome_map, List.find?_isSome] at h
    obtain ⟨first, hmem, hfirst⟩ := h
    rw [Bool.and_eq_true, decide_eq_true_eq, decide_eq_true_eq] at hfirst
    have hscripts : ∀ first ∈ digitZeros, first < 0x60 ∨
        ∃ range ∈ wordRanges, range.1 ≤ first ∧ first + 9 ≤ range.2 := by
      simpa only [List.all_eq_true, List.any_eq_true, Bool.or_eq_true, Bool.and_eq_true,
        Nat.blt_eq, Nat.ble_eq] using tablesAgree.digits
    rcases hscripts first hmem with hlow | ⟨range, hrange, hbelow, habove⟩
    · omega
    · rw [isWord, if_neg hascii]
      exact inRanges_of_mem wordRanges_ascending hrange (by omega) (by omega)

theorem isWord_of_isBlank (h : isBlank c = true) : isWord c = false := by
  obtain ⟨blank, hblank, hlow, hhigh⟩ := exists_of_inRanges h
  have hascii : ∀ blank ∈ blankRanges, blank.2 < 33 ∨ 0x80 ≤ blank.1 := by decide
  have hranges : ∀ blank ∈ blankRanges, ∀ word ∈ wordRanges,
      blank.2 < word.1 ∨ word.2 < blank.1 := by
    simpa only [List.all_eq_true, Bool.or_eq_true, Nat.blt_eq] using tablesAgree.blanks
  rw [Bool.eq_false_iff]
  intro hword
  rw [isWord] at hword
  split at hword
  · rw [Bool.or_eq_true, isAlphanum_iff, beq_iff_eq] at hword
    have := hascii blank hblank
    rcases hword with hword | rfl
    · omega
    · have hcode : '_'.toNat = 95 := rfl
      omega
  · obtain ⟨word, hword, hfirst, hlast⟩ := exists_of_inRanges hword
    have := hranges blank hblank word hword
    omega

theorem toNat_foldChar_of_isUpper (h : isUpper c = true) : (foldChar c).toNat = c.toNat + 32 := by
  rw [foldChar, if_pos h]
  have hrange := isUpper_iff.1 h
  exact toNat_ofNat (.inl (by omega))

/-- The letters are those of ASCII and the odd ones. -/
theorem isLetter_iff : isLetter c = true ↔
    isUpper c = true ∨ isLower c = true ∨ c ∈ oddLetters := by
  by_cases hupper : isUpper c = true
  · have hrange := isUpper_iff.1 hupper
    rw [isLetter, isLower_iff, toNat_foldChar_of_isUpper hupper]
    exact iff_of_true (by omega) (.inl hupper)
  · by_cases hodd : c ∈ oddLetters
    · refine iff_of_true ?_ (.inr (.inr hodd))
      simp only [oddLetters, List.mem_cons, List.not_mem_nil, or_false] at hodd
      rcases hodd with rfl | rfl | rfl | rfl <;> decide
    · have hfold : foldChar c = c := by
        simp only [oddLetters, List.mem_cons, List.not_mem_nil, or_false, not_or] at hodd
        obtain ⟨hs, hk, hi, hj⟩ := hodd
        simp [foldChar, hupper, hs, hk, hi, hj]
      rw [isLetter, hfold]
      simp [hupper, hodd]

theorem of_mem_oddLetters (h : c ∈ oddLetters) : isWord c = true ∧ isDigit c = false := by
  have hc := List.all_eq_true.1 tablesAgree.odd c h
  rwa [Bool.and_eq_true, Bool.not_eq_true'] at hc

theorem isWord_of_isLetter (h : isLetter c = true) : isWord c = true := by
  rcases isLetter_iff.1 h with hupper | hlower | hodd
  · have hrange := isUpper_iff.1 hupper
    exact isWord_of_isAlphanum (by omega) (isAlphanum_iff.2 (.inl hrange))
  · have hrange := isLower_iff.1 hlower
    exact isWord_of_isAlphanum (by omega) (isAlphanum_iff.2 (.inr (.inl hrange)))
  · exact (of_mem_oddLetters hodd).1

theorem isLetter_of_isLower (h : isLower c = true) : isLetter c = true :=
  isLetter_iff.2 (.inr (.inl h))

theorem isDigit_of_isLetter (h : isLetter c = true) : isDigit c = false := by
  have hascii (hlow : c.toNat < 0x80) (hnot : ¬(48 ≤ c.toNat ∧ c.toNat ≤ 57)) : isDigit c = false := by
    simp only [isDigit, digitValue?, if_pos hlow]
    rw [if_neg (by simpa only [Bool.and_eq_true, decide_eq_true_eq] using hnot)]
    rfl
  rcases isLetter_iff.1 h with hupper | hlower | hodd
  · have hrange := isUpper_iff.1 hupper
    exact hascii (by omega) (by omega)
  · have hrange := isLower_iff.1 hlower
    exact hascii (by omega) (by omega)
  · exact (of_mem_oddLetters hodd).2

theorem isWord_of_isLower (h : isLower c = true) : isWord c = true :=
  isWord_of_isLetter (isLetter_of_isLower h)

end TextGrammar
