import TextGrammar.English.Ordinal
import TextGrammar.Proofs.Text.Runs

/-! Ordinals, word by word: each word of digits gets its suffix, and nothing else is put in. -/
namespace TextGrammar.English

open Pattern

variable {before : Option Char} {text run : List Char} {all : List (List Char)} {word : Bool}

/-- A run of digits with the suffix of its number; other runs stay as they are. -/
def withSuffix (run : List Char) : List Char :=
  if run.all isDigit then run ++ ordinalSuffix (digitRunValue run) else run

theorem withSuffix_of_not_digits (h : run.all isDigit = false) : withSuffix run = run := by
  rw [withSuffix, h]
  rfl

theorem all_isLower_ordinalSuffix (n : Int) : (ordinalSuffix n).all isLower = true := by
  unfold ordinalSuffix
  split_ifs <;> rfl

theorem ordinalSuffix_ne_nil (n : Int) : ordinalSuffix n ≠ [] := by
  unfold ordinalSuffix
  split_ifs <;> exact List.cons_ne_nil _ _

theorem all_isDigit_withSuffix (run : List Char) : (withSuffix run).all isDigit = false := by
  by_cases h : run.all isDigit = true
  · rw [withSuffix, if_pos h, List.all_append, h, Bool.true_and]
    obtain ⟨c, hc⟩ := List.exists_mem_of_ne_nil _ (ordinalSuffix_ne_nil (digitRunValue run))
    have hlower := List.all_eq_true.1 (all_isLower_ordinalSuffix _) c hc
    refine List.all_eq_false.2 ⟨c, hc, ?_⟩
    rw [isDigit_of_isLetter (isLetter_of_isLower hlower)]
    exact Bool.false_ne_true
  · rw [Bool.not_eq_true] at h
    rw [withSuffix_of_not_digits h, h]

theorem not_digits_of_gap (h : IsRun false run) : run.all isDigit = false := by
  obtain ⟨c, hc⟩ := List.exists_mem_of_ne_nil _ h.nonempty
  refine List.all_eq_false.2 ⟨c, hc, fun hdigit => ?_⟩
  have hkind := h.kind c hc
  rw [isWord_of_isDigit hdigit] at hkind
  cases hkind

theorem isRun_withSuffix (h : IsRun word run) : IsRun word (withSuffix run) := by
  by_cases hdigits : run.all isDigit = true
  · cases word with
    | false =>
      rw [not_digits_of_gap h] at hdigits
      cases hdigits
    | true =>
      rw [withSuffix, if_pos hdigits]
      refine ⟨by simp [h.nonempty], fun c hc => ?_⟩
      rcases List.mem_append.1 hc with hc | hc
      · exact h.kind c hc
      · exact isWord_of_isLower (List.all_eq_true.1 (all_isLower_ordinalSuffix _) c hc)
  · rwa [withSuffix, if_neg hdigits]

theorem alternates_map_withSuffix (h : Alternates word all) :
    Alternates word (all.map withSuffix) := by
  induction h with
  | nil => exact .nil
  | cons hrun _ ih => exact .cons (isRun_withSuffix hrun) ih

theorem loneDigits_run (hrun : IsRun true run) (hrest : ∀ c ∈ text.head?, isWord c = false)
    (hbefore : wordBefore before = false) :
    loneDigits before (run ++ text) = if run.all isDigit then run else [] := by
  rw [loneDigits, hbefore, takeWhile_stretch hrun.kind hrest]
  rfl

theorem startsWords_ordinalPattern : ordinalPattern.StartsWords := by
  intro before text h
  by_cases hbefore : wordBefore before = true
  · simp [ordinalPattern, loneDigits, hbefore] at h
  · refine ⟨Bool.eq_false_iff.2 hbefore, ?_⟩
    cases text with
    | nil => simp [ordinalPattern, loneDigits] at h
    | cons c text =>
      by_contra hc
      have hnot : isWord c = false := Bool.eq_false_iff.2 hc
      simp [ordinalPattern, loneDigits, hnot] at h

theorem ordinalPattern_run (hrun : IsRun true run) (htext : ∀ c ∈ text.head?, isWord c = false)
    (hbefore : wordBefore before = false) :
    ordinalPattern before (run ++ text) =
      if run.all isDigit then some (withSuffix run, run.length) else none := by
  rw [ordinalPattern, loneDigits_run hrun htext hbefore]
  by_cases hdigits : run.all isDigit = true
  · simp [withSuffix, hdigits, hrun.nonempty]
  · simp [hdigits]

theorem substituteFrom_ordinals (h : Alternates word all)
    (hbefore : word = true → wordBefore before = false) :
    ordinalPattern.substituteFrom before 0 all.flatten = (all.map withSuffix).flatten := by
  induction h generalizing before with
  | nil => rfl
  | @cons word run rest hrun hrest ih =>
    have hahead := (Alternates.cons hrun hrest).wordAhead_flatten
    rw [List.map_cons, List.flatten_cons, List.flatten_cons, ← ih hrun.wordBefore_getLast?]
    rw [List.flatten_cons] at hahead
    cases word with
    | false =>
      have hnone : ordinalPattern before (run ++ rest.flatten) = none := by
        refine Option.not_isSome_iff_eq_none.1 fun hsome => ?_
        rw [(startsWords_ordinalPattern _ _ hsome).2] at hahead
        cases hahead
      rw [withSuffix_of_not_digits (not_digits_of_gap hrun)]
      exact substituteFrom_run startsWords_ordinalPattern hrun hnone
    | true =>
      have hpattern := ordinalPattern_run hrun hrest.isWord_head? (hbefore rfl)
      split at hpattern
      · exact substituteFrom_found hrun.nonempty hpattern
      · rename_i hdigits
        rw [withSuffix, if_neg hdigits]
        exact substituteFrom_run startsWords_ordinalPattern hrun hpattern

theorem mem_runs_of_loneDigits {front : List Char} (h : loneDigits front.getLast? text ≠ []) :
    loneDigits front.getLast? text ∈ runs (front ++ text) ∧
      (loneDigits front.getLast? text).all isDigit = true := by
  obtain ⟨run, rest, rfl, hrun, hrest⟩ := exists_stretch isWord text
  simp only [loneDigits, takeWhile_stretch hrun hrest] at h ⊢
  split at h
  · exact (h rfl).elim
  · rename_i hfront
    split at h
    · rename_i hdigits
      have hword : IsRun true run := ⟨h, hrun⟩
      rw [if_neg hfront, if_pos hdigits]
      refine ⟨?_, hdigits⟩
      rw [runs_append, hword.runs_append hrest]
      · simp
      · intro a ha b hb
        obtain ⟨c, run, rfl⟩ := List.exists_cons_of_ne_nil h
        cases hb
        rw [Option.mem_def.1 ha, wordBefore, Bool.not_eq_true] at hfront
        rw [hfront, hrun b List.mem_cons_self]
        exact Bool.false_ne_true
    · exact (h rfl).elim

/-- Where each word of digits is short enough, all of them are read. -/
theorem overlongDigits?_of_short {front : List Char}
    (h : ∀ run ∈ runs (front ++ text), run.all isDigit = true → run.length ≤ maxNumeralDigits) :
    overlongDigits? front.getLast? text = none := by
  induction text generalizing front with
  | nil => rfl
  | cons c text ih =>
    have hshort : ¬(loneDigits front.getLast? (c :: text)).length > maxNumeralDigits := by
      by_cases hnone : loneDigits front.getLast? (c :: text) = []
      · rw [hnone]
        exact Nat.not_lt_zero _
      · obtain ⟨hmem, hdigits⟩ := mem_runs_of_loneDigits hnone
        exact Nat.not_lt.2 (h _ hmem hdigits)
    have hrest : overlongDigits? (front ++ [c]).getLast? text = none := ih (by simpa using h)
    rw [List.getLast?_concat] at hrest
    simp only [overlongDigits?, if_neg hshort, hrest]

theorem withOrdinals_eq
    (h : ∀ run ∈ runs text, run.all isDigit = true → run.length ≤ maxNumeralDigits) :
    withOrdinals text = .ok ((runs text).map withSuffix).flatten := by
  have hshort : overlongDigits? (List.getLast? []) text = none := overlongDigits?_of_short h
  rw [List.getLast?_nil] at hshort
  rw [withOrdinals, hshort, substitute]
  conv_lhs => rw [← flatten_runs text]
  rw [substituteFrom_ordinals (alternates_runs text) fun _ => rfl]

theorem runs_map_withSuffix (text : List Char) :
    runs ((runs text).map withSuffix).flatten = (runs text).map withSuffix :=
  (alternates_map_withSuffix (alternates_runs text)).runs_flatten

theorem withOrdinals_eq_self (h : ∀ run ∈ runs text, run.all isDigit = false) :
    withOrdinals text = .ok text := by
  have hnone : ∀ run ∈ runs text, run.all isDigit = true → run.length ≤ maxNumeralDigits := by
    intro run hrun hdigits
    rw [h run hrun] at hdigits
    cases hdigits
  have hsame : (runs text).map withSuffix = (runs text).map id :=
    List.map_congr_left fun run hrun => withSuffix_of_not_digits (h run hrun)
  rw [withOrdinals_eq hnone, hsame, List.map_id, flatten_runs]

end TextGrammar.English
