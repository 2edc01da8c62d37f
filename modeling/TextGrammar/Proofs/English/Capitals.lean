import Mathlib.Data.List.Forall2
import TextGrammar.Proofs.English.Punctuation
import TextGrammar.Proofs.Text.Case
import TextGrammar.Proofs.Text.Occurrence
import TextGrammar.Proofs.Text.Runs

/-! Capitals after a sentence: one pass leaves no small letter there, and changes nothing else. -/
namespace TextGrammar.English

open Pattern

variable {before : Option Char} {text out found rest new blanks : List Char} {stop c d : Char}

/-- No small letter comes after a stop and blanks. -/
def IsCapitalized (text : List Char) : Prop :=
  ∀ stop blanks c, isStop stop = true → blanks ≠ [] → (∀ b ∈ blanks, isBlank b = true) →
    stop :: (blanks ++ [c]) <:+: text → isLower c = false

/-- A character stays, or it is a small letter that becomes a capital. -/
def IsRaised (c d : Char) : Prop := d = c ∨ isLower c = true ∧ d = upperChar c

theorem isBlank_of_isLower (h : isLower c = true) : isBlank c = false := by
  refine Bool.eq_false_iff.2 fun hblank => ?_
  have hword := isWord_of_isLower h
  rw [isWord_of_isBlank hblank] at hword
  cases hword

theorem isLower_of_isBlank (h : isBlank c = true) : isLower c = false := by
  refine Bool.eq_false_iff.2 fun hlower => ?_
  rw [isBlank_of_isLower hlower] at h
  cases h

theorem isLower_of_isStop (h : isStop c = true) : isLower c = false := by
  simp only [isStop, List.mem_cons, List.not_mem_nil, or_false, decide_eq_true_eq] at h
  rcases h with rfl | rfl | rfl <;> rfl

theorem sentenceStartPattern_eq_some {size : Nat}
    (h : sentenceStartPattern before text = some (new, size)) :
    ∃ stop blanks c rest, text = stop :: (blanks ++ c :: rest) ∧ isStop stop = true ∧ blanks ≠ [] ∧
      (∀ b ∈ blanks, isBlank b = true) ∧ isLower c = true ∧
      new = stop :: (blanks ++ [upperChar c]) ∧ size = blanks.length + 2 := by
  unfold sentenceStartPattern at h
  split at h
  · rename_i stop text
    split at h
    · rename_i hstop
      dsimp only at h
      split at h
      · rename_i c rest hrest
        split at h
        · rename_i hfound
          cases h
          rw [Bool.and_eq_true, Bool.not_eq_true', List.isEmpty_eq_false_iff] at hfound
          refine ⟨stop, text.takeWhile isBlank, c, rest, ?_, hstop, hfound.1,
            List.all_eq_true.1 List.all_takeWhile, hfound.2, rfl, rfl⟩
          rw [← hrest, List.takeWhile_append_dropWhile]
        · cases h
      · cases h
    · cases h
  · cases h

theorem isSome_sentenceStartPattern (hstop : isStop stop = true) (hne : blanks ≠ [])
    (hblanks : ∀ b ∈ blanks, isBlank b = true) (hc : isLower c = true) :
    (sentenceStartPattern before (stop :: (blanks ++ c :: rest))).isSome = true := by
  have hnext : ∀ d ∈ (c :: rest).head?, isBlank d = false := by
    rintro d ⟨⟩
    exact isBlank_of_isLower hc
  rw [sentenceStartPattern, if_pos hstop]
  simp only [takeWhile_stretch hblanks hnext, dropWhile_stretch hblanks hnext]
  simp [hne, hc]

theorem fits_sentenceStartPattern : sentenceStartPattern.Fits := by
  intro before text new size h
  obtain ⟨stop, blanks, c, rest, rfl, -, -, -, -, -, rfl⟩ := sentenceStartPattern_eq_some h
  simp

theorem sentenceStartPattern_found
    (h : sentenceStartPattern before (found ++ rest) = some (new, found.length)) :
    ∃ stop blanks c, found = stop :: (blanks ++ [c]) ∧ new = stop :: (blanks ++ [upperChar c]) ∧
      isStop stop = true ∧ (∀ b ∈ blanks, isBlank b = true) ∧ isLower c = true := by
  obtain ⟨stop, blanks, c, others, heq, hstop, -, hblanks, hc, rfl, hsize⟩ :=
    sentenceStartPattern_eq_some h
  refine ⟨stop, blanks, c, ?_, rfl, hstop, hblanks, hc⟩
  have hparts : stop :: (blanks ++ c :: others) = (stop :: (blanks ++ [c])) ++ others := by simp
  rw [hparts] at heq
  exact (List.append_inj heq (by simpa using hsize)).1

/-- Blanks at the start and what comes after them stay as they are. -/
theorem prefix_of_scan (h : Scan sentenceStartPattern before text out)
    (hblanks : ∀ b ∈ blanks, isBlank b = true) (hlead : blanks ++ [d] <+: out) :
    blanks ++ [d] <+: text := by
  induction h generalizing blanks with
  | done => exact hlead
  | kept _ _ ih =>
    cases blanks with
    | nil =>
      obtain ⟨rfl, -⟩ := List.cons_prefix_cons.1 hlead
      exact List.cons_prefix_cons.2 ⟨rfl, List.nil_prefix⟩
    | cons b blanks =>
      obtain ⟨rfl, hnext⟩ := List.cons_prefix_cons.1 hlead
      exact List.cons_prefix_cons.2 ⟨rfl, ih (List.forall_mem_cons.1 hblanks).2 hnext⟩
  | replaced _ hfound =>
    obtain ⟨stop, between, c, rfl, rfl, hstop, -⟩ := sentenceStartPattern_found hfound
    cases blanks with
    | nil =>
      obtain ⟨rfl, -⟩ := List.cons_prefix_cons.1 hlead
      exact List.cons_prefix_cons.2 ⟨rfl, List.nil_prefix⟩
    | cons b blanks =>
      obtain ⟨rfl, -⟩ := List.cons_prefix_cons.1 hlead
      have hblank := hblanks b List.mem_cons_self
      rw [isBlank_of_isStop hstop] at hblank
      cases hblank

theorem isCapitalized_of_scan (h : Scan sentenceStartPattern before text out) :
    IsCapitalized out := by
  induction h with
  | done =>
    intro stop blanks c _ _ _ hinside
    cases List.infix_nil.1 hinside
  | @kept before first text out hnone hscan ih =>
    intro stop blanks c hstop hne hblanks hinside
    rcases List.infix_cons_iff.1 hinside with hlead | hinside
    · obtain ⟨rfl, hnext⟩ := List.cons_prefix_cons.1 hlead
      obtain ⟨rest, rfl⟩ := prefix_of_scan hscan hblanks hnext
      refine Bool.eq_false_iff.2 fun hc => ?_
      have hsome : (sentenceStartPattern before (stop :: (blanks ++ c :: rest))).isSome = true :=
        isSome_sentenceStartPattern hstop hne hblanks hc
      rw [List.append_assoc, List.singleton_append] at hnone
      rw [hnone] at hsome
      cases hsome
    · exact ih stop blanks c hstop hne hblanks hinside
  | @replaced before found rest new out _ hfound _ ih =>
    obtain ⟨first, between, small, rfl, rfl, hfirst, hbetween, hsmall⟩ :=
      sentenceStartPattern_found hfound
    have hcapital := isUpper_upperChar hsmall
    intro stop blanks c hstop hne hblanks hinside
    by_cases hmem : upperChar small ∈ stop :: (blanks ++ [c])
    · have hc : upperChar small = c := by
        rcases List.mem_cons.1 hmem with heq | hmem
        · rw [← heq, isStop_of_isUpper hcapital] at hstop
          cases hstop
        · rcases List.mem_append.1 hmem with hmem | hmem
          · have hblank := hblanks _ hmem
            rw [isBlank_of_isUpper hcapital] at hblank
            cases hblank
          · exact List.mem_singleton.1 hmem
      rw [← hc]
      exact isLower_of_isUpper hcapital
    · have hparts : first :: (between ++ [upperChar small]) ++ out =
          (first :: between) ++ upperChar small :: out := by simp
      rw [hparts, isInfix_append_cons_iff hmem] at hinside
      rcases hinside with hinside | hinside
      · have hc : c ∈ first :: between := hinside.subset (by simp)
        rcases List.mem_cons.1 hc with rfl | hc
        · exact isLower_of_isStop hfirst
        · exact isLower_of_isBlank (hbetween c hc)
      · exact ih stop blanks c hstop hne hblanks hinside

theorem isRaised_rfl (text : List Char) : List.Forall₂ IsRaised text text :=
  List.forall₂_same.2 fun _ _ => .inl rfl

theorem forall₂_isRaised (h : Scan sentenceStartPattern before text out) :
    List.Forall₂ IsRaised text out := by
  induction h with
  | done => exact .nil
  | kept _ _ ih => exact .cons (.inl rfl) ih
  | replaced _ hfound _ ih =>
    obtain ⟨stop, blanks, c, rfl, rfl, -, -, hc⟩ := sentenceStartPattern_found hfound
    have hraised : List.Forall₂ IsRaised [c] [upperChar c] := .cons (.inr ⟨hc, rfl⟩) .nil
    exact .cons (.inl rfl) (List.rel_append (List.rel_append (isRaised_rfl blanks) hraised) ih)

theorem occursAfter_sentenceStartPattern (h : IsCapitalized text) :
    sentenceStartPattern.occursAfter before text = false := by
  induction text generalizing before with
  | nil => rfl
  | cons d text ih =>
    rw [occursAfter, ih fun stop blanks c hstop hne hblanks hinside =>
      h stop blanks c hstop hne hblanks (List.infix_cons hinside), Bool.or_false, Bool.eq_false_iff]
    intro hsome
    obtain ⟨⟨new, size⟩, hfound⟩ := Option.isSome_iff_exists.1 hsome
    obtain ⟨stop, blanks, c, rest, heq, hstop, hne, hblanks, hc, -⟩ :=
      sentenceStartPattern_eq_some hfound
    have hinside : stop :: (blanks ++ [c]) <:+: d :: text := by
      rw [heq]
      exact ⟨[], rest, by simp⟩
    rw [h stop blanks c hstop hne hblanks hinside] at hc
    cases hc

/-- Where there is no small letter after a stop, there is nothing to do. -/
theorem substitute_sentenceStartPattern (h : IsCapitalized text) :
    sentenceStartPattern.substitute text = text :=
  substitute_eq_self (occursAfter_sentenceStartPattern h)

end TextGrammar.English
