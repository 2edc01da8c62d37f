import TextGrammar.English
import TextGrammar.Proofs.Text.Pattern

/-! Tidy texts: what the punctuation modifier makes of any text in one pass. -/
namespace TextGrammar.English

open Pattern

variable {before : Option Char} {text out found rest new : List Char} {c d : Char}

theorem isBlank_of_isMark (h : isMark c = true) : isBlank c = false := by
  simp only [isMark, List.mem_cons, List.not_mem_nil, or_false, decide_eq_true_eq] at h
  rcases h with rfl | rfl | rfl | rfl | rfl | rfl <;> decide

theorem isBlank_of_isStop (h : isStop c = true) : isBlank c = false := by
  simp only [isStop, List.mem_cons, List.not_mem_nil, or_false, decide_eq_true_eq] at h
  rcases h with rfl | rfl | rfl <;> decide

theorem isUpper_of_isMark (h : isMark c = true) : isUpper c = false := by
  simp only [isMark, List.mem_cons, List.not_mem_nil, or_false, decide_eq_true_eq] at h
  rcases h with rfl | rfl | rfl | rfl | rfl | rfl <;> decide

theorem isMark_of_isStop (h : isStop c = true) : isMark c = true := by
  simp only [isStop, List.mem_cons, List.not_mem_nil, or_false, decide_eq_true_eq] at h
  rcases h with rfl | rfl | rfl <;> decide

theorem isBlank_of_isUpper (h : isUpper c = true) : isBlank c = false := by
  simp only [isUpper, Bool.and_eq_true, decide_eq_true_eq] at h
  have hlow : 65 ≤ c.toNat := h.1
  have hhigh : c.toNat ≤ 90 := h.2
  simp only [isBlank, blankRanges, inRanges]
  grind

theorem isMark_of_isUpper (h : isUpper c = true) : isMark c = false := by
  refine Bool.eq_false_iff.2 fun hmark => ?_
  rw [isUpper_of_isMark hmark] at h
  cases h

theorem isStop_of_isUpper (h : isUpper c = true) : isStop c = false := by
  refine Bool.eq_false_iff.2 fun hstop => ?_
  rw [isUpper_of_isMark (isMark_of_isStop hstop)] at h
  cases h

/-- No two blanks. -/
def IsApart (a b : Char) : Prop := isBlank a = true → isBlank b = false

/-- No blank before another one or before a mark. -/
def IsClose (a b : Char) : Prop := isBlank a = true → isBlank b = false ∧ isMark b = false

/-- No stop right before a capital. -/
def IsSpaced (a b : Char) : Prop := isStop a = true → isUpper b = false

theorem isClose_of_not_isBlank (h : isBlank c = false) : IsClose c d := by
  intro hblank
  rw [h] at hblank
  cases hblank

theorem isSpaced_of_not_isStop (h : isStop c = false) : IsSpaced c d := by
  intro hstop
  rw [h] at hstop
  cases hstop

theorem blankRunPattern_eq_some {size : Nat} (h : blankRunPattern before text = some (new, size)) :
    new = [' '] ∧ size = (text.takeWhile isBlank).length ∧ 2 ≤ size := by
  simp only [blankRunPattern, Option.ite_none_right_eq_some, Option.some.injEq, Prod.mk.injEq] at h
  obtain ⟨htwo, rfl, rfl⟩ := h
  exact ⟨rfl, rfl, htwo⟩

theorem fits_blankRunPattern : blankRunPattern.Fits := by
  intro before text new size h
  obtain ⟨-, rfl, htwo⟩ := blankRunPattern_eq_some h
  exact ⟨Nat.lt_of_lt_of_le Nat.zero_lt_two htwo, (List.takeWhile_prefix _).length_le⟩

theorem all_isBlank_of_length (h : ((found ++ rest).takeWhile isBlank).length = found.length) :
    (∀ c ∈ found, isBlank c = true) ∧ ∀ c ∈ rest.head?, isBlank c = false := by
  induction found with
  | nil =>
    refine ⟨fun _ hc => (List.not_mem_nil hc).elim, fun c hc => ?_⟩
    cases rest with
    | nil => cases hc
    | cons d rest =>
      cases hc
      by_contra hblank
      simp [List.takeWhile_cons, hblank] at h
  | cons d found ih =>
    rw [List.cons_append, List.takeWhile_cons] at h
    split at h
    · rename_i hblank
      obtain ⟨hfound, hrest⟩ := ih (Nat.succ.inj h)
      exact ⟨List.forall_mem_cons.2 ⟨hblank, hfound⟩, hrest⟩
    · cases h

/-- A run of blanks is found as a whole. -/
theorem blankRunPattern_found (h : blankRunPattern before (found ++ rest) = some (new, found.length)) :
    new = [' '] ∧ (∀ c ∈ found, isBlank c = true) ∧ ∀ c ∈ rest.head?, isBlank c = false := by
  obtain ⟨rfl, hsize, -⟩ := blankRunPattern_eq_some h
  exact ⟨rfl, all_isBlank_of_length hsize.symm⟩

theorem blankRunPattern_eq_none :
    blankRunPattern before (c :: d :: text) = none ↔ IsApart c d := by
  simp only [blankRunPattern, ite_eq_right_iff, reduceCtorEq, imp_false, not_le, IsApart,
    List.takeWhile_cons]
  cases isBlank c
  · simp
  · cases isBlank d
    · simp
    · simp

/-- Where there is a blank at the start afterwards, there was one before. -/
theorem isBlank_head? (h : Scan blankRunPattern before text out) (hd : d ∈ out.head?) :
    ∃ c ∈ text.head?, isBlank d = isBlank c := by
  cases h with
  | done => cases hd
  | kept => exact ⟨_, rfl, congrArg isBlank (Option.some.inj hd).symm⟩
  | replaced hne hfound =>
    obtain ⟨rfl, hblanks, -⟩ := blankRunPattern_found hfound
    obtain ⟨c, found, rfl⟩ := List.exists_cons_of_ne_nil hne
    cases hd
    exact ⟨c, rfl, (hblanks c List.mem_cons_self).symm⟩

theorem isChain_isApart (h : Scan blankRunPattern before text out) : out.IsChain IsApart := by
  induction h with
  | done => exact .nil
  | kept hnone hscan ih =>
    refine List.isChain_cons.2 ⟨fun d hd hblank => ?_, ih⟩
    obtain ⟨e, he, hsame⟩ := isBlank_head? hscan hd
    obtain ⟨rest, rfl⟩ := List.head?_eq_some_iff.1 he
    rw [hsame]
    exact blankRunPattern_eq_none.1 hnone hblank
  | replaced _ hfound hscan ih =>
    obtain ⟨rfl, -, hrest⟩ := blankRunPattern_found hfound
    refine List.isChain_cons.2 ⟨fun d hd _ => ?_, ih⟩
    obtain ⟨e, he, hsame⟩ := isBlank_head? hscan hd
    rw [hsame]
    exact hrest e he

theorem blankRunPattern_filter (h : Scan blankRunPattern before text out) :
    out.filter (!isBlank ·) = text.filter (!isBlank ·) := by
  refine h.filter_eq fun before found rest new hfound => ?_
  obtain ⟨rfl, hblanks, -⟩ := blankRunPattern_found hfound
  have hnone : found.filter (!isBlank ·) = [] :=
    List.filter_eq_nil_iff.2 fun c hc => by simp [hblanks c hc]
  rw [hnone]
  rfl

theorem blankBeforeMarkPattern_eq :
    blankBeforeMarkPattern = pairPattern isBlank isMark fun _ mark => [mark] := by
  funext before text
  rcases text with _ | ⟨c, _ | ⟨d, text⟩⟩
  · rfl
  · rfl
  · rfl

theorem fits_blankBeforeMarkPattern : blankBeforeMarkPattern.Fits := by
  rw [blankBeforeMarkPattern_eq]
  exact fits_pairPattern

/-- The first character stays, unless it is a blank that is dropped. -/
theorem eq_or_isBlank_head? (h : Scan blankBeforeMarkPattern before text out) (hd : d ∈ out.head?) :
    ∃ c ∈ text.head?, d = c ∨ isBlank c = true := by
  rw [blankBeforeMarkPattern_eq] at h
  cases h with
  | done => cases hd
  | kept => exact ⟨_, rfl, .inl (Option.some.inj hd).symm⟩
  | replaced _ hfound =>
    obtain ⟨blank, mark, rfl, hblank, -, -⟩ := pairPattern_found hfound
    exact ⟨blank, rfl, .inr hblank⟩

/-- After the runs no blank that is kept comes to stand before another one or before a mark. -/
theorem isChain_isClose (h : Scan blankBeforeMarkPattern before text out)
    (htext : text.IsChain IsApart) : out.IsChain IsClose := by
  induction h with
  | done => exact .nil
  | kept hnone hscan ih =>
    refine List.isChain_cons.2 ⟨fun d hd hblank => ?_, ih htext.tail⟩
    obtain ⟨e, he, hsame⟩ := eq_or_isBlank_head? hscan hd
    obtain ⟨rest, rfl⟩ := List.head?_eq_some_iff.1 he
    have hapart : isBlank e = false := (List.isChain_cons_cons.1 htext).1 hblank
    rcases hsame with rfl | hdropped
    · rw [blankBeforeMarkPattern_eq] at hnone
      exact ⟨hapart, pairPattern_eq_none hnone hblank⟩
    · rw [hapart] at hdropped
      cases hdropped
  | replaced _ hfound _ ih =>
    rw [blankBeforeMarkPattern_eq] at hfound
    obtain ⟨blank, mark, rfl, -, hmark, rfl⟩ := pairPattern_found hfound
    refine List.isChain_cons.2 ⟨fun d _ => ?_, ih htext.tail.tail⟩
    exact isClose_of_not_isBlank (isBlank_of_isMark hmark)

theorem blankBeforeMarkPattern_filter (h : Scan blankBeforeMarkPattern before text out) :
    out.filter (!isBlank ·) = text.filter (!isBlank ·) := by
  refine h.filter_eq fun before found rest new hfound => ?_
  rw [blankBeforeMarkPattern_eq] at hfound
  obtain ⟨blank, mark, rfl, hblank, -, rfl⟩ := pairPattern_found hfound
  simp [hblank]

theorem stopBeforeCapitalPattern_eq :
    stopBeforeCapitalPattern = pairPattern isStop isUpper fun stop capital => [stop, ' ', capital] := by
  funext before text
  rcases text with _ | ⟨c, _ | ⟨d, text⟩⟩
  · rfl
  · rfl
  · rfl

theorem fits_stopBeforeCapitalPattern : stopBeforeCapitalPattern.Fits := by
  rw [stopBeforeCapitalPattern_eq]
  exact fits_pairPattern

/-- The first character stays. -/
theorem head?_stopBeforeCapital (h : Scan stopBeforeCapitalPattern before text out)
    (hd : d ∈ out.head?) : d ∈ text.head? := by
  rw [stopBeforeCapitalPattern_eq] at h
  cases h with
  | done => cases hd
  | kept => exact hd
  | replaced _ hfound =>
    obtain ⟨stop, capital, rfl, -, -, rfl⟩ := pairPattern_found hfound
    exact hd

theorem isChain_isSpaced (h : Scan stopBeforeCapitalPattern before text out) :
    out.IsChain IsSpaced := by
  induction h with
  | done => exact .nil
  | kept hnone hscan ih =>
    refine List.isChain_cons.2 ⟨fun d hd => ?_, ih⟩
    obtain ⟨rest, rfl⟩ := List.head?_eq_some_iff.1 (head?_stopBeforeCapital hscan hd)
    rw [stopBeforeCapitalPattern_eq] at hnone
    exact pairPattern_eq_none hnone
  | replaced _ hfound _ ih =>
    rw [stopBeforeCapitalPattern_eq] at hfound
    obtain ⟨stop, capital, rfl, -, hcapital, rfl⟩ := pairPattern_found hfound
    have hafter : IsSpaced stop ' ' := fun _ => rfl
    have hbefore : IsSpaced ' ' capital := isSpaced_of_not_isStop rfl
    have hnext (d : Char) : IsSpaced capital d := isSpaced_of_not_isStop (isStop_of_isUpper hcapital)
    exact .cons_cons hafter (.cons_cons hbefore (List.isChain_cons.2 ⟨fun d _ => hnext d, ih⟩))

/-- The spaces that are put in stand before capitals. -/
theorem stopBeforeCapitalPattern_isClose (h : Scan stopBeforeCapitalPattern before text out)
    (htext : text.IsChain IsClose) : out.IsChain IsClose := by
  induction h with
  | done => exact .nil
  | kept _ hscan ih =>
    refine List.isChain_cons.2 ⟨fun d hd => ?_, ih htext.tail⟩
    obtain ⟨rest, rfl⟩ := List.head?_eq_some_iff.1 (head?_stopBeforeCapital hscan hd)
    exact (List.isChain_cons_cons.1 htext).1
  | replaced _ hfound _ ih =>
    rw [stopBeforeCapitalPattern_eq] at hfound
    obtain ⟨stop, capital, rfl, hstop, hcapital, rfl⟩ := pairPattern_found hfound
    have hafter : IsClose stop ' ' := isClose_of_not_isBlank (isBlank_of_isStop hstop)
    have hbefore : IsClose ' ' capital := fun _ =>
      ⟨isBlank_of_isUpper hcapital, isMark_of_isUpper hcapital⟩
    have hnext (d : Char) : IsClose capital d := isClose_of_not_isBlank (isBlank_of_isUpper hcapital)
    refine .cons_cons hafter (.cons_cons hbefore ?_)
    exact List.isChain_cons.2 ⟨fun d _ => hnext d, ih htext.tail.tail⟩

theorem stopBeforeCapitalPattern_filter (h : Scan stopBeforeCapitalPattern before text out) :
    out.filter (!isBlank ·) = text.filter (!isBlank ·) := by
  refine h.filter_eq fun before found rest new hfound => ?_
  rw [stopBeforeCapitalPattern_eq] at hfound
  obtain ⟨stop, capital, rfl, hstop, hcapital, rfl⟩ := pairPattern_found hfound
  simp [isBlank_of_isStop hstop, isBlank_of_isUpper hcapital, show isBlank ' ' = true from rfl]

/-- There is nothing to drop and nothing to put in. -/
structure IsTidy (text : List Char) : Prop where
  close : text.IsChain IsClose
  spaced : text.IsChain IsSpaced

theorem isTidy_tidyBlanks (text : List Char) : IsTidy (tidyBlanks text) := by
  have hapart := isChain_isApart (scan_substitute fits_blankRunPattern text)
  have hclose := isChain_isClose (scan_substitute fits_blankBeforeMarkPattern _) hapart
  have hlast := scan_substitute fits_stopBeforeCapitalPattern
    (blankBeforeMarkPattern.substitute (blankRunPattern.substitute text))
  exact ⟨stopBeforeCapitalPattern_isClose hlast hclose, isChain_isSpaced hlast⟩

theorem filter_tidyBlanks (text : List Char) :
    (tidyBlanks text).filter (!isBlank ·) = text.filter (!isBlank ·) := by
  rw [tidyBlanks, stopBeforeCapitalPattern_filter (scan_substitute fits_stopBeforeCapitalPattern _),
    blankBeforeMarkPattern_filter (scan_substitute fits_blankBeforeMarkPattern _),
    blankRunPattern_filter (scan_substitute fits_blankRunPattern _)]

theorem occurs_blankRunPattern (h : text.IsChain IsClose) : blankRunPattern.occurs text = false := by
  refine occursAfter_eq_false (fun before text hsome => ?_) h
  obtain ⟨⟨new, size⟩, hfound⟩ := Option.isSome_iff_exists.1 hsome
  obtain ⟨-, hsize, htwo⟩ := blankRunPattern_eq_some hfound
  have hlength : 2 ≤ text.length :=
    htwo.trans (hsize.trans_le (List.takeWhile_prefix _).length_le)
  obtain ⟨c, d, rest, rfl⟩ : ∃ c d rest, text = c :: d :: rest := by
    match text, hlength with
    | c :: d :: rest, _ => exact ⟨c, d, rest, rfl⟩
  refine ⟨c, d, rest, rfl, fun hclose => ?_⟩
  rw [blankRunPattern_eq_none.2 fun hblank => (hclose hblank).1] at hfound
  cases hfound

theorem occurs_blankBeforeMarkPattern (h : text.IsChain IsClose) :
    blankBeforeMarkPattern.occurs text = false := by
  rw [blankBeforeMarkPattern_eq]
  exact occurs_pairPattern (h.imp fun _ _ hclose hblank => (hclose hblank).2)

theorem occurs_stopBeforeCapitalPattern (h : text.IsChain IsSpaced) :
    stopBeforeCapitalPattern.occurs text = false := by
  rw [stopBeforeCapitalPattern_eq]
  exact occurs_pairPattern h

/-- A tidy text stays as it is. -/
theorem IsTidy.tidyBlanks_eq_self (h : IsTidy text) : tidyBlanks text = text := by
  have hblanks := substitute_eq_self (occurs_blankRunPattern h.close)
  have hmarks := substitute_eq_self (occurs_blankBeforeMarkPattern h.close)
  have hstops := substitute_eq_self (occurs_stopBeforeCapitalPattern h.spaced)
  simp only [tidyBlanks]
  rw [hblanks, hmarks, hstops]

theorem transform_punctuation (text : String) (background : Background) :
    punctuation.transform (.text text) background =
      .ok (.text (String.ofList (tidyBlanks text.toList))) :=
  rfl

/-- One pass makes any text tidy and moves blanks only, and a second one finds nothing to do. -/
theorem punctuation_tidies (text : String) (background : Background) :
    ∃ tidy : String, punctuation.transform (.text text) background = .ok (.text tidy) ∧
      tidy.toList.IsChain IsClose ∧ tidy.toList.IsChain IsSpaced ∧
      tidy.toList.filter (!isBlank ·) = text.toList.filter (!isBlank ·) ∧
      ∀ later, punctuation.transform (.text tidy) later = .ok (.text tidy) := by
  have htidy := isTidy_tidyBlanks text.toList
  refine ⟨String.ofList (tidyBlanks text.toList), rfl, ?_, ?_, ?_, fun later => ?_⟩
  · rw [String.toList_ofList]
    exact htidy.close
  · rw [String.toList_ofList]
    exact htidy.spaced
  · rw [String.toList_ofList]
    exact filter_tidyBlanks _
  · rw [transform_punctuation, String.toList_ofList, htidy.tidyBlanks_eq_self]

end TextGrammar.English
