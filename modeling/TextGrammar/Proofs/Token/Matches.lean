import TextGrammar.Proofs.Token

/-! Tokens as the matches of a pattern, from left to right and without overlap. -/
namespace TextGrammar.Segment

def StartsToken (text : List Char) : Prop := ∃ name rest, IsName name ∧ text = opened name rest

/-- No token starts in the text when the rest follows it. -/
def NoTokenIn (text rest : List Char) : Prop :=
  ∀ back, back <:+ text → back ≠ [] → ¬ StartsToken (back ++ rest)

/-- A match, and the text between the match before it and this one. -/
structure Match where
  before : List Char
  name : List Char

/-- The matches in a text, and what follows the last of them. -/
inductive Matches : List Char → List Match → List Char → Prop
  | done {text} (none : NoTokenIn text []) : Matches text [] text
  | next {before name rest found last} (isName : IsName name)
      (leftmost : NoTokenIn before (opened name rest)) (others : Matches rest found last) :
      Matches (before ++ opened name rest) (⟨before, name⟩ :: found) last

variable {c : Char} {before name rest text last : List Char} {found : List Match}

theorem startsToken_opened (h : IsName name) : StartsToken (opened name rest) :=
  ⟨name, rest, h, rfl⟩

theorem length_lt_opened (name rest : List Char) : rest.length < (opened name rest).length := by
  simp [opened]
  omega

theorem not_startsToken_cons (h : c ≠ '%') : ¬ StartsToken (c :: rest) := by
  rintro ⟨name, after, -, he⟩
  exact h (List.cons.inj he).1

/-- A `%` right behind a `%` leaves no name between them. -/
theorem not_startsToken_doubled : ¬ StartsToken ('%' :: '%' :: rest) := by
  rintro ⟨name, after, ⟨hne, hname⟩, he⟩
  obtain ⟨c, name, rfl⟩ := List.exists_cons_of_ne_nil hne
  have hc : '%' = c := (List.cons.inj (List.cons.inj he).2).1
  exact hname (hc ▸ List.mem_cons_self)

theorem not_startsToken_unclosed (h : '%' ∉ rest) : ¬ StartsToken ('%' :: rest) := by
  rintro ⟨name, after, -, he⟩
  have hrest : rest = name ++ '%' :: after := (List.cons.inj he).2
  exact h (by simp [hrest])

theorem noTokenIn_nil : NoTokenIn [] rest := by
  intro back hback hne
  exact absurd (List.suffix_nil.1 hback) hne

/-- The ends of a text are the whole text and the ends behind its first character. -/
theorem forall_suffix_cons {holds : List Char → Prop} :
    (∀ back, back <:+ c :: text → back ≠ [] → holds back) ↔
      holds (c :: text) ∧ ∀ back, back <:+ text → back ≠ [] → holds back := by
  constructor
  · intro h
    refine ⟨h (c :: text) List.suffix_rfl (List.cons_ne_nil _ _), ?_⟩
    intro back hback
    exact h back (hback.trans (List.suffix_cons _ _))
  · rintro ⟨hfirst, hlater⟩ back hback hne
    rcases List.suffix_cons_iff.1 hback with rfl | hback
    · exact hfirst
    · exact hlater back hback hne

theorem noTokenIn_cons :
    NoTokenIn (c :: text) rest ↔ ¬ StartsToken (c :: (text ++ rest)) ∧ NoTokenIn text rest :=
  @forall_suffix_cons c text fun back => ¬ StartsToken (back ++ rest)

theorem Matches.cons (hfirst : ¬ StartsToken (c :: text)) (h : Matches text found last) :
    ∃ found last, Matches (c :: text) found last := by
  cases h with
  | done none =>
    refine ⟨[], c :: text, .done (noTokenIn_cons.2 ⟨?_, none⟩)⟩
    simpa using hfirst
  | @next before name rest found _ isName leftmost others =>
    exact ⟨⟨c :: before, name⟩ :: found, last,
      .next isName (noTokenIn_cons.2 ⟨hfirst, leftmost⟩) others⟩

/-- By the length of the text: behind a token the search goes on in what is left. -/
theorem exists_matches (text : List Char) : ∃ found last, Matches text found last := by
  by_cases h : StartsToken text
  · obtain ⟨name, rest, hname, htext⟩ := h
    have hshorter : rest.length < text.length := by
      rw [htext]
      exact length_lt_opened name rest
    obtain ⟨found, last, hfound⟩ := exists_matches rest
    exact ⟨⟨[], name⟩ :: found, last, htext ▸ .next hname noTokenIn_nil hfound⟩
  · match text, h with
    | [], _ => exact ⟨[], [], .done noTokenIn_nil⟩
    | c :: rest, h =>
      obtain ⟨found, last, hfound⟩ := exists_matches rest
      exact hfound.cons h
termination_by text.length
decreasing_by
  · exact hshorter
  · simp

theorem run_inj {mark : Char} {run run' rest' : List Char} (h : mark ∉ run) (h' : mark ∉ run')
    (he : run ++ mark :: rest = run' ++ mark :: rest') : run = run' ∧ rest = rest' := by
  induction run generalizing run' with
  | nil =>
    cases run' with
    | nil => exact ⟨rfl, (List.cons.inj he).2⟩
    | cons c run' =>
      have hc : mark = c := (List.cons.inj he).1
      exact absurd (hc ▸ List.mem_cons_self) h'
  | cons c run ih =>
    obtain ⟨hc, hrun⟩ := not_or.1 (mt List.mem_cons.2 h)
    cases run' with
    | nil => exact absurd (List.cons.inj he).1.symm hc
    | cons c' run' =>
      obtain ⟨rfl, htail⟩ := List.cons.inj he
      obtain ⟨rfl, hrest⟩ := ih hrun (mt (List.mem_cons_of_mem c) h') htail
      exact ⟨rfl, hrest⟩

theorem opened_inj {name' rest' : List Char} (h : IsName name) (h' : IsName name')
    (he : opened name rest = opened name' rest') : name = name' ∧ rest = rest' :=
  run_inj h.2 h'.2 (List.cons.inj he).2

/-- A token is not part of a text that no token starts in. -/
theorem eq_nil_of_noTokenIn {back : List Char} (h : IsName name)
    (hn : NoTokenIn (before ++ back) rest) {after : List Char}
    (he : back ++ rest = opened name after) : back = [] := by
  by_contra hne
  exact hn back (List.suffix_append before back) hne (he ▸ startsToken_opened h)

/-- Where the first match starts, no other one can start before it. -/
theorem first_unique {before' name' rest' : List Char} (hn : IsName name) (hn' : IsName name')
    (hb : NoTokenIn before (opened name rest)) (hb' : NoTokenIn before' (opened name' rest'))
    (he : before ++ opened name rest = before' ++ opened name' rest') :
    before = before' ∧ name = name' ∧ rest = rest' := by
  rcases List.append_eq_append_iff.1 he with ⟨back, rfl, hback⟩ | ⟨back, rfl, hback⟩
  · obtain rfl := eq_nil_of_noTokenIn hn hb' hback.symm
    rw [List.nil_append] at hback
    exact ⟨(List.append_nil before).symm, opened_inj hn hn' hback⟩
  · obtain rfl := eq_nil_of_noTokenIn hn' hb hback.symm
    rw [List.nil_append] at hback
    exact ⟨List.append_nil before', opened_inj hn hn' hback.symm⟩

theorem Matches.unique {found' : List Match} {last' : List Char} (h : Matches text found last)
    (h' : Matches text found' last') : found = found' ∧ last = last' := by
  induction h generalizing found' last' with
  | @done text none =>
    generalize htext : text = other at h'
    cases h' with
    | done => exact ⟨rfl, rfl⟩
    | @next before name rest found _ isName _ _ =>
      subst htext
      have hback : opened name rest = [] := eq_nil_of_noTokenIn isName none (List.append_nil _)
      cases hback
  | @next before name rest found last isName leftmost _ ih =>
    generalize htext : before ++ opened name rest = other at h'
    cases h' with
    | done none' =>
      subst htext
      have hback : opened name rest = [] := eq_nil_of_noTokenIn isName none' (List.append_nil _)
      cases hback
    | @next before' name' rest' found' _ isName' leftmost' others' =>
      obtain ⟨rfl, rfl, rfl⟩ := first_unique isName isName' leftmost leftmost' htext
      obtain ⟨rfl, hlast⟩ := ih others'
      exact ⟨rfl, hlast⟩

theorem scan_cons (h : ¬ StartsToken (c :: rest)) : scan (c :: rest) = consLiteral c (scan rest) := by
  by_cases hc : c = '%'
  · subst hc
    by_cases hrest : '%' ∈ rest
    · obtain ⟨name, after, rfl, hname⟩ := List.eq_append_cons_of_mem hrest
      cases name with
      | nil => exact scan_doubled after
      | cons c name =>
        exact absurd (startsToken_opened ⟨List.cons_ne_nil c name, hname⟩) h
    · rw [scan_unclosed hrest, scan_of_notMem hrest]
      rfl
  · rw [scan, if_neg hc]

theorem scan_append (h : NoTokenIn text rest) :
    scan (text ++ rest) = (text ++ (scan rest).1, (scan rest).2) := by
  induction text with
  | nil => rfl
  | cons c text ih =>
    obtain ⟨hfirst, hlater⟩ := noTokenIn_cons.1 h
    rw [List.cons_append, scan_cons hfirst, ih hlater]
    rfl

/-- The literals and tokens that the matches cut a text into. -/
def cut : List Match → List Char → List Segment
  | [], last => close (last, [])
  | ⟨before, name⟩ :: found, last => close (before, token (String.ofList name) :: cut found last)

theorem close_scan_of_matches (h : Matches text found last) : close (scan text) = cut found last := by
  induction h with
  | @done text none =>
    have hscan : scan text = (text, []) := by simpa [scan] using scan_append none
    rw [hscan, cut]
  | @next before name rest found last isName leftmost _ ih =>
    have hscan : scan (before ++ opened name rest) =
        (before, token (String.ofList name) :: close (scan rest)) := by
      rw [scan_append leftmost, scan_opened isName]
      simp
    rw [hscan, cut, ih]

/-- A text is split at the matches in it. -/
theorem split_of_matches {text : String} (h : Matches text.toList found last) :
    split text = cut found last :=
  close_scan_of_matches h

theorem filterMap_tokenName?_close (scanned : List Char × List Segment) :
    (close scanned).filterMap tokenName? = scanned.2.filterMap tokenName? := by
  unfold close
  split
  · rfl
  · rfl

theorem filterMap_tokenName?_cut (found : List Match) (last : List Char) :
    (cut found last).filterMap tokenName? = found.map fun m => String.ofList m.name := by
  induction found with
  | nil => exact filterMap_tokenName?_close _
  | cons m found ih =>
    rw [cut, filterMap_tokenName?_close, List.filterMap_cons, ih]
    rfl

theorem Matches.isName (h : Matches text found last) {m : Match} (hm : m ∈ found) :
    IsName m.name := by
  induction h with
  | done => cases hm
  | next isName _ _ ih =>
    rcases List.mem_cons.1 hm with rfl | hm
    · exact isName
    · exact ih hm

/-- A token has a name, and no `%` in it. -/
theorem isName_of_mem_split {text name : String} (h : .token name ∈ split text) :
    IsName name.toList := by
  obtain ⟨found, last, hmatches⟩ := exists_matches text.toList
  have hname : name ∈ (split text).filterMap tokenName? := List.mem_filterMap.2 ⟨_, h, rfl⟩
  rw [split_of_matches hmatches, filterMap_tokenName?_cut] at hname
  obtain ⟨m, hm, rfl⟩ := List.mem_map.1 hname
  rw [String.toList_ofList]
  exact hmatches.isName hm

end TextGrammar.Segment
