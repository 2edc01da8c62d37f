import TextGrammar.Proofs.Token.Matches

/-! The lists of segments that texts are split into: no token starts in a literal. -/
namespace TextGrammar.Segment

/-- The text that the segments stand for. -/
def render : List Segment → String
  | [] => ""
  | segment :: rest => segment.text ++ render rest

/-- No `%` stands in front of another character. -/
def EndsInPercents (text : List Char) : Prop :=
  ∃ plain n, '%' ∉ plain ∧ text = plain ++ List.replicate n '%'

/-- All `%` stand together. -/
def HasOneRun (text : List Char) : Prop :=
  ∃ plain n after, '%' ∉ plain ∧ '%' ∉ after ∧ text = plain ++ List.replicate n '%' ++ after

/-- Literals are not empty and never adjacent, names could stand in a token, and the `%` of a
literal are at its end, or anywhere in one run if nothing follows it. -/
inductive Canonical : List Segment → Prop
  | nil : Canonical []
  | last {text : String} (nonempty : text ≠ "") (form : HasOneRun text.toList) :
      Canonical [literal text]
  | token {name : String} {rest} (isName : IsName name.toList) (others : Canonical rest) :
      Canonical (token name :: rest)
  | literal {text name : String} {rest} (nonempty : text ≠ "") (form : EndsInPercents text.toList)
      (isName : IsName name.toList) (others : Canonical rest) :
      Canonical (literal text :: token name :: rest)

variable {name rest text before last plain after : List Char} {found : List Match} {n : Nat}

theorem noTokenIn_plain (hp : '%' ∉ plain) (h : NoTokenIn text rest) :
    NoTokenIn (plain ++ text) rest := by
  induction plain with
  | nil => exact h
  | cons c plain ih =>
    obtain ⟨hc, hplain⟩ := not_or.1 (mt List.mem_cons.2 hp)
    exact noTokenIn_cons.2 ⟨not_startsToken_cons (Ne.symm hc), ih hplain⟩

/-- Before a `%` no number of them makes a token. -/
theorem noTokenIn_replicate : NoTokenIn (List.replicate n '%') ('%' :: rest) := by
  induction n with
  | zero => exact noTokenIn_nil
  | succ n ih =>
    refine noTokenIn_cons.2 ⟨?_, ih⟩
    cases n with
    | zero => exact not_startsToken_doubled
    | succ n => exact not_startsToken_doubled

theorem noTokenIn_of_endsInPercents (h : EndsInPercents before) :
    NoTokenIn before (opened name rest) := by
  obtain ⟨plain, n, hplain, rfl⟩ := h
  exact noTokenIn_plain hplain noTokenIn_replicate

theorem noTokenIn_of_hasOneRun (h : HasOneRun text) : NoTokenIn text [] := by
  obtain ⟨plain, n, after, hplain, hafter, rfl⟩ := h
  rw [List.append_assoc]
  refine noTokenIn_plain hplain ?_
  have hlast : NoTokenIn after [] := by
    simpa using noTokenIn_plain hafter noTokenIn_nil
  induction n with
  | zero => exact hlast
  | succ n ih =>
    refine noTokenIn_cons.2 ⟨?_, ih⟩
    rw [List.append_nil]
    cases n with
    | zero => exact not_startsToken_unclosed hafter
    | succ n => exact not_startsToken_doubled

/-- A run of other characters between two `%` is a token. -/
theorem startsToken_of_run (hne : plain ≠ []) (hp : '%' ∉ plain) :
    StartsToken ('%' :: (plain ++ '%' :: rest)) :=
  startsToken_opened ⟨hne, hp⟩

theorem exists_replicate_append_opened (n : Nat) (name rest : List Char) :
    ∃ after, List.replicate n '%' ++ opened name rest = '%' :: after := by
  cases n with
  | zero => exact ⟨_, rfl⟩
  | succ n => exact ⟨_, rfl⟩

theorem endsInPercents_of_noTokenIn (h : NoTokenIn before (opened name rest)) :
    EndsInPercents before := by
  induction before with
  | nil => exact ⟨[], 0, List.not_mem_nil, rfl⟩
  | cons c before ih =>
    obtain ⟨hfirst, hlater⟩ := noTokenIn_cons.1 h
    obtain ⟨plain, n, hplain, rfl⟩ := ih hlater
    by_cases hc : c = '%'
    · subst hc
      by_cases hne : plain = []
      · subst hne
        exact ⟨[], n + 1, List.not_mem_nil, rfl⟩
      · obtain ⟨after, hafter⟩ := exists_replicate_append_opened n name rest
        rw [List.append_assoc, hafter] at hfirst
        exact absurd (startsToken_of_run hne hplain) hfirst
    · exact ⟨c :: plain, n, by simp [Ne.symm hc, hplain], rfl⟩

theorem hasOneRun_of_noTokenIn (h : NoTokenIn text []) : HasOneRun text := by
  induction text with
  | nil => exact ⟨[], 0, [], List.not_mem_nil, List.not_mem_nil, rfl⟩
  | cons c text ih =>
    obtain ⟨hfirst, hlater⟩ := noTokenIn_cons.1 h
    obtain ⟨plain, n, after, hplain, hafter, rfl⟩ := ih hlater
    by_cases hc : c = '%'
    · subst hc
      by_cases hne : plain = []
      · subst hne
        exact ⟨[], n + 1, after, List.not_mem_nil, hafter, rfl⟩
      · cases n with
        | zero =>
          exact ⟨[], 1, plain ++ after, List.not_mem_nil, by simp [hplain, hafter], by simp⟩
        | succ n =>
          rw [List.append_nil, List.append_assoc] at hfirst
          exact absurd (startsToken_of_run hne hplain) hfirst
    · exact ⟨c :: plain, n, after, by simp [Ne.symm hc, hplain], hafter, rfl⟩

@[simp] theorem render_nil : render [] = "" := rfl

@[simp] theorem render_cons (segment : Segment) (rest : List Segment) :
    render (segment :: rest) = segment.text ++ render rest := rfl

theorem render_close (before : List Char) (segments : List Segment) :
    render (close (before, segments)) = String.ofList before ++ render segments := by
  cases before with
  | nil => simp [close]
  | cons c before => rfl

theorem toList_render_token (name : String) (rest : List Segment) :
    (render (token name :: rest)).toList = opened name.toList (render rest).toList := by
  rw [render_cons, String.toList_append]
  exact toList_tokenText_append name _

theorem toList_render_cut (h : Matches text found last) : (render (cut found last)).toList = text := by
  induction h with
  | done none => simp [cut, render_close]
  | @next before name rest found last isName _ _ ih =>
    rw [cut, render_close, String.toList_append, toList_render_token, ih]
    simp

theorem render_split (text : String) : render (split text) = text := by
  obtain ⟨found, last, hfound⟩ := exists_matches text.toList
  rw [split_of_matches hfound]
  exact String.toList_injective (toList_render_cut hfound)

theorem canonical_cut (h : Matches text found last) : Canonical (cut found last) := by
  induction h with
  | @done text none =>
    cases text with
    | nil => exact .nil
    | cons c text =>
      refine .last (by simp) ?_
      simpa using hasOneRun_of_noTokenIn none
  | @next before name rest found last isName leftmost _ ih =>
    have hname : IsName (String.ofList name).toList := by simpa using isName
    cases before with
    | nil => exact .token hname ih
    | cons c before =>
      refine .literal (by simp) ?_ hname ih
      simpa using endsInPercents_of_noTokenIn leftmost

/-- The matches in the text of a canonical list are its tokens. -/
theorem Canonical.exists_matches {segments : List Segment} (h : Canonical segments) :
    ∃ found last, Matches (render segments).toList found last ∧ cut found last = segments := by
  induction h with
  | nil => exact ⟨[], [], .done noTokenIn_nil, rfl⟩
  | @last text nonempty form =>
    refine ⟨[], text.toList, ?_, ?_⟩
    · simpa [Segment.text] using Matches.done (noTokenIn_of_hasOneRun form)
    · simp [cut, close, nonempty]
  | @token name rest isName _ ih =>
    obtain ⟨found, last, hfound, hcut⟩ := ih
    refine ⟨⟨[], name.toList⟩ :: found, last, ?_, ?_⟩
    · rw [toList_render_token]
      exact .next isName noTokenIn_nil hfound
    · simp [cut, close, hcut]
  | @literal text name rest nonempty form isName _ ih =>
    obtain ⟨found, last, hfound, hcut⟩ := ih
    refine ⟨⟨text.toList, name.toList⟩ :: found, last, ?_, ?_⟩
    · rw [render_cons, String.toList_append, toList_render_token]
      exact .next isName (noTokenIn_of_endsInPercents form) hfound
    · simp [cut, close, nonempty, hcut]

end TextGrammar.Segment
