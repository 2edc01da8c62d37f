import TextGrammar.Proofs.Text.Runs

/-! Rules for two words with blanks between them, each word part of one pair at most. -/
namespace TextGrammar

/-- Two words and what stands between them. -/
@[ext]
structure WordPair where
  first : List Char
  gap : List Char
  second : List Char

def WordPair.text (pair : WordPair) : List Char := pair.first ++ pair.gap ++ pair.second

/-- Two words with nothing but blanks between them. -/
structure WordPair.WellFormed (pair : WordPair) : Prop where
  first : IsRun true pair.first
  gap : pair.gap ≠ []
  blank : ∀ c ∈ pair.gap, isBlank c = true
  second : IsRun true pair.second

/-- Words of a text with nothing but blanks between them. -/
def Neighbours (text first second : List Char) : Prop :=
  ∃ gap, (∀ c ∈ gap, isBlank c = true) ∧ [first, gap, second] <:+: runs text

/-- What a pair of words turns into, if the rule is one for that pair. -/
abbrev PairRule := WordPair → Option WordPair

namespace PairRule

variable {rule : PairRule} {pair new : WordPair} {first gap second run text : List Char}
  {rest all : List (List Char)} {word : Bool} {before : Option Char}

/-- The rule for two words that stand next to each other. -/
def pattern (rule : PairRule) : Pattern := fun before text =>
  if wordBefore before || !wordAhead text then none
  else
    let first := text.takeWhile isWord
    let gap := (text.dropWhile isWord).takeWhile isBlank
    let second := ((text.dropWhile isWord).dropWhile isBlank).takeWhile isWord
    if gap.isEmpty || second.isEmpty then none
    else (rule ⟨first, gap, second⟩).map fun new =>
      (new.text, first.length + gap.length + second.length)

/-- The rule for three runs. -/
def onRuns (rule : PairRule) (first gap second : List Char) : Option WordPair :=
  if gap.all isBlank then rule ⟨first, gap, second⟩ else none

/-- What the rule makes of the first three runs, and how many characters they have. -/
def onStart (rule : PairRule) : List (List Char) → Option (List Char × Nat)
  | first :: gap :: second :: _ => (rule.onRuns first gap second).map fun new =>
    (new.text, first.length + gap.length + second.length)
  | _ => none

/-- The rule on all runs of a text. -/
def rewrite (rule : PairRule) : List (List Char) → List (List Char)
  | first :: gap :: second :: rest =>
    match rule.onRuns first gap second with
    | some new => new.first :: new.gap :: new.second :: rewrite rule rest
    | none => first :: rewrite rule (gap :: second :: rest)
  | rest => rest

theorem onRuns_eq_some (h : rule.onRuns first gap second = some new) :
    (∀ c ∈ gap, isBlank c = true) ∧ rule ⟨first, gap, second⟩ = some new := by
  simpa only [onRuns, Option.ite_none_right_eq_some, List.all_eq_true] using h

/-- Three runs of which the middle one is blank are two words and the blanks between them. -/
theorem wellFormed_of_alternates (h : Alternates word (first :: gap :: second :: rest))
    (hblank : ∀ c ∈ gap, isBlank c = true) : word = true ∧ WordPair.WellFormed ⟨first, gap, second⟩ := by
  cases h with
  | cons hfirst hrest =>
    cases hrest with
    | cons hgap hrest =>
      cases hrest with
      | cons hsecond _ =>
        obtain ⟨c, hc⟩ := List.exists_mem_of_ne_nil _ hgap.nonempty
        have hword : word = true := by
          have hkind := hgap.kind c hc
          rw [isWord_of_isBlank (hblank c hc)] at hkind
          cases word with
          | true => rfl
          | false => cases hkind
        subst hword
        exact ⟨rfl, hfirst, hgap.nonempty, hblank, hsecond⟩

theorem startsWords_pattern : rule.pattern.StartsWords := by
  intro before text h
  rw [pattern] at h
  split at h
  · cases h
  · rename_i hstart
    simpa using hstart

theorem onRuns_eq_none_of_gap (h : Alternates false (first :: gap :: second :: rest)) :
    rule.onRuns first gap second = none := by
  rw [Option.eq_none_iff_forall_ne_some]
  intro new hnew
  cases (wellFormed_of_alternates h (onRuns_eq_some hnew).1).1

/-- After the blanks of a gap that is not blank all through comes no word. -/
theorem takeWhile_isWord_of_gap (hgap : ∀ c ∈ gap, isWord c = false)
    (hblank : gap.all isBlank = false) :
    ((gap ++ text).dropWhile isBlank).takeWhile isWord = [] := by
  induction gap with
  | nil => cases hblank
  | cons c gap ih =>
    obtain ⟨hc, hgap⟩ := List.forall_mem_cons.1 hgap
    rw [List.cons_append, List.dropWhile_cons]
    split
    · rename_i hc
      rw [List.all_cons, hc, Bool.true_and] at hblank
      exact ih hgap hblank
    · rw [List.takeWhile_cons, hc]
      rfl

/-- What the pattern makes of a text at its start, by the runs of the text. -/
theorem pattern_flatten (h : Alternates true (run :: rest)) (hbefore : wordBefore before = false) :
    rule.pattern before (run :: rest).flatten = rule.onStart (run :: rest) := by
  have hahead := h.wordAhead_flatten
  cases h with
  | cons hrun hrest =>
    simp only [pattern, hbefore, hahead]
    rw [List.flatten_cons, takeWhile_stretch hrun.kind hrest.isWord_head?,
      dropWhile_stretch hrun.kind hrest.isWord_head?]
    cases hrest with
    | nil => rfl
    | @cons _ gap rest hgap hrest =>
      have hnotWord : ∀ c ∈ gap, isWord c = false := hgap.kind
      by_cases hblank : gap.all isBlank = true
      · have hall := List.all_eq_true.1 hblank
        have hnext : ∀ c ∈ rest.flatten.head?, isBlank c = false := by
          intro c hc
          rw [Bool.eq_false_iff]
          intro hcblank
          have hword := hrest.isWord_head? c hc
          rw [isWord_of_isBlank hcblank] at hword
          cases hword
        rw [List.flatten_cons, takeWhile_stretch hall hnext, dropWhile_stretch hall hnext]
        cases hrest with
        | nil => simp [onStart]
        | @cons _ second rest hsecond hrest =>
          rw [List.flatten_cons, takeWhile_stretch hsecond.kind hrest.isWord_head?]
          simp [onStart, onRuns, hblank, hgap.nonempty, hsecond.nonempty]
      · rw [Bool.not_eq_true] at hblank
        rw [List.flatten_cons, takeWhile_isWord_of_gap hnotWord hblank]
        cases rest with
        | nil => simp [onStart]
        | cons second rest => simp [onStart, onRuns, hblank]

theorem pattern_eq_none (h : Alternates word (run :: rest))
    (hbefore : word = true → wordBefore before = false)
    (hnone : ∀ gap second others, rest = gap :: second :: others → rule.onRuns run gap second = none) :
    rule.pattern before (run :: rest).flatten = none := by
  have hahead := h.wordAhead_flatten
  cases word with
  | false => rw [pattern, hahead, Bool.not_false, Bool.or_true, if_pos rfl]
  | true =>
    rw [pattern_flatten h (hbefore rfl)]
    match rest, hnone with
    | [], _ => rfl
    | [_], _ => rfl
    | gap :: second :: rest, hnone => rw [onStart, hnone _ _ _ rfl, Option.map_none]

/-- A run at which the rule finds no pair is kept. -/
theorem substituteFrom_kept (h : Alternates word (run :: rest))
    (hbefore : word = true → wordBefore before = false)
    (hnone : ∀ gap second others, rest = gap :: second :: others → rule.onRuns run gap second = none) :
    rule.pattern.substituteFrom before 0 (run :: rest).flatten =
      run ++ rule.pattern.substituteFrom run.getLast? 0 rest.flatten := by
  have hpattern := pattern_eq_none h hbefore hnone
  cases h with
  | cons hrun _ => exact Pattern.substituteFrom_run startsWords_pattern hrun hpattern

/-- The pattern is carried out on the runs, from left to right and on each run at most once. -/
theorem substituteFrom_pattern (h : Alternates word all)
    (hbefore : word = true → wordBefore before = false) :
    rule.pattern.substituteFrom before 0 all.flatten = (rule.rewrite all).flatten := by
  fun_induction rewrite rule all generalizing word before with
  | case1 first gap second rest new hnew ih =>
    obtain ⟨rfl, hpair⟩ := wellFormed_of_alternates h (onRuns_eq_some hnew).1
    have hfound : rule.pattern before (first :: gap :: second :: rest).flatten = _ :=
      pattern_flatten h (hbefore rfl)
    rw [onStart, hnew, Option.map_some] at hfound
    have hparts : (first :: gap :: second :: rest).flatten =
        (first ++ gap ++ second) ++ rest.flatten := by simp
    have hsize : (first ++ gap ++ second).length = first.length + gap.length + second.length := by
      rw [List.length_append, List.length_append]
    rw [hparts, ← hsize] at hfound
    rw [hparts, Pattern.substituteFrom_found (by simp [hpair.gap]) hfound]
    rw [ih h.drop_three (by simp)]
    simp [WordPair.text]
  | case2 first gap second rest hnone ih =>
    rw [substituteFrom_kept h hbefore fun _ _ _ heq => by cases heq; exact hnone]
    cases h with
    | cons hrun hrest => rw [ih hrest hrun.wordBefore_getLast?, List.flatten_cons]
  | case3 all hshort =>
    match all, h with
    | [], _ => rfl
    | [run], h =>
      rw [substituteFrom_kept h hbefore fun _ _ _ heq => by cases heq]
      simp [Pattern.substituteFrom]
    | [run, next], h =>
      rw [substituteFrom_kept h hbefore fun _ _ _ heq => by cases heq]
      cases h with
      | cons hrun hrest =>
        rw [substituteFrom_kept hrest hrun.wordBefore_getLast? fun _ _ _ heq => by cases heq]
        simp [Pattern.substituteFrom]
    | first :: gap :: second :: rest, _ => exact (hshort _ _ _ _ rfl).elim

theorem substitute_pattern (text : List Char) :
    rule.pattern.substitute text = (rule.rewrite (runs text)).flatten := by
  conv_lhs => rw [← flatten_runs text]
  exact substituteFrom_pattern (alternates_runs text) fun _ => rfl

/-- From words with blanks between them the rule makes words with blanks between them. -/
def KeepsForm (rule : PairRule) : Prop :=
  ∀ pair new, pair.WellFormed → rule pair = some new → new.WellFormed

theorem alternates_rewrite (hform : rule.KeepsForm) (h : Alternates word all) :
    Alternates word (rule.rewrite all) := by
  fun_induction rewrite rule all generalizing word with
  | case1 first gap second rest new hnew ih =>
    obtain ⟨hblank, hrule⟩ := onRuns_eq_some hnew
    obtain ⟨rfl, hpair⟩ := wellFormed_of_alternates h hblank
    have hnewForm := hform _ _ hpair hrule
    have hgap : IsRun false new.gap :=
      ⟨hnewForm.gap, fun c hc => isWord_of_isBlank (hnewForm.blank c hc)⟩
    exact .cons hnewForm.first (.cons hgap (.cons hnewForm.second (ih h.drop_three)))
  | case2 first gap second rest hnone ih =>
    cases h with
    | cons hrun hrest => exact .cons hrun (ih hrest)
  | case3 all _ => exact h

theorem runs_substitute (hform : rule.KeepsForm) (text : List Char) :
    runs (rule.pattern.substitute text) = rule.rewrite (runs text) := by
  rw [substitute_pattern, (alternates_rewrite hform (alternates_runs text)).runs_flatten]

/-- A pass leaves a text as it is exactly if it leaves its runs. -/
theorem substitute_eq_self_iff (hform : rule.KeepsForm) :
    rule.pattern.substitute text = text ↔ rule.rewrite (runs text) = runs text := by
  constructor
  · intro h
    rw [← runs_substitute hform, h]
  · intro h
    rw [substitute_pattern, h, flatten_runs]

/-- No two words of the runs with blanks between them are of a certain kind. -/
def Avoids (bad : List Char → List Char → Prop) (all : List (List Char)) : Prop :=
  ∀ first gap second, [first, gap, second] <:+: all → (∀ c ∈ gap, isBlank c = true) →
    ¬bad first second

theorem Avoids.tail {bad : List Char → List Char → Prop} (h : Avoids bad (run :: all)) :
    Avoids bad all :=
  fun first gap second hinside => h first gap second (List.infix_cons hinside)

theorem avoids_runs {bad : List Char → List Char → Prop} :
    Avoids bad (runs text) ↔ ∀ first second, Neighbours text first second → ¬bad first second :=
  ⟨fun h _ _ ⟨_, hblank, hinside⟩ => h _ _ _ hinside hblank,
    fun h _ _ _ hinside hblank => h _ _ ⟨_, hblank, hinside⟩⟩

theorem rewrite_eq_self (h : ∀ first gap second, [first, gap, second] <:+: all →
    rule.onRuns first gap second = none) : rule.rewrite all = all := by
  fun_induction rewrite rule all with
  | case1 first gap second rest new hnew _ =>
    rw [h first gap second (List.infix_append [] [first, gap, second] rest)] at hnew
    cases hnew
  | case2 first gap second rest _ ih =>
    rw [ih fun a b c hinside => h a b c (List.infix_cons hinside)]
  | case3 => rfl

/-- What stays the same about the runs of each pair stays the same about all runs. -/
theorem map_rewrite {seen : List Char → List Char}
    (hpair : ∀ pair new, (∀ c ∈ pair.gap, isBlank c = true) → rule pair = some new →
      seen new.first = seen pair.first ∧ seen new.gap = seen pair.gap ∧
        seen new.second = seen pair.second)
    (all : List (List Char)) : (rule.rewrite all).map seen = all.map seen := by
  fun_induction rewrite rule all with
  | case1 first gap second rest new hnew ih =>
    obtain ⟨hblank, hrule⟩ := onRuns_eq_some hnew
    obtain ⟨hfirst, hgap, hsecond⟩ := hpair _ _ hblank hrule
    simp only [List.map_cons, hfirst, hgap, hsecond, ih]
  | case2 first gap second rest _ ih => exact congrArg (seen first :: ·) ih
  | case3 => rfl

/-- The first word of a pair stays as it is. -/
def KeepsFirst (rule : PairRule) : Prop := ∀ pair new, rule pair = some new → new.first = pair.first

theorem head?_rewrite (hfirst : rule.KeepsFirst) : (rule.rewrite all).head? = all.head? := by
  fun_cases rewrite rule all with
  | case1 first gap second rest new hnew =>
    rw [List.head?_cons, List.head?_cons, hfirst _ _ (onRuns_eq_some hnew).2]
  | case2 => rfl
  | case3 => rfl

theorem rewrite_cons_gap (h : Alternates false (gap :: rest)) :
    rule.rewrite (gap :: rest) = gap :: rule.rewrite rest := by
  match rest, h with
  | [], _ => rfl
  | [next], _ => rfl
  | next :: second :: rest, h => rw [rewrite, onRuns_eq_none_of_gap h]

/-- A word at which the rule finds no pair is still followed by the same gap and the same word. -/
theorem prefix_rewrite {other : List Char} (hfirst : rule.KeepsFirst)
    (h : Alternates false (gap :: second :: rest))
    (hlead : [run, other] <+: rule.rewrite (gap :: second :: rest)) : run = gap ∧ other = second := by
  rw [rewrite_cons_gap h, List.cons_prefix_cons] at hlead
  obtain ⟨rfl, hlead⟩ := hlead
  have hhead : (rule.rewrite (second :: rest)).head? = some second := head?_rewrite hfirst
  obtain ⟨others, heq⟩ := hlead
  rw [← heq] at hhead
  exact ⟨rfl, Option.some.inj hhead⟩

/-- A blank run is no word. -/
theorem not_blank_of_isRun (h : IsRun true run) : ¬∀ c ∈ run, isBlank c = true := by
  intro hblank
  obtain ⟨c, hc⟩ := List.exists_mem_of_ne_nil _ h.nonempty
  have hword := h.kind c hc
  rw [isWord_of_isBlank (hblank c hc)] at hword
  cases hword

/-- Two words of the runs with blanks between them are the first two, or the second and the one after
it, or come later. -/
theorem infix_cases {a b c : List Char} (hsecond : IsRun true second)
    (hinside : [a, b, c] <:+: first :: gap :: second :: rest) (hb : ∀ d ∈ b, isBlank d = true) :
    (a = first ∧ b = gap ∧ c = second) ∨ (a = second ∧ [b, c] <+: rest) ∨ [a, b, c] <:+: rest := by
  rcases List.infix_cons_iff.1 hinside with hlead | hinside
  · exact .inl (by simpa using hlead)
  rcases List.infix_cons_iff.1 hinside with hlead | hinside
  · obtain ⟨rfl, rfl, -⟩ : a = gap ∧ b = second ∧ _ := by
      simpa only [List.cons_prefix_cons] using hlead
    exact (not_blank_of_isRun hsecond hb).elim
  rcases List.infix_cons_iff.1 hinside with hlead | hinside
  · exact .inr (.inl (List.cons_prefix_cons.1 hlead))
  · exact .inr (.inr hinside)

/-- One run or two hold no pair. -/
theorem avoids_of_short {bad : List Char → List Char → Prop}
    (hshort : ∀ first gap second rest, all = first :: gap :: second :: rest → False) :
    Avoids bad all := by
  intro a b c hinside
  match all, hinside.length_le with
  | first :: gap :: second :: rest, _ => exact (hshort _ _ _ _ rfl).elim

/-- A pass leaves no pair of a certain kind if it makes none, none starts at the second word of a pair
that it makes, and what it leaves as it is was none before. -/
theorem avoids_rewrite {bad : List Char → List Char → Prop} (hform : rule.KeepsForm)
    (hfirst : rule.KeepsFirst)
    (hmade : ∀ pair new, [pair.first, pair.gap, pair.second] <:+: all →
      (∀ c ∈ pair.gap, isBlank c = true) → rule pair = some new → ¬bad new.first new.second)
    (hafter : ∀ pair new other, pair.WellFormed → rule pair = some new → ¬bad new.second other)
    (h : Alternates word all)
    (hkept : ∀ first gap second, [first, gap, second] <:+: all → (∀ c ∈ gap, isBlank c = true) →
      rule ⟨first, gap, second⟩ = none → ¬bad first second) :
    Avoids bad (rule.rewrite all) := by
  fun_induction rewrite rule all generalizing word with
  | case1 first gap second rest new hnew ih =>
    obtain ⟨hblank, hrule⟩ := onRuns_eq_some hnew
    obtain ⟨rfl, hpair⟩ := wellFormed_of_alternates h hblank
    have hsecond := (hform _ _ hpair hrule).second
    have hlater (run next other : List Char) (hinside : [run, next, other] <:+: rest) :
        [run, next, other] <:+: first :: gap :: second :: rest :=
      List.infix_cons (List.infix_cons (List.infix_cons hinside))
    have hothers := ih (fun pair new hinside => hmade pair new (hlater _ _ _ hinside)) h.drop_three
      fun a b c hinside => hkept a b c (hlater _ _ _ hinside)
    intro a b c hinside hb
    rcases infix_cases hsecond hinside hb with ⟨rfl, -, rfl⟩ | ⟨rfl, -⟩ | hinside
    · exact hmade _ _ (List.infix_append [] [first, gap, second] rest) hblank hrule
    · exact hafter _ _ c hpair hrule
    · exact hothers a b c hinside hb
  | case2 first gap second rest hnone ih =>
    intro a b c hinside hb
    rcases List.infix_cons_iff.1 hinside with hlead | hinside
    · obtain ⟨rfl, hnext⟩ := List.cons_prefix_cons.1 hlead
      have hgap : b = gap := by
        have hhead : (rule.rewrite (gap :: second :: rest)).head? = some gap := head?_rewrite hfirst
        obtain ⟨others, heq⟩ := hnext
        rw [← heq] at hhead
        exact Option.some.inj hhead
      rw [hgap] at hb
      obtain ⟨rfl, -⟩ := wellFormed_of_alternates h hb
      cases h with
      | cons _ hrest =>
        obtain ⟨-, rfl⟩ := prefix_rewrite hfirst hrest hnext
        refine hkept _ gap _ (List.infix_append [] [a, gap, c] rest) hb ?_
        rwa [onRuns, if_pos (List.all_eq_true.2 hb)] at hnone
    · cases h with
      | cons _ hrest =>
        exact ih (fun pair new hinside => hmade pair new (List.infix_cons hinside)) hrest
          (fun a b c hinside => hkept a b c (List.infix_cons hinside)) a b c hinside hb
  | case3 all hshort => exact avoids_of_short hshort

theorem isSome_pattern_iff (h : Alternates word (run :: rest))
    (hbefore : word = true → wordBefore before = false) :
    (rule.pattern before (run :: rest).flatten).isSome = true ↔
      ∃ gap second others, rest = gap :: second :: others ∧
        (rule.onRuns run gap second).isSome = true := by
  constructor
  · intro hsome
    by_contra hnot
    have hnone := pattern_eq_none h hbefore fun gap second others heq =>
      Option.not_isSome_iff_eq_none.1 fun hpair => hnot ⟨gap, second, others, heq, hpair⟩
    rw [hnone] at hsome
    cases hsome
  · rintro ⟨gap, second, others, rfl, hpair⟩
    obtain ⟨new, hnew⟩ := Option.isSome_iff_exists.1 hpair
    obtain ⟨rfl, -⟩ := wellFormed_of_alternates h (onRuns_eq_some hnew).1
    rw [pattern_flatten h (hbefore rfl), onStart, hnew]
    rfl

theorem occursAfter_pattern_iff (h : Alternates word all)
    (hbefore : word = true → wordBefore before = false) :
    rule.pattern.occursAfter before all.flatten = true ↔
      ∃ first gap second, [first, gap, second] <:+: all ∧
        (rule.onRuns first gap second).isSome = true := by
  induction h generalizing before with
  | nil =>
    refine iff_of_false Bool.false_ne_true ?_
    rintro ⟨first, gap, second, hinside, -⟩
    cases List.infix_nil.1 hinside
  | @cons word run rest hrun hrest ih =>
    have hstart : (rule.pattern before (run ++ rest.flatten)).isSome = true ↔ _ :=
      isSome_pattern_iff (.cons hrun hrest) hbefore
    rw [List.flatten_cons, Pattern.occursAfter_run startsWords_pattern hrun, Bool.or_eq_true, hstart,
      ih hrun.wordBefore_getLast?]
    constructor
    · rintro (⟨gap, second, others, rfl, hpair⟩ | ⟨first, gap, second, hinside, hpair⟩)
      · exact ⟨run, gap, second, List.infix_append [] [run, gap, second] others, hpair⟩
      · exact ⟨first, gap, second, List.infix_cons hinside, hpair⟩
    · rintro ⟨first, gap, second, hinside, hpair⟩
      rcases List.infix_cons_iff.1 hinside with hlead | hinside
      · obtain ⟨rfl, others, rfl⟩ : first = run ∧ [gap, second] <+: rest :=
          List.cons_prefix_cons.1 hlead
        exact .inl ⟨gap, second, others, rfl, hpair⟩
      · exact .inr ⟨first, gap, second, hinside, hpair⟩

/-- A rule is found in a text exactly if it is one for two neighbours in the text. -/
theorem occurs_pattern_iff :
    rule.pattern.occurs text = true ↔ ∃ first gap second, [first, gap, second] <:+: runs text ∧
      (rule.onRuns first gap second).isSome = true := by
  have hbefore : wordAhead text = true → wordBefore none = false := fun _ => rfl
  have h : rule.pattern.occursAfter none (runs text).flatten = true ↔ _ :=
    occursAfter_pattern_iff (alternates_runs text) hbefore
  rwa [flatten_runs] at h

/-- The pairs that a pass finds in the runs. -/
def pairs (rule : PairRule) : List (List Char) → List WordPair
  | first :: gap :: second :: rest =>
    match rule.onRuns first gap second with
    | some _ => ⟨first, gap, second⟩ :: pairs rule rest
    | none => pairs rule (gap :: second :: rest)
  | _ => []

theorem of_mem_pairs (h : Alternates word all) (hmem : pair ∈ rule.pairs all) :
    pair.WellFormed ∧ (rule pair).isSome = true := by
  fun_induction pairs rule all generalizing word with
  | case1 first gap second rest new hnew ih =>
    obtain ⟨hblank, hrule⟩ := onRuns_eq_some hnew
    obtain ⟨rfl, hpair⟩ := wellFormed_of_alternates h hblank
    rcases List.mem_cons.1 hmem with rfl | hmem
    · exact ⟨hpair, by rw [hrule]; rfl⟩
    · exact ih h.drop_three hmem
  | case2 first gap second rest hnone ih =>
    cases h with
    | cons _ hrest => exact ih hrest hmem
  | case3 => cases hmem

/-- A run that a pass keeps is kept by the next one. -/
theorem rewrite_kept (hform : rule.KeepsForm) (hfirst : rule.KeepsFirst)
    (h : Alternates word (first :: gap :: second :: rest))
    (hnone : rule.onRuns first gap second = none) :
    rule.rewrite (first :: rule.rewrite (gap :: second :: rest)) =
      first :: rule.rewrite (rule.rewrite (gap :: second :: rest)) := by
  cases h with
  | cons hrun hrest =>
    cases word with
    | false => exact rewrite_cons_gap (.cons hrun (alternates_rewrite hform hrest))
    | true =>
      have hhead : (rule.rewrite (second :: rest)).head? = some second := head?_rewrite hfirst
      obtain ⟨others, hothers⟩ := List.head?_eq_some_iff.1 hhead
      rw [rewrite_cons_gap hrest, hothers, rewrite, hnone]

/-- A second pass changes nothing exactly if it changes none of the pairs that the first one makes. -/
theorem rewrite_rewrite_eq_self_iff (hform : rule.KeepsForm) (hfirst : rule.KeepsFirst)
    (hagain : ∀ pair new, pair.WellFormed → rule pair = some new → (rule new).isSome = true)
    (h : Alternates word all) :
    rule.rewrite (rule.rewrite all) = rule.rewrite all ↔
      ∀ pair ∈ rule.pairs all, ∀ new, rule pair = some new → rule new = some new := by
  fun_induction rewrite rule all generalizing word with
  | case1 first gap second rest new hnew ih =>
    obtain ⟨hblank, hrule⟩ := onRuns_eq_some hnew
    obtain ⟨rfl, hpair⟩ := wellFormed_of_alternates h hblank
    obtain ⟨again, hsome⟩ := Option.isSome_iff_exists.1 (hagain _ _ hpair hrule)
    have hruns : rule.onRuns new.first new.gap new.second = some again := by
      rw [onRuns, if_pos (List.all_eq_true.2 (hform _ _ hpair hrule).blank)]
      exact hsome
    have hsame : again = new ↔ ∀ other, rule ⟨first, gap, second⟩ = some other →
        rule other = some other := by
      simp [hrule, hsome]
    simp only [rewrite, pairs, hnew, hruns, List.forall_mem_cons, ← hsame, ← ih h.drop_three,
      List.cons.injEq]
    have hparts : again = new ↔
        again.first = new.first ∧ again.gap = new.gap ∧ again.second = new.second :=
      WordPair.ext_iff
    rw [hparts, and_assoc, and_assoc]
  | case2 first gap second rest hnone ih =>
    cases h with
    | cons hrun hrest =>
      rw [rewrite_kept hform hfirst (.cons hrun hrest) hnone, pairs, hnone, ← ih hrest,
        List.cons.injEq]
      exact and_iff_right rfl
  | case3 all hshort =>
    match all, hshort with
    | [], _ => simp [rewrite, pairs]
    | [run], _ => simp [rewrite, pairs]
    | [run, gap], _ => simp [rewrite, pairs]
    | first :: gap :: second :: rest, hshort => exact (hshort _ _ _ _ rfl).elim

end PairRule

end TextGrammar
