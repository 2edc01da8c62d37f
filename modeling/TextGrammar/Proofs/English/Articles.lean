import Mathlib.Tactic.SplitIfs
import TextGrammar.Proofs.English.Forms
import TextGrammar.Proofs.English.Guards
import TextGrammar.Proofs.Text.WordPair

/-! Articles, word by word: of two articles in a row the second one is passed over. -/
namespace TextGrammar.English

variable {forms : BaseForms} {first gap second word run blanks : List Char}
  {rest all : List (List Char)} {kind : Bool}

/-- The article in the form that goes with the word after it. -/
def fixedArticle (forms : BaseForms) (article word : List Char) : List Char :=
  if article = ['A'] then capitalized (articleFor forms word) else articleFor forms word

/-- A lone article takes the form that goes with a word that starts with a vowel. -/
def articleRule (forms : BaseForms) : PairRule := fun pair =>
  if (pair.first = ['a'] ∨ pair.first = ['A']) ∧ pair.second.head?.any isVowelAnyCase = true then
    some ⟨fixedArticle forms pair.first pair.second, pair.gap, pair.second⟩
  else none

/-- A word that starts with a vowel and goes with `an`. -/
structure TakesAn (forms : BaseForms) (word : List Char) : Prop where
  vowel : word.head?.any isVowelAnyCase = true
  article : articleFor forms word = ['a', 'n']

/-- An article before a word that does not go with it. -/
structure Misplaced (forms : BaseForms) (article word : List Char) : Prop where
  lone : article = ['a'] ∨ article = ['A']
  takes : TakesAn forms word

theorem fixedArticle_of_takes (first : List Char) (h : TakesAn forms word) :
    fixedArticle forms first word = ['a', 'n'] ∨ fixedArticle forms first word = ['A', 'n'] := by
  rw [fixedArticle, h.article]
  split_ifs
  · exact .inr rfl
  · exact .inl rfl

theorem articleRule_eq_some {pair new : WordPair} (h : articleRule forms pair = some new) :
    (pair.first = ['a'] ∨ pair.first = ['A']) ∧ pair.second.head?.any isVowelAnyCase = true ∧
      new = ⟨fixedArticle forms pair.first pair.second, pair.gap, pair.second⟩ := by
  simp only [articleRule, Option.ite_none_right_eq_some, Option.some.injEq] at h
  exact ⟨h.1.1, h.1.2, h.2.symm⟩

/-- Two articles in a row, of which the second one is before a word that it does not go with. -/
def Crowded (forms : BaseForms) (all : List (List Char)) : Prop :=
  ∃ first gap second blanks word, [first, gap, second, blanks, word] <:+: all ∧
    (∀ c ∈ gap, isBlank c = true) ∧ (∀ c ∈ blanks, isBlank c = true) ∧
    (first = ['a'] ∨ first = ['A']) ∧ Misplaced forms second word

theorem Crowded.cons (h : Crowded forms rest) : Crowded forms (run :: rest) := by
  obtain ⟨first, gap, second, blanks, word, hinside, hparts⟩ := h
  exact ⟨first, gap, second, blanks, word, List.infix_cons hinside, hparts⟩

theorem onRuns_articleRule (hmisplaced : Misplaced forms first word)
    (hgap : ∀ c ∈ gap, isBlank c = true) :
    ((articleRule forms).onRuns first gap word).isSome = true := by
  rw [PairRule.onRuns, if_pos (List.all_eq_true.2 hgap), articleRule,
    if_pos ⟨hmisplaced.lone, hmisplaced.takes.vowel⟩]
  rfl

theorem isWord_of_lone {c : Char} (h : c = 'a' ∨ c = 'A') : isWord c = true := by
  rcases h with rfl | rfl
  · rfl
  · rfl

theorem articlePattern_eq : articlePattern forms = (articleRule forms).pattern := by
  funext before text
  cases text with
  | nil => simp [articlePattern, PairRule.pattern, wordAhead, wordBefore]
  | cons c text =>
    by_cases hbefore : wordBefore before = true
    · simp [articlePattern, PairRule.pattern, hbefore]
    by_cases hc : c = 'a' ∨ c = 'A'
    · have hahead : wordAhead (c :: text) = true := isWord_of_lone hc
      cases text with
      | nil => simp [articlePattern, PairRule.pattern, isWord_of_lone hc]
      | cons b text =>
        by_cases hb : isBlank b = true
        · have hgap := isWord_of_isBlank hb
          generalize hword : (text.dropWhile isBlank).takeWhile isWord = word
          by_cases hvowel : word.head?.any isVowelAnyCase = true
          · have hne : word ≠ [] := by
              rintro rfl
              cases hvowel
            simp [articlePattern, PairRule.pattern, articleRule, fixedArticle, WordPair.text, hbefore,
              hahead, hc, hb, hgap, hword, hvowel, hne, isWord_of_lone hc]
          · simp [articlePattern, PairRule.pattern, articleRule, hb, hgap, hword, hvowel,
              isWord_of_lone hc]
        · by_cases hgap : isWord b = true
          · simp [articlePattern, PairRule.pattern, articleRule, hb, hgap, isWord_of_lone hc]
          · simp [articlePattern, PairRule.pattern, hb, hgap, isWord_of_lone hc]
    · have hfirst : ¬((c :: text).takeWhile isWord = ['a'] ∨ (c :: text).takeWhile isWord = ['A']) := by
        rw [List.takeWhile_cons]
        split
        · simp only [List.cons.injEq]
          exact fun hlone => hc (hlone.imp And.left And.left)
        · simp
      simp [articlePattern, PairRule.pattern, articleRule, hc, hfirst]

theorem transform_articles (forms : BaseForms) (text : String) (background : Background) :
    (articles forms).transform (.text text) background =
      .ok (.text (String.ofList ((articleRule forms).pattern.substitute text.toList))) := by
  rw [articles, transform_textModifier, articlePattern_eq]
  rfl

section Documented

variable (hforms : forms.Documented)
include hforms

theorem takesAn_iff : TakesAn forms word ↔
    word.head?.any isVowelAnyCase = true ∧ startsSoft word = false := by
  constructor
  · rintro ⟨hvowel, harticle⟩
    refine ⟨hvowel, ?_⟩
    by_contra hsoft
    rw [articleFor_of_soft hforms (by simpa using hsoft)] at harticle
    cases harticle
  · rintro ⟨hvowel, hsoft⟩
    exact ⟨hvowel, articleFor_of_vowel hforms hsoft hvowel⟩

theorem fixedArticle_of_not_takes (hlone : first = ['a'] ∨ first = ['A'])
    (hvowel : word.head?.any isVowelAnyCase = true) (h : ¬TakesAn forms word) :
    fixedArticle forms first word = first := by
  have hsoft : startsSoft word = true := by
    by_contra hsoft
    exact h ((takesAn_iff hforms).2 ⟨hvowel, by simpa using hsoft⟩)
  rw [fixedArticle, articleFor_of_soft hforms hsoft]
  rcases hlone with rfl | rfl
  · rfl
  · rfl

theorem fixedArticle_eq_self_iff (hlone : first = ['a'] ∨ first = ['A'])
    (hvowel : word.head?.any isVowelAnyCase = true) :
    fixedArticle forms first word = first ↔ ¬TakesAn forms word := by
  refine ⟨fun hsame htakes => ?_, fixedArticle_of_not_takes hforms hlone hvowel⟩
  have hfixed := fixedArticle_of_takes first htakes
  rw [hsame] at hfixed
  rcases hlone with rfl | rfl <;> simp at hfixed

theorem takes_of_lone (h : first = ['a'] ∨ first = ['A']) : TakesAn forms first := by
  rw [takesAn_iff hforms]
  rcases h with rfl | rfl
  · exact ⟨rfl, rfl⟩
  · exact ⟨rfl, rfl⟩

/-- What goes with the article goes with what becomes of it. -/
theorem takes_iff_of_articleRule {pair new : WordPair} (h : articleRule forms pair = some new) :
    TakesAn forms new.first ↔ TakesAn forms pair.first := by
  obtain ⟨hlone, hvowel, rfl⟩ := articleRule_eq_some h
  refine iff_of_true ?_ (takes_of_lone hforms hlone)
  by_cases htakes : TakesAn forms pair.second
  · rw [takesAn_iff hforms]
    rcases fixedArticle_of_takes pair.first htakes with heq | heq
    · simp only [heq]
      exact ⟨rfl, rfl⟩
    · simp only [heq]
      exact ⟨rfl, rfl⟩
  · simp only [fixedArticle_of_not_takes hforms hlone hvowel htakes]
    exact takes_of_lone hforms hlone

theorem keepsForm_articleRule : (articleRule forms).KeepsForm := by
  intro pair new hpair hnew
  obtain ⟨hlone, hvowel, rfl⟩ := articleRule_eq_some hnew
  refine ⟨?_, hpair.gap, hpair.blank, hpair.second⟩
  by_cases htakes : TakesAn forms pair.second
  · rcases fixedArticle_of_takes pair.first htakes with heq | heq
    · simp only [heq]
      exact ⟨List.cons_ne_nil _ _, List.all_eq_true.1 (by decide)⟩
    · simp only [heq]
      exact ⟨List.cons_ne_nil _ _, List.all_eq_true.1 (by decide)⟩
  · simp only [fixedArticle_of_not_takes hforms hlone hvowel htakes]
    exact hpair.first

/-- A pass leaves runs as they are exactly if each article goes with the word after it. -/
theorem rewrite_eq_self_iff (h : Alternates kind all) :
    (articleRule forms).rewrite all = all ↔ PairRule.Avoids (Misplaced forms) all := by
  fun_induction PairRule.rewrite (articleRule forms) all generalizing kind with
  | case1 first gap second rest new hnew ih =>
    obtain ⟨hblank, hrule⟩ := PairRule.onRuns_eq_some hnew
    obtain ⟨rfl, hpair⟩ := PairRule.wellFormed_of_alternates h hblank
    obtain ⟨hlone, hvowel, rfl⟩ := articleRule_eq_some hrule
    have hrest := ih h.drop_three
    simp only [List.cons.injEq, true_and, fixedArticle_eq_self_iff hforms hlone hvowel, hrest]
    constructor
    · rintro ⟨hnot, hothers⟩ a b c hinside hb hbad
      rcases PairRule.infix_cases hpair.second hinside hb with ⟨-, -, rfl⟩ | ⟨rfl, -⟩ | hinside
      · exact hnot hbad.takes
      · exact hnot (takes_of_lone hforms hbad.lone)
      · exact hothers a b c hinside hb hbad
    · intro havoids
      refine ⟨fun htakes => ?_, havoids.tail.tail.tail⟩
      exact havoids first gap second (List.infix_append [] [first, gap, second] rest) hblank
        ⟨hlone, htakes⟩
  | case2 first gap second rest hnone ih =>
    cases h with
    | cons _ hrest =>
      simp only [List.cons.injEq, true_and, ih hrest]
      constructor
      · intro hothers a b c hinside hb hbad
        rcases List.infix_cons_iff.1 hinside with hlead | hinside
        · obtain ⟨rfl, rfl, rfl⟩ : a = first ∧ b = gap ∧ c = second := by simpa using hlead
          have hsome := onRuns_articleRule hbad hb
          rw [hnone] at hsome
          cases hsome
        · exact hothers a b c hinside hb hbad
      · exact PairRule.Avoids.tail
  | case3 all hshort => exact iff_of_true rfl (PairRule.avoids_of_short hshort)

/-- What a word is followed by after a pass goes with the same articles as before. -/
theorem exists_rewrite_cons (word : List Char) (rest : List (List Char)) :
    ∃ next others, (articleRule forms).rewrite (word :: rest) = next :: others ∧
      (TakesAn forms next ↔ TakesAn forms word) := by
  generalize hall : word :: rest = all
  fun_cases PairRule.rewrite (articleRule forms) all with
  | case1 first gap second rest new hnew =>
    cases hall
    exact ⟨_, _, rfl, takes_iff_of_articleRule hforms (PairRule.onRuns_eq_some hnew).2⟩
  | case2 =>
    cases hall
    exact ⟨_, _, rfl, Iff.rfl⟩
  | case3 =>
    cases hall
    exact ⟨_, _, rfl, Iff.rfl⟩

theorem exists_of_prefix_rewrite {other : List Char} (h : Alternates false rest)
    (hlead : [gap, other] <+: (articleRule forms).rewrite rest) :
    ∃ word others, rest = gap :: word :: others ∧
      (TakesAn forms other ↔ TakesAn forms word) := by
  cases rest with
  | nil => cases hlead.length_le
  | cons run rest =>
    rw [PairRule.rewrite_cons_gap h] at hlead
    obtain ⟨rfl, hnext⟩ := List.cons_prefix_cons.1 hlead
    cases rest with
    | nil => cases List.prefix_nil.1 hnext
    | cons word rest =>
      obtain ⟨next, others, hrewrite, htakes⟩ := exists_rewrite_cons hforms word rest
      rw [hrewrite] at hnext
      obtain ⟨rfl, -⟩ := List.cons_prefix_cons.1 hnext
      exact ⟨word, rest, rfl, htakes⟩

/-- A word that was taken with the article before it stays an article, whatever comes next. -/
theorem not_avoids_of_next (hrest : Alternates false (gap :: word :: rest))
    (hblank : ∀ c ∈ gap, isBlank c = true) (hbad : Misplaced forms first word) :
    ¬PairRule.Avoids (Misplaced forms) (first :: (articleRule forms).rewrite (gap :: word :: rest)) := by
  obtain ⟨next, others, hrewrite, htakes⟩ := exists_rewrite_cons hforms word rest
  rw [PairRule.rewrite_cons_gap hrest, hrewrite]
  intro havoids
  exact havoids first gap next (List.infix_append [] [first, gap, next] others) hblank
    ⟨hbad.lone, htakes.2 hbad.takes⟩

theorem not_avoids_rewrite (h : Alternates kind all) (hcrowded : Crowded forms all) :
    ¬PairRule.Avoids (Misplaced forms) ((articleRule forms).rewrite all) := by
  obtain ⟨article, between, other, blanks, word, hinside, hbetween, hblanks, hlone, hbad⟩ := hcrowded
  fun_induction PairRule.rewrite (articleRule forms) all generalizing kind with
  | case1 first gap second rest new hnew ih =>
    obtain ⟨hblank, hrule⟩ := PairRule.onRuns_eq_some hnew
    obtain ⟨rfl, hpair⟩ := PairRule.wellFormed_of_alternates h hblank
    obtain ⟨-, -, rfl⟩ := articleRule_eq_some hrule
    have hrest := h.drop_three
    rcases List.infix_cons_iff.1 hinside with hlead | hinside
    · -- the first article takes the second one, so that this one is passed over
      obtain ⟨rfl, rfl, rfl, others, rfl⟩ : article = first ∧ between = gap ∧ other = second ∧
          [blanks, word] <+: rest := by
        simpa only [List.cons_prefix_cons] using hlead
      exact fun havoids => not_avoids_of_next hforms hrest hblanks hbad havoids.tail.tail
    rcases List.infix_cons_iff.1 hinside with hlead | hinside
    · obtain ⟨rfl, rfl, -⟩ : article = gap ∧ between = second ∧ _ := by
        simpa only [List.cons_prefix_cons] using hlead
      exact (PairRule.not_blank_of_isRun hpair.second hbetween).elim
    rcases List.infix_cons_iff.1 hinside with hlead | hinside
    · obtain ⟨rfl, others, rfl⟩ : article = second ∧ [between, other, blanks, word] <+: rest := by
        simpa only [List.cons_prefix_cons] using hlead
      exact fun havoids =>
        not_avoids_of_next hforms hrest hbetween ⟨hlone, takes_of_lone hforms hbad.lone⟩
          havoids.tail.tail
    · exact fun havoids => ih hrest hinside havoids.tail.tail.tail
  | case2 first gap second rest hnone ih =>
    rcases List.infix_cons_iff.1 hinside with hlead | hinside
    · obtain ⟨rfl, rfl, rfl, -⟩ : article = first ∧ between = gap ∧ other = second ∧ _ := by
        simpa only [List.cons_prefix_cons] using hlead
      have hsome := onRuns_articleRule ⟨hlone, takes_of_lone hforms hbad.lone⟩ hbetween
      rw [hnone] at hsome
      cases hsome
    · cases h with
      | cons _ hrest =>
        exact fun havoids => ih hrest hinside havoids.tail
  | case3 all hshort =>
    have hlength := hinside.length_le
    rcases all with _ | ⟨first, _ | ⟨gap, _ | ⟨second, rest⟩⟩⟩
    · simp at hlength
    · simp at hlength
    · simp at hlength
    · exact (hshort _ _ _ _ rfl).elim

theorem avoids_rewrite_of_not_crowded (h : Alternates kind all) (hcrowded : ¬Crowded forms all) :
    PairRule.Avoids (Misplaced forms) ((articleRule forms).rewrite all) := by
  fun_induction PairRule.rewrite (articleRule forms) all generalizing kind with
  | case1 first gap second rest new hnew ih =>
    obtain ⟨hblank, hrule⟩ := PairRule.onRuns_eq_some hnew
    obtain ⟨rfl, hpair⟩ := PairRule.wellFormed_of_alternates h hblank
    obtain ⟨hlone, hvowel, rfl⟩ := articleRule_eq_some hrule
    have hrest := h.drop_three
    intro a b c hinside hb hbad
    rcases PairRule.infix_cases hpair.second hinside hb with ⟨rfl, -, rfl⟩ | ⟨rfl, hnext⟩ | hinside
    · have hsame : fixedArticle forms first c = ['a'] ∨ fixedArticle forms first c = ['A'] := hbad.lone
      have hfixed := fixedArticle_of_takes first hbad.takes
      rcases hsame with heq | heq <;> simp [heq] at hfixed
    · obtain ⟨word, others, rfl, htakes⟩ := exists_of_prefix_rewrite hforms hrest hnext
      exact hcrowded ⟨first, gap, a, b, word,
        List.infix_append [] [first, gap, a, b, word] others, hblank, hb, hlone,
        hbad.lone, htakes.1 hbad.takes⟩
    · exact ih hrest (fun hlater => hcrowded hlater.cons.cons.cons) a b c hinside hb hbad
  | case2 first gap second rest hnone ih =>
    cases h with
    | @cons kind _ _ hrun hrest =>
      intro a b c hinside hb hbad
      rcases List.infix_cons_iff.1 hinside with hlead | hinside
      · obtain ⟨rfl, hnext⟩ := List.cons_prefix_cons.1 hlead
        have hkind : kind = true := by
          rcases hbad.lone with rfl | rfl
          · exact (hrun.kind 'a' List.mem_cons_self).symm
          · exact (hrun.kind 'A' List.mem_cons_self).symm
        subst hkind
        obtain ⟨word, others, heq, htakes⟩ := exists_of_prefix_rewrite hforms hrest hnext
        cases heq
        have hsome := onRuns_articleRule ⟨hbad.lone, htakes.1 hbad.takes⟩ hb
        rw [hnone] at hsome
        cases hsome
      · exact ih hrest (fun hlater => hcrowded hlater.cons) a b c hinside hb hbad
  | case3 all hshort => exact PairRule.avoids_of_short hshort

/-- A pass over articles is final exactly if it has put every article in its right form, and that is
so exactly if no two articles in a row came before a word that the second one does not go with. -/
theorem articles_final_iff (text : String) :
    ∃ out, (∀ background, (articles forms).transform (.text text) background = .ok (.text out)) ∧
      ((∀ background, (articles forms).transform (.text out) background = .ok (.text out)) ↔
        ∀ article word, Neighbours out.toList article word → ¬Misplaced forms article word) ∧
      ((∀ background, (articles forms).transform (.text out) background = .ok (.text out)) ↔
        ¬Crowded forms (runs text.toList)) := by
  have hruns := PairRule.runs_substitute (keepsForm_articleRule hforms) text.toList
  have halternates := alternates_runs text.toList
  generalize hafter : (articleRule forms).pattern.substitute text.toList = after at hruns
  have hfinal : (∀ background, (articles forms).transform (.text (String.ofList after)) background =
      .ok (.text (String.ofList after))) ↔ PairRule.Avoids (Misplaced forms) (runs after) := by
    simp only [transform_articles, String.toList_ofList, Except.ok.injEq, Data.text.injEq,
      String.ofList_inj, PairRule.substitute_eq_self_iff (keepsForm_articleRule hforms),
      rewrite_eq_self_iff hforms (alternates_runs after)]
    exact ⟨fun h => h {}, fun h _ => h⟩
  refine ⟨String.ofList after, fun background => ?_, ?_, ?_⟩
  · rw [transform_articles, hafter]
  · rw [hfinal, PairRule.avoids_runs, String.toList_ofList]
  · rw [hfinal, hruns]
    exact ⟨fun havoids hcrowded => not_avoids_rewrite hforms halternates hcrowded havoids,
      avoids_rewrite_of_not_crowded hforms halternates⟩

end Documented

theorem articles_final_baseEnglish :
    baseEnglish.Documented ∧
      ∃ out, (∀ background, (articles baseEnglish).transform (.text "a a apple") background =
          .ok (.text out)) ∧
        ((∀ background, (articles baseEnglish).transform (.text out) background =
            .ok (.text out)) ↔
          ∀ article word, Neighbours out.toList article word →
            ¬Misplaced baseEnglish article word) ∧
        ((∀ background, (articles baseEnglish).transform (.text out) background =
            .ok (.text out)) ↔
          ¬Crowded baseEnglish (runs "a a apple".toList)) :=
  ⟨baseEnglish_documented, articles_final_iff baseEnglish_documented "a a apple"⟩

/-- Of two articles in a row the second one is passed over. -/
theorem articles_not_final :
    (articles baseEnglish).transform (.text "a a apple") {} = .ok (.text "an a apple") ∧
    (articles baseEnglish).transform (.text "an a apple") {} = .ok (.text "an an apple") ∧
    (articles baseEnglish).transform (.text "an a apple") {} ≠ .ok (.text "an a apple") ∧
    Neighbours "an a apple".toList "a".toList "apple".toList ∧
    Misplaced baseEnglish "a".toList "apple".toList := by
  have hagain : (articles baseEnglish).transform (.text "an a apple") {} =
      .ok (.text "an an apple") := rfl
  have hruns : runs "an a apple".toList = [['a', 'n'], [' '], ['a'], [' '], "apple".toList] := by
    decide
  refine ⟨rfl, hagain, ?_, ⟨[' '], List.all_eq_true.1 (by decide), ?_⟩, .inl rfl, rfl, rfl⟩
  · rw [hagain]
    intro h
    have hsame : "an an apple" = "an a apple" := Data.text.inj (Except.ok.inj h)
    exact absurd hsame (by decide)
  · rw [hruns]
    exact ⟨[['a', 'n'], [' ']], [], rfl⟩

end TextGrammar.English
