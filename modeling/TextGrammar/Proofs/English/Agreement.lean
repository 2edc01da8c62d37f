import TextGrammar.English.Agreement
import TextGrammar.Proofs.Text.WordPair

/-! Agreement of pronouns and verbs: two passes leave no pronoun before the other number's verb. -/
namespace TextGrammar.English

variable {pronouns : List String} {wrong right verb : String} {text out : List Char}
  {before : Option Char}

/-- Right after one of the pronouns the wrong verb becomes the right one, after a single space. -/
def verbRule (pronouns : List String) (wrong right : String) : PairRule := fun pair =>
  if folded pair.first ∈ pronouns ∧ folded pair.second = wrong then
    some ⟨pair.first, [' '], right.toList⟩
  else none

theorem toList_folded (word : List Char) : (folded word).toList = word.map foldChar :=
  String.toList_ofList

theorem length_of_folded {word : List Char} (h : folded word = verb) : word.length = verb.length := by
  rw [← h, folded, String.length_ofList, List.length_map]

/-- What reads as a word of ASCII letters when case is ignored consists of word characters. -/
theorem isWord_of_folded {word : List Char} (hverb : verb.toList.all isLower = true)
    (h : folded word = verb) : ∀ c ∈ word, isWord c = true := by
  intro c hc
  have hfolded : foldChar c ∈ verb.toList := by
    rw [← h, toList_folded]
    exact List.mem_map_of_mem hc
  exact isWord_of_isLetter (List.all_eq_true.1 hverb _ hfolded)

/-- A verb stands at the start of a text as a word of its own exactly if it is the first word. -/
theorem folded_takeWhile_iff (hverb : verb.toList.all isLower = true) :
    (folded (text.take verb.length) = verb ∧ wordAhead (text.drop verb.length) = false) ↔
      folded (text.takeWhile isWord) = verb := by
  constructor
  · rintro ⟨hfolded, hahead⟩
    have hword := takeWhile_stretch (isWord_of_folded hverb hfolded)
      (wordAhead_eq_false_iff.1 hahead)
    rw [List.take_append_drop] at hword
    rw [hword, hfolded]
  · intro h
    obtain ⟨word, rest, rfl, hword, hrest⟩ := exists_stretch isWord text
    rw [takeWhile_stretch hword hrest] at h
    rw [← length_of_folded h, List.take_left, List.drop_left]
    exact ⟨h, wordAhead_eq_false_iff.2 hrest⟩

theorem subjectOf?_eq (hverb : verb.toList.all isLower = true) :
    subjectOf? verb before text =
      if wordBefore before || !wordAhead text then none
      else
        let word := text.takeWhile isWord
        let blanks := (text.dropWhile isWord).takeWhile isBlank
        let next := ((text.dropWhile isWord).dropWhile isBlank).takeWhile isWord
        if blanks ≠ [] ∧ folded next = verb then
          some (word, folded word, word.length + blanks.length + next.length)
        else none := by
  rw [subjectOf?]
  split
  · rfl
  · have hnext := @folded_takeWhile_iff verb ((text.dropWhile isWord).dropWhile isBlank) hverb
    by_cases h : folded (((text.dropWhile isWord).dropWhile isBlank).takeWhile isWord) = verb
    · obtain ⟨htake, hdrop⟩ := hnext.2 h
      simp [h, htake, hdrop, length_of_folded h]
    · have hnot := mt hnext.1 h
      simp only [h, and_false, if_false]
      refine if_neg fun hcondition => hnot ?_
      simp only [Bool.and_eq_true, beq_iff_eq, Bool.not_eq_true'] at hcondition
      exact ⟨hcondition.1.2, hcondition.2⟩

theorem verbPattern_eq (hverb : wrong.toList.all isLower = true) (hwrong : wrong ≠ "") :
    verbPattern pronouns wrong right = (verbRule pronouns wrong right).pattern := by
  funext before text
  rw [verbPattern, subjectOf?_eq hverb, PairRule.pattern]
  by_cases hstart : (wordBefore before || !wordAhead text) = true
  · simp only [hstart, if_true]
  · simp only [hstart, Bool.false_eq_true, if_false]
    generalize ((text.dropWhile isWord).dropWhile isBlank).takeWhile isWord = next
    by_cases hnext : folded next = wrong
    · have hne : next ≠ [] := by
        rintro rfl
        exact hwrong hnext.symm
      by_cases hgap : (text.dropWhile isWord).takeWhile isBlank = []
      · simp [hgap]
      · by_cases hpronoun : folded (text.takeWhile isWord) ∈ pronouns
        · simp [verbRule, WordPair.text, hnext, hne, hgap, hpronoun]
        · simp [verbRule, hnext, hne, hgap, hpronoun]
    · simp [verbRule, hnext]

theorem verbRule_eq_some {pair new : WordPair} (h : verbRule pronouns wrong right pair = some new) :
    (folded pair.first ∈ pronouns ∧ folded pair.second = wrong) ∧
      new = ⟨pair.first, [' '], right.toList⟩ := by
  simp only [verbRule, Option.ite_none_right_eq_some, Option.some.injEq] at h
  exact ⟨h.1, h.2.symm⟩

theorem keepsForm_verbRule (hright : right.toList.all isLower = true) (hne : right.toList ≠ []) :
    (verbRule pronouns wrong right).KeepsForm := by
  intro pair new hpair hnew
  obtain ⟨-, rfl⟩ := verbRule_eq_some hnew
  have hspace : ∀ c ∈ [' '], isBlank c = true := List.all_eq_true.1 (by decide)
  have hword : ∀ c ∈ right.toList, isWord c = true :=
    fun c hc => isWord_of_isLower (List.all_eq_true.1 hright c hc)
  exact ⟨hpair.first, List.cons_ne_nil _ _, hspace, hne, hword⟩

theorem keepsFirst_verbRule : (verbRule pronouns wrong right).KeepsFirst := by
  intro pair new hnew
  obtain ⟨-, rfl⟩ := verbRule_eq_some hnew
  rfl

/-- What a pass makes of pronouns and verbs, if no pair of a certain kind is among what it puts in. -/
theorem avoids_verbRule {bad : List Char → List Char → Prop} {word : Bool} {all : List (List Char)}
    (hright : right.toList.all isLower = true) (hne : right.toList ≠ [])
    (hmade : ∀ subject, folded subject ∈ pronouns → ¬bad subject right.toList)
    (hafter : ∀ other, ¬bad right.toList other) (h : Alternates word all)
    (hkept : PairRule.Avoids (fun subject verb => bad subject verb ∧
      ¬(folded subject ∈ pronouns ∧ folded verb = wrong)) all) :
    PairRule.Avoids bad ((verbRule pronouns wrong right).rewrite all) := by
  refine PairRule.avoids_rewrite (keepsForm_verbRule hright hne) keepsFirst_verbRule ?_ ?_ h ?_
  · intro pair new _ _ hnew
    obtain ⟨⟨hpronoun, -⟩, rfl⟩ := verbRule_eq_some hnew
    exact hmade _ hpronoun
  · intro pair new other _ hnew
    obtain ⟨-, rfl⟩ := verbRule_eq_some hnew
    exact hafter other
  · intro subject gap verb hinside hblank hnone hbad
    refine hkept subject gap verb hinside hblank ⟨hbad, fun hpair => ?_⟩
    rw [verbRule, if_pos hpair] at hnone
    cases hnone

abbrev singularRule : PairRule := verbRule singularPronouns "are" "is"

abbrev pluralRule : PairRule := verbRule pluralPronouns "is" "are"

/-- A pronoun and the verb of the other number. -/
def Disagree (subject verb : List Char) : Prop :=
  folded subject ∈ singularPronouns ∧ folded verb = "are" ∨
    folded subject ∈ pluralPronouns ∧ folded verb = "is"

theorem keepsForm_singularRule : singularRule.KeepsForm := keepsForm_verbRule (by decide) (by decide)

theorem keepsForm_pluralRule : pluralRule.KeepsForm := keepsForm_verbRule (by decide) (by decide)

theorem withAgreement_eq (text : List Char) :
    withAgreement text = pluralRule.pattern.substitute (singularRule.pattern.substitute text) := by
  rw [withAgreement, verbPattern_eq (by decide) (by decide), verbPattern_eq (by decide) (by decide)]

/-- The first pass leaves no singular pronoun before "are". The second one puts "are" after plural
pronouns only, so that it makes no such pair again. -/
theorem avoids_withAgreement (text : List Char) :
    PairRule.Avoids Disagree (runs (withAgreement text)) := by
  have hsingular : PairRule.Avoids
      (fun subject verb => folded subject ∈ singularPronouns ∧ folded verb = "are")
      (singularRule.rewrite (runs text)) := by
    refine avoids_verbRule (by decide) (by decide) ?_ ?_ (alternates_runs text) ?_
    · rintro subject - ⟨-, hverb⟩
      exact absurd hverb (by decide)
    · rintro other ⟨hsubject, -⟩
      exact absurd hsubject (by decide)
    · rintro subject gap verb - - ⟨hpair, hnot⟩
      exact hnot hpair
  have hpronouns : ∀ pronoun ∈ pluralPronouns, pronoun ∉ singularPronouns := by decide
  rw [withAgreement_eq, PairRule.runs_substitute keepsForm_pluralRule,
    PairRule.runs_substitute keepsForm_singularRule]
  refine avoids_verbRule (by decide) (by decide) ?_ ?_
    (PairRule.alternates_rewrite keepsForm_singularRule (alternates_runs text)) ?_
  · rintro subject hplural (⟨hsubject, -⟩ | ⟨-, hverb⟩)
    · exact hpronouns _ hplural hsubject
    · exact absurd hverb (by decide)
  · rintro other (⟨hsubject, -⟩ | ⟨hsubject, -⟩)
    · exact absurd hsubject (by decide)
    · exact absurd hsubject (by decide)
  · rintro subject gap verb hinside hblank ⟨hbad, hnot⟩
    exact hsingular subject gap verb hinside hblank (hbad.resolve_right hnot)

/-- A run as it reads when the width of blanks and the number of the verb do not count. -/
def numberless (run : List Char) : List Char :=
  if run.all isBlank then [' '] else if folded run ∈ ["is", "are"] then "is".toList else run

theorem numberless_of_verb {run : List Char} (h : folded run ∈ ["is", "are"]) :
    numberless run = "is".toList := by
  have hletters : ∀ verb ∈ ["is", "are"], verb.toList.all isLower = true ∧ verb.toList ≠ [] := by
    decide
  obtain ⟨hlower, hne⟩ := hletters _ h
  have hrun : run ≠ [] := by
    rintro rfl
    exact hne rfl
  have hnotBlank : ¬run.all isBlank = true := fun hblank =>
    PairRule.not_blank_of_isRun ⟨hrun, isWord_of_folded hlower rfl⟩ (List.all_eq_true.1 hblank)
  rw [numberless, if_neg hnotBlank, if_pos h]

theorem map_numberless_rewrite (hwrong : wrong ∈ ["is", "are"])
    (hright : folded right.toList ∈ ["is", "are"]) (all : List (List Char)) :
    ((verbRule pronouns wrong right).rewrite all).map numberless = all.map numberless := by
  refine PairRule.map_rewrite ?_ all
  intro pair new hblank hnew
  obtain ⟨⟨-, hverb⟩, rfl⟩ := verbRule_eq_some hnew
  refine ⟨rfl, ?_, ?_⟩
  · rw [numberless, numberless, if_pos (List.all_eq_true.2 hblank)]
    rfl
  · rw [numberless_of_verb hright, numberless_of_verb (by rwa [hverb])]

/-- Nothing but blanks and forms of the verb changes. -/
theorem map_numberless_withAgreement (text : List Char) :
    (runs (withAgreement text)).map numberless = (runs text).map numberless := by
  rw [withAgreement_eq, PairRule.runs_substitute keepsForm_pluralRule,
    PairRule.runs_substitute keepsForm_singularRule,
    map_numberless_rewrite (by decide) (by decide), map_numberless_rewrite (by decide) (by decide)]

theorem verbPass_eq_self (hform : (verbRule pronouns wrong right).KeepsForm)
    (h : PairRule.Avoids (fun subject verb => folded subject ∈ pronouns ∧ folded verb = wrong)
      (runs text)) :
    (verbRule pronouns wrong right).pattern.substitute text = text := by
  refine (PairRule.substitute_eq_self_iff hform).2 (PairRule.rewrite_eq_self ?_)
  intro subject gap verb hinside
  rw [PairRule.onRuns]
  split
  · rename_i hblank
    exact if_neg (h subject gap verb hinside (List.all_eq_true.1 hblank))
  · rfl

theorem withAgreement_of_avoids (h : PairRule.Avoids Disagree (runs text)) :
    withAgreement text = text := by
  have hsingular : singularRule.pattern.substitute text = text :=
    verbPass_eq_self keepsForm_singularRule fun subject gap verb hinside hblank hpair =>
      h subject gap verb hinside hblank (.inl hpair)
  have hplural : pluralRule.pattern.substitute text = text :=
    verbPass_eq_self keepsForm_pluralRule fun subject gap verb hinside hblank hpair =>
      h subject gap verb hinside hblank (.inr hpair)
  rw [withAgreement_eq, hsingular, hplural]

end TextGrammar.English
