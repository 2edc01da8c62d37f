import TextGrammar.Proofs.English.Guards
import TextGrammar.Proofs.English.Plurals
import TextGrammar.Proofs.Text.WordPair

/-! Nouns after numbers and quantifiers: a second pass meets the same pairs as the first one. -/
namespace TextGrammar.English

open Pattern

variable {forms : BaseForms} {text quantifier noun run : List Char} {pair new : WordPair}
  {before : Option Char}

def isQuantifier (word : List Char) : Bool := word.all isDigit || countWords.contains (folded word)

/-- Whether the noun after a quantifier is left as it is. -/
def isKept (quantifier noun : List Char) : Bool :=
  quantifier.all isDigit && digitRunValue quantifier == 1
    || otherWords.contains (String.ofList (lowerText noun)) || isPluralForm noun

/-- After a quantifier a noun that is not left as it is becomes its plural, after a single space. -/
def countRule (forms : BaseForms) : PairRule := fun pair =>
  if isQuantifier pair.first && pair.second.all isLetter then
    some (if isKept pair.first pair.second then pair
      else ⟨pair.first, [' '], pluralOf forms pair.second⟩)
  else none

theorem takeWhile_isLetter_eq (h : (text.takeWhile isWord).all isLetter = true) :
    text.takeWhile isLetter = text.takeWhile isWord := by
  obtain ⟨word, rest, rfl, hword, hrest⟩ := exists_stretch isWord text
  rw [takeWhile_stretch hword hrest] at h ⊢
  refine takeWhile_stretch (List.all_eq_true.1 h) fun c hc => Bool.eq_false_iff.2 fun hletter => ?_
  have hnot := hrest c hc
  rw [isWord_of_isLetter hletter] at hnot
  cases hnot

/-- The letters at the start of a text are a word of their own exactly if they are its first word. -/
theorem takeWhile_isLetter_iff (text : List Char) :
    (text.takeWhile isLetter ≠ [] ∧ wordAhead (text.dropWhile isLetter) = false) ↔
      text.takeWhile isWord ≠ [] ∧ (text.takeWhile isWord).all isLetter = true := by
  constructor
  · rintro ⟨hne, hahead⟩
    obtain ⟨letters, rest, rfl, hletters, hrest⟩ := exists_stretch isLetter text
    rw [takeWhile_stretch hletters hrest] at hne
    rw [dropWhile_stretch hletters hrest] at hahead
    rw [takeWhile_stretch (fun c hc => isWord_of_isLetter (hletters c hc))
      (wordAhead_eq_false_iff.1 hahead)]
    exact ⟨hne, List.all_eq_true.2 hletters⟩
  · rintro ⟨hne, hall⟩
    have hletters := takeWhile_isLetter_eq hall
    obtain ⟨word, rest, rfl, hword, hrest⟩ := exists_stretch isWord text
    rw [hletters]
    refine ⟨hne, ?_⟩
    rw [takeWhile_stretch hword hrest] at hletters
    have hdrop : (word ++ rest).dropWhile isLetter = rest := by
      have hparts := List.takeWhile_append_dropWhile (p := isLetter) (l := word ++ rest)
      rw [hletters] at hparts
      exact List.append_cancel_left hparts
    rw [hdrop]
    exact wordAhead_eq_false_iff.2 hrest

theorem quantified?_eq : quantified? before text =
    if wordBefore before || !wordAhead text then none
    else
      let quantifier := text.takeWhile isWord
      let blanks := (text.dropWhile isWord).takeWhile isBlank
      let noun := ((text.dropWhile isWord).dropWhile isBlank).takeWhile isWord
      if blanks.isEmpty || noun.isEmpty then none
      else if isQuantifier quantifier && noun.all isLetter then some (quantifier, blanks, noun)
      else none := by
  rw [quantified?]
  split
  · rfl
  · have hnoun := takeWhile_isLetter_iff ((text.dropWhile isWord).dropWhile isBlank)
    by_cases hgap : (text.dropWhile isWord).takeWhile isBlank = []
    · simp [hgap]
    · by_cases hall : (((text.dropWhile isWord).dropWhile isBlank).takeWhile isWord).all isLetter = true
      · dsimp only
        rw [takeWhile_isLetter_eq hall] at hnoun ⊢
        by_cases hne : ((text.dropWhile isWord).dropWhile isBlank).takeWhile isWord = []
        · simp [hne]
        · simp [isQuantifier, hgap, hne, hall, (hnoun.2 ⟨hne, hall⟩).2]
      · simp only [hall, Bool.and_false, Bool.false_eq_true, if_false, ite_self]
        refine if_neg fun hcondition => hall ?_
        simp only [Bool.and_eq_true, Bool.not_eq_true', List.isEmpty_eq_false_iff] at hcondition
        exact (hnoun.1 ⟨hcondition.1.2, hcondition.2⟩).2

theorem pluralPattern_apply : pluralPattern forms before text =
    (quantified? before text).map fun (quantifier, blanks, noun) =>
      (if isKept quantifier noun then quantifier ++ blanks ++ noun
        else quantifier ++ ' ' :: pluralOf forms noun,
        quantifier.length + blanks.length + noun.length) := by
  rw [pluralPattern]
  cases quantified? before text with
  | none => rfl
  | some parts =>
    obtain ⟨quantifier, blanks, noun⟩ := parts
    change (if isKept quantifier noun = true then some (quantifier ++ blanks ++ noun, _)
      else some (quantifier ++ ' ' :: pluralOf forms noun, _)) = _
    by_cases hkept : isKept quantifier noun = true
    · simp [hkept]
    · simp [hkept]

theorem pluralPattern_eq : pluralPattern forms = (countRule forms).pattern := by
  funext before text
  rw [pluralPattern_apply, quantified?_eq, PairRule.pattern]
  by_cases hstart : (wordBefore before || !wordAhead text) = true
  · simp only [hstart, if_true, Option.map_none]
  · simp only [hstart, Bool.false_eq_true, if_false]
    generalize text.takeWhile isWord = quantifier
    generalize (text.dropWhile isWord).takeWhile isBlank = blanks
    generalize ((text.dropWhile isWord).dropWhile isBlank).takeWhile isWord = noun
    by_cases hempty : (blanks.isEmpty || noun.isEmpty) = true
    · simp only [hempty, if_true, Option.map_none]
    · by_cases hpair : (isQuantifier quantifier && noun.all isLetter) = true
      · by_cases hkept : isKept quantifier noun = true
        · simp [hempty, hpair, hkept, countRule, WordPair.text]
        · simp [hempty, hpair, hkept, countRule, WordPair.text]
      · simp [hempty, hpair, countRule]

theorem countRule_eq_some (h : countRule forms pair = some new) :
    isQuantifier pair.first = true ∧ (∀ c ∈ pair.second, isLetter c = true) ∧
      new = if isKept pair.first pair.second then pair
        else ⟨pair.first, [' '], pluralOf forms pair.second⟩ := by
  simp only [countRule, Option.ite_none_right_eq_some, Bool.and_eq_true, List.all_eq_true,
    Option.some.injEq] at h
  exact ⟨h.1.1, h.1.2, h.2.symm⟩

theorem keepsFirst_countRule : (countRule forms).KeepsFirst := by
  intro pair new hnew
  obtain ⟨-, -, rfl⟩ := countRule_eq_some hnew
  split <;> rfl

theorem isLetter_second (hforms : forms.Documented) (hpair : pair.WellFormed)
    (hnew : countRule forms pair = some new) :
    new.second ≠ [] ∧ ∀ c ∈ new.second, isLetter c = true := by
  obtain ⟨-, hletters, rfl⟩ := countRule_eq_some hnew
  split
  · exact ⟨hpair.second.nonempty, hletters⟩
  · exact isLetter_pluralOf hforms hpair.second.nonempty hletters

theorem keepsForm_countRule (hforms : forms.Documented) : (countRule forms).KeepsForm := by
  intro pair new hpair hnew
  obtain ⟨hne, hletters⟩ := isLetter_second hforms hpair hnew
  have hsecond : IsRun true new.second := ⟨hne, fun c hc => isWord_of_isLetter (hletters c hc)⟩
  have hspace : ∀ c ∈ [' '], isBlank c = true := List.all_eq_true.1 (by decide)
  obtain ⟨-, -, rfl⟩ := countRule_eq_some hnew
  split at hsecond
  · rename_i hkept
    rwa [if_pos hkept]
  · rename_i hkept
    rw [if_neg hkept]
    exact ⟨hpair.first, List.cons_ne_nil _ _, hspace, hsecond⟩

/-- A second pass is one of the same rule on what the first one made. -/
theorem isSome_countRule_again (hforms : forms.Documented) (hpair : pair.WellFormed)
    (hnew : countRule forms pair = some new) :
    (countRule forms new).isSome = true := by
  obtain ⟨hquantifier, -⟩ := countRule_eq_some hnew
  rw [← keepsFirst_countRule pair new hnew] at hquantifier
  rw [countRule, hquantifier, List.all_eq_true.2 (isLetter_second hforms hpair hnew).2]
  rfl

theorem isKept_of_not_isKept (h : isKept quantifier noun = false) (other : List Char) :
    isKept quantifier other =
      (otherWords.contains (String.ofList (lowerText other)) || isPluralForm other) := by
  simp only [isKept, Bool.or_eq_false_iff] at h
  rw [isKept, h.1.1, Bool.false_or]

/-- Which pairs a second pass leaves as the first one makes them. -/
theorem countRule_again_iff (hforms : forms.Documented) (hpair : pair.WellFormed)
    (hsome : (countRule forms pair).isSome = true) :
    (∀ new, countRule forms pair = some new → countRule forms new = some new) ↔
      (isKept pair.first pair.second = false → ¬Relapses forms pair.second) := by
  obtain ⟨made, hmade⟩ := Option.isSome_iff_exists.1 hsome
  obtain ⟨again, hagain⟩ := Option.isSome_iff_exists.1 (isSome_countRule_again hforms hpair hmade)
  have hfinal : (∀ new, countRule forms pair = some new → countRule forms new = some new) ↔
      again = made := by
    simp [hmade, hagain]
  obtain ⟨-, hletters, hnew⟩ := countRule_eq_some hmade
  obtain ⟨-, -, hlast⟩ := countRule_eq_some hagain
  rw [hfinal]
  cases hkept : isKept pair.first pair.second with
  | true =>
    rw [hkept, if_pos rfl] at hnew
    subst hnew
    rw [hkept, if_pos rfl] at hlast
    exact iff_of_true hlast (by simp)
  | false =>
    have hsingular : isPluralForm pair.second = false := (Bool.or_eq_false_iff.1 hkept).2
    rw [hkept, if_neg Bool.false_ne_true] at hnew
    subst hnew
    rw [isKept_of_not_isKept hkept] at hlast
    simp only [relapses_iff hforms hpair.second.nonempty hletters hsingular, true_implies]
    rw [hlast]
    by_cases hplural : String.ofList (lowerText (pluralOf forms pair.second)) ∈ otherWords ∨
        isPluralForm (pluralOf forms pair.second) = true
    · rw [if_pos (by simpa using hplural)]
      refine iff_of_true rfl fun ⟨hother, hform, _⟩ => ?_
      rcases hplural with hword | hword
      · exact hother hword
      · rw [hform] at hword
        cases hword
    · rw [if_neg (by simpa using hplural)]
      obtain ⟨hother, hform⟩ := not_or.1 hplural
      simp [hother, hform]

/-- A number before a noun that is too long to be read. -/
structure Overlong (number noun : List Char) : Prop where
  digits : number.all isDigit = true
  long : maxNumeralDigits < number.length
  letters : noun.all isLetter = true

theorem not_overlong_of_letters {other : List Char} (h : ∀ c ∈ noun, isLetter c = true) :
    ¬Overlong noun other := by
  intro hlong
  obtain ⟨c, hc⟩ := List.exists_mem_of_length_pos (Nat.zero_lt_of_lt hlong.long)
  have hdigit := List.all_eq_true.1 hlong.digits c hc
  rw [isDigit_of_isLetter (h c hc)] at hdigit
  cases hdigit

/-- A rule for the pairs that have a number which is too long. -/
def overlongRule : PairRule := fun pair =>
  if pair.first.all isDigit && maxNumeralDigits < pair.first.length && pair.second.all isLetter then
    some pair
  else none

theorem isSome_overlongRule (pair : WordPair) :
    (overlongRule pair).isSome = true ↔ Overlong pair.first pair.second := by
  rw [overlongRule, Option.isSome_ite, Bool.and_eq_true, Bool.and_eq_true, decide_eq_true_eq, and_assoc]
  exact ⟨fun ⟨hdigits, hlong, hletters⟩ => ⟨hdigits, hlong, hletters⟩,
    fun h => ⟨h.digits, h.long, h.letters⟩⟩

theorem isSome_overlongRule_pattern :
    (overlongRule.pattern before text).isSome = true ↔ ∃ quantifier blanks noun,
      quantified? before text = some (quantifier, blanks, noun) ∧
        (quantifier.all isDigit && quantifier.length > maxNumeralDigits) = true := by
  rw [quantified?_eq, PairRule.pattern]
  by_cases hstart : (wordBefore before || !wordAhead text) = true
  · simp [hstart]
  · simp only [hstart, Bool.false_eq_true, if_false]
    generalize text.takeWhile isWord = quantifier
    generalize (text.dropWhile isWord).takeWhile isBlank = blanks
    generalize ((text.dropWhile isWord).dropWhile isBlank).takeWhile isWord = noun
    by_cases hempty : (blanks.isEmpty || noun.isEmpty) = true
    · simp [hempty]
    · simp only [hempty, Bool.false_eq_true, if_false, Option.isSome_map, isSome_overlongRule]
      constructor
      · intro h
        refine ⟨quantifier, blanks, noun, if_pos ?_, ?_⟩
        · rw [isQuantifier, h.digits, h.letters]
          rfl
        · rw [h.digits, Bool.true_and]
          exact decide_eq_true h.long
      · rintro ⟨number, gap, word, hfound, hlong⟩
        obtain ⟨hpair, heq⟩ := Option.ite_none_right_eq_some.1 hfound
        cases heq
        rw [Bool.and_eq_true] at hpair hlong
        exact ⟨hlong.1, of_decide_eq_true hlong.2, hpair.2⟩

theorem overlongQuantifier?_eq_none_iff :
    overlongQuantifier? before text = none ↔
      overlongRule.pattern.occursAfter before text = false := by
  induction text generalizing before with
  | nil => exact iff_of_true rfl rfl
  | cons c text ih =>
    rw [occursAfter, Bool.or_eq_false_iff, ← ih, Bool.eq_false_iff, Ne, isSome_overlongRule_pattern,
      overlongQuantifier?]
    cases hfound : quantified? before (c :: text) with
    | none => simp
    | some parts =>
      obtain ⟨quantifier, blanks, noun⟩ := parts
      by_cases hlong : (quantifier.all isDigit && quantifier.length > maxNumeralDigits) = true
      · simp only [hlong, if_true]
        refine iff_of_false (Option.some_ne_none _) fun hboth => hboth.1 ?_
        exact ⟨quantifier, blanks, noun, rfl, hlong⟩
      · simp only [hlong, Bool.false_eq_true, if_false]
        refine (and_iff_right ?_).symm
        rintro ⟨number, gap, word, heq, hdigits⟩
        cases heq
        exact hlong hdigits

theorem overlong_lt {size : Nat} (h : overlongQuantifier? before text = some size) :
    maxNumeralDigits < size := by
  fun_induction overlongQuantifier? before text with
  | case1 => cases h
  | case2 before c text quantifier blanks noun hfound hlong =>
    cases h
    exact of_decide_eq_true (Bool.and_eq_true_iff.1 hlong).2
  | case3 before c text quantifier blanks noun hfound hshort ih => exact ih h
  | case4 before c text hnone ih => exact ih h

/-- Every number is read exactly if none before a noun is too long. -/
theorem overlongQuantifier?_eq_none_iff_avoids (text : List Char) :
    overlongQuantifier? none text = none ↔ PairRule.Avoids Overlong (runs text) := by
  rw [overlongQuantifier?_eq_none_iff, ← Bool.not_eq_true]
  change ¬overlongRule.pattern.occurs text = true ↔ _
  rw [PairRule.occurs_pattern_iff]
  constructor
  · intro hnone first gap second hinside hblank hlong
    refine hnone ⟨first, gap, second, hinside, ?_⟩
    rw [PairRule.onRuns, if_pos (List.all_eq_true.2 hblank), isSome_overlongRule]
    exact hlong
  · rintro havoids ⟨first, gap, second, hinside, hsome⟩
    obtain ⟨new, hnew⟩ := Option.isSome_iff_exists.1 hsome
    obtain ⟨hblank, hrule⟩ := PairRule.onRuns_eq_some hnew
    have hlong := (isSome_overlongRule ⟨first, gap, second⟩).1 (by rw [hrule]; rfl)
    exact havoids first gap second hinside hblank hlong

/-- A pass leaves the numbers as they are, and puts none before a noun. -/
theorem avoids_overlong_rewrite (hforms : forms.Documented)
    (h : PairRule.Avoids Overlong (runs text)) :
    PairRule.Avoids Overlong ((countRule forms).rewrite (runs text)) := by
  refine PairRule.avoids_rewrite (keepsForm_countRule hforms) keepsFirst_countRule ?_ ?_
    (alternates_runs text) fun first gap second hinside hblank _ => h first gap second hinside hblank
  · intro pair new hinside hblank hnew hlong
    obtain ⟨-, hletters, -⟩ := countRule_eq_some hnew
    rw [keepsFirst_countRule pair new hnew] at hlong
    exact h _ _ _ hinside hblank ⟨hlong.digits, hlong.long, List.all_eq_true.2 hletters⟩
  · exact fun pair new other hpair hnew => not_overlong_of_letters (isLetter_second hforms hpair hnew).2

theorem withPlurals_of_avoids (h : PairRule.Avoids Overlong (runs text)) :
    withPlurals forms text = .ok ((countRule forms).pattern.substitute text) := by
  rw [withPlurals, (overlongQuantifier?_eq_none_iff_avoids text).2 h, pluralPattern_eq]

theorem transform_plurals (forms : BaseForms) (text : String) (background : Background) :
    (plurals forms).transform (.text text) background =
      (withPlurals forms text.toList).map fun after => .text (String.ofList after) := by
  rw [plurals, transform_textModifier]

/-- Nouns after numbers and quantifiers get their plurals, unless a number is too long to be read. A
second pass changes the text exactly if the first one has put a noun in the plural whose plural it
takes for another noun. -/
theorem plurals_final_iff (hforms : forms.Documented) (text : String) :
    (∃ number noun, Neighbours text.toList number noun ∧ Overlong number noun) ∧
      (∃ size, maxNumeralDigits < size ∧ ∀ background,
        (plurals forms).transform (.text text) background = .error (.value (.integerTooLong size))) ∨
    ∃ out, (∀ background, (plurals forms).transform (.text text) background = .ok (.text out)) ∧
      ((∀ background, (plurals forms).transform (.text out) background = .ok (.text out)) ↔
        ∀ pair ∈ (countRule forms).pairs (runs text.toList),
          isKept pair.first pair.second = false → ¬Relapses forms pair.second) := by
  by_cases havoids : PairRule.Avoids Overlong (runs text.toList)
  · right
    have hruns := PairRule.runs_substitute (keepsForm_countRule hforms) text.toList
    have halternates := alternates_runs text.toList
    have hlater :
        PairRule.Avoids Overlong (runs ((countRule forms).pattern.substitute text.toList)) := by
      rw [hruns]
      exact avoids_overlong_rewrite hforms havoids
    refine ⟨String.ofList ((countRule forms).pattern.substitute text.toList), fun background => ?_, ?_⟩
    · rw [transform_plurals, withPlurals_of_avoids havoids]
      rfl
    · simp only [transform_plurals, String.toList_ofList, withPlurals_of_avoids hlater, Except.map,
        Except.ok.injEq, Data.text.injEq, String.ofList_inj,
        PairRule.substitute_eq_self_iff (keepsForm_countRule hforms), hruns]
      have hpairs := PairRule.rewrite_rewrite_eq_self_iff (keepsForm_countRule hforms)
        keepsFirst_countRule (fun _ _ hpair hnew => isSome_countRule_again hforms hpair hnew) halternates
      have hnouns : (∀ pair ∈ (countRule forms).pairs (runs text.toList), ∀ new,
          countRule forms pair = some new → countRule forms new = some new) ↔
          ∀ pair ∈ (countRule forms).pairs (runs text.toList),
            isKept pair.first pair.second = false → ¬Relapses forms pair.second := by
        refine forall₂_congr fun pair hmem => ?_
        obtain ⟨hpair, hsome⟩ := PairRule.of_mem_pairs halternates hmem
        exact countRule_again_iff hforms hpair hsome
      rw [← hnouns, ← hpairs]
      exact ⟨fun h => h {}, fun h _ => h⟩
  · left
    obtain ⟨size, hsize⟩ := Option.ne_none_iff_exists'.1
      (mt (overlongQuantifier?_eq_none_iff_avoids text.toList).1 havoids)
    refine ⟨?_, size, overlong_lt hsize, fun background => ?_⟩
    · simpa only [PairRule.avoids_runs, not_forall, not_not, exists_prop] using havoids
    · rw [transform_plurals, withPlurals, hsize]
      rfl

theorem plurals_final_baseEnglish :
    baseEnglish.Documented ∧
      ((∃ number noun, Neighbours "two taxi".toList number noun ∧ Overlong number noun) ∧
        (∃ size, maxNumeralDigits < size ∧ ∀ background,
          (plurals baseEnglish).transform (.text "two taxi") background =
            .error (.value (.integerTooLong size))) ∨
      ∃ out, (∀ background,
          (plurals baseEnglish).transform (.text "two taxi") background = .ok (.text out)) ∧
        ((∀ background, (plurals baseEnglish).transform (.text out) background =
            .ok (.text out)) ↔
          ∀ pair ∈ (countRule baseEnglish).pairs (runs "two taxi".toList),
            isKept pair.first pair.second = false → ¬Relapses baseEnglish pair.second)) :=
  ⟨baseEnglish_documented, plurals_final_iff baseEnglish_documented "two taxi"⟩

/-- The plural "taxis" is taken for a noun. -/
theorem plurals_not_final :
    (plurals baseEnglish).transform (.text "two taxi") {} = .ok (.text "two taxis") ∧
    (plurals baseEnglish).transform (.text "two taxis") {} = .ok (.text "two taxises") ∧
    (plurals baseEnglish).transform (.text "two taxis") {} ≠ .ok (.text "two taxis") := by
  have hread (text out : String) (hshort : overlongQuantifier? none text.toList = none)
      (hout : String.ofList ((pluralPattern baseEnglish).substitute text.toList) = out) :
      (plurals baseEnglish).transform (.text text) {} = .ok (.text out) := by
    rw [transform_plurals, withPlurals, hshort, ← hout]
    rfl
  have hagain : (plurals baseEnglish).transform (.text "two taxis") {} = .ok (.text "two taxises") :=
    hread _ _ (by decide) (by decide +kernel)
  refine ⟨hread _ _ (by decide) (by decide +kernel), hagain, ?_⟩
  rw [hagain]
  intro h
  have hsame : "two taxises" = "two taxis" := Data.text.inj (Except.ok.inj h)
  exact absurd hsame (by decide)

end TextGrammar.English
