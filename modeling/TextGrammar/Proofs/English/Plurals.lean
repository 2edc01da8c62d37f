import Mathlib.Tactic.SplitIfs
import TextGrammar.English.Plural
import TextGrammar.Proofs.English.Forms
import TextGrammar.Proofs.Text.Case

/-! Plurals of plurals: only those of nouns in `i`, `u` or a capital `S` get another ending. -/
namespace TextGrammar.English

variable {forms : BaseForms} {front stem noun model word : List Char} {c : Char}
  {lower form : String}

theorem endsWith_iff (text ending : String) :
    text.endsWith ending = true ↔ ending.toList <:+ text.toList := by
  rw [String.endsWith_eq_endsWith_toSlice, String.Slice.endsWith_string_iff, String.copy_toSlice]

theorem endsWith_ofList_iff {ending : String} :
    (String.ofList word).endsWith ending = true ↔ ending.toList <:+ word := by
  rw [endsWith_iff, String.toList_ofList]

theorem lowerText_capitalized (h : ∀ c ∈ word, isLower c = true) :
    lowerText (capitalized word) = word := by
  cases word with
  | nil => rfl
  | cons c word =>
    obtain ⟨hc, hword⟩ := List.forall_mem_cons.1 h
    rw [capitalized, lowerText, List.flatMap_cons, lowerChar_upperChar hc]
    exact congrArg (c :: ·) (lowerText_of_isLower hword)

theorem lowerText_inCaseOf (model : List Char) (h : ∀ c ∈ word, isLower c = true) :
    lowerText (inCaseOf model word) = word := by
  unfold inCaseOf
  split_ifs
  · exact lowerText_map_upperChar h
  · exact lowerText_capitalized h
  · exact lowerText_of_isLower h

theorem all_isLower_of_upper (h : ∀ c ∈ word, isLower c = true) :
    (word.map upperChar).all (fun c => !isLower c) = true := by
  rw [List.all_map, List.all_eq_true]
  intro c hc
  rw [Function.comp_apply, isLower_of_isUpper (isUpper_upperChar (h c hc))]
  rfl

/-- A form that has got the case of a word keeps it. -/
theorem inCaseOf_inCaseOf (model : List Char) (h : ∀ c ∈ word, isLower c = true)
    (hlength : 2 ≤ word.length) : inCaseOf (inCaseOf model word) word = inCaseOf model word := by
  obtain ⟨c, d, rest, rfl⟩ : ∃ c d rest, word = c :: d :: rest := by
    match word, hlength with
    | c :: d :: rest, _ => exact ⟨c, d, rest, rfl⟩
  have hc := h c (by simp)
  have hd := h d (by simp)
  have hupper := isLower_of_isUpper (isUpper_upperChar hc)
  by_cases hall : (model.all (fun c => !isLower c) && model.length > 1) = true
  · have hmodel : inCaseOf model (c :: d :: rest) = (c :: d :: rest).map upperChar := if_pos hall
    rw [hmodel, inCaseOf, all_isLower_of_upper h]
    simp
  · by_cases hhead : model.head?.any (fun c => !isLower c) = true
    · have hmodel : inCaseOf model (c :: d :: rest) = upperChar c :: d :: rest := by
        rw [inCaseOf, if_neg hall, if_pos hhead]
        rfl
      rw [hmodel]
      simp [inCaseOf, hd, hupper, capitalized]
    · have hmodel : inCaseOf model (c :: d :: rest) = c :: d :: rest := by
        rw [inCaseOf, if_neg hall, if_neg hhead]
      rw [hmodel]
      simp [inCaseOf, hc]

/-- The endings of plurals: an `s`, but none of `ss`, `us` and `is`. -/
def endsAsPlural (word : String) : Bool :=
  word.endsWith "s" && !(word.endsWith "ss" || word.endsWith "us" || word.endsWith "is")

theorem endsAsPlural_concat (word : List Char) :
    endsAsPlural (String.ofList (word ++ ['s'])) = !word.getLast?.any fun c => c ∈ ['s', 'u', 'i'] := by
  have hs : (String.ofList (word ++ ['s'])).endsWith "s" = true :=
    endsWith_ofList_iff.2 (List.suffix_append word ['s'])
  have hpair (c : Char) : [c, 's'] <:+ word ++ ['s'] ↔ word.getLast? = some c := by
    rw [← List.singleton_suffix_iff_getLast?_eq_some, ← List.singleton_append,
      List.suffix_append_self_iff]
  rw [endsAsPlural, hs, Bool.true_and, Bool.not_inj_iff, Bool.eq_iff_iff]
  simp only [Bool.or_eq_true, endsWith_ofList_iff]
  change ((['s', 's'] <:+ _ ∨ ['u', 's'] <:+ _) ∨ ['i', 's'] <:+ _) ↔ _
  rw [hpair, hpair, hpair]
  cases word.getLast? with
  | none => simp
  | some c => simp [or_assoc]

/-- The letters after which an `s` makes no plural that is taken for one. -/
def bareLetters : List Char := ['i', 'I', 'u', 'U', 'S']

theorem lowerChar_of_bare (h : c ∈ bareLetters) :
    ∃ d, lowerChar c = [d] ∧ (d = 's' ∨ d = 'u' ∨ d = 'i') := by
  simp only [bareLetters, List.mem_cons, List.not_mem_nil, or_false] at h
  rcases h with rfl | rfl | rfl | rfl | rfl
  · exact ⟨'i', rfl, .inr (.inr rfl)⟩
  · exact ⟨'i', rfl, .inr (.inr rfl)⟩
  · exact ⟨'u', rfl, .inr (.inl rfl)⟩
  · exact ⟨'u', rfl, .inr (.inl rfl)⟩
  · exact ⟨'s', rfl, .inl rfl⟩

theorem bare_of_lowerChar {d : Char} (h : (lowerChar c).getLast? = some d)
    (hd : d = 's' ∨ d = 'u' ∨ d = 'i') : c = 's' ∨ c ∈ bareLetters := by
  unfold lowerChar at h
  split_ifs at h with hupper hk hi
  · have hrange := isUpper_iff.1 hupper
    have hcode : d.toNat = c.toNat + 32 := by
      cases h
      exact toNat_ofNat (.inl (by omega))
    have hback : c = Char.ofNat (d.toNat - 32) := by
      rw [hcode, Nat.add_sub_cancel, Char.ofNat_toNat]
    rw [hback]
    rcases hd with rfl | rfl | rfl <;> decide
  · cases h
    exact absurd hd (by decide)
  · cases h
    exact absurd hd (by decide)
  · cases h
    rcases hd with rfl | rfl | rfl <;> decide

/-- A plural in `es` is taken for one. -/
theorem endsAsPlural_of_es (stem : List Char) :
    endsAsPlural (String.ofList (lowerText (stem ++ ['e', 's']))) = true := by
  have hlower : lowerText (stem ++ ['e', 's']) = (lowerText stem ++ ['e']) ++ ['s'] := by
    rw [lowerText_append, List.append_assoc]
    rfl
  rw [hlower, endsAsPlural_concat]
  simp

/-- What is read off the list of irregular nouns. -/
structure IrregularsAgree : Prop where
  nouns_long : ∀ entry ∈ irregulars, 2 ≤ entry.1.toList.length
  forms_small : ∀ entry ∈ irregulars,
    entry.2.toList.all isLower = true ∧ 2 ≤ entry.2.toList.length
  /-- A form that is also listed as a noun is its own plural. -/
  forms_final : ∀ entry ∈ irregulars,
    irregulars.lookup entry.2 = none ∨ irregulars.lookup entry.2 = some entry.2
  forms_in_s : ∀ entry ∈ irregulars, entry.2.endsWith "s" = true → endsAsPlural entry.2 = true
  nouns_in_s : ∀ entry ∈ irregulars, entry.1.endsWith "s" = true →
    endsAsPlural entry.1 = true ∨ entry.2 ≠ entry.1
  plural_nouns : ∀ entry ∈ irregulars, endsAsPlural entry.1 = true →
    entry.1 ∈ ["series", "species"]
  series_species : ∀ word ∈ ["series", "species"], word ∉ otherWords ∧ endsAsPlural word = true ∧
    (irregularPlural? word).isSome = true

theorem irregularsAgree : IrregularsAgree where
  nouns_long := by decide
  forms_small := by decide +kernel
  forms_final := by decide +kernel
  forms_in_s := by decide +kernel
  nouns_in_s := by decide +kernel
  plural_nouns := by decide +kernel
  series_species := by decide +kernel

theorem mem_irregulars (h : irregularPlural? lower = some form) : (lower, form) ∈ irregulars := by
  obtain ⟨before, after, heq, -⟩ := List.lookup_eq_some_iff.1 h
  rw [heq]
  exact List.mem_append_right _ List.mem_cons_self

theorem irregular_form (h : irregularPlural? lower = some form) :
    2 ≤ lower.toList.length ∧ (∀ c ∈ form.toList, isLower c = true) ∧ 2 ≤ form.toList.length := by
  have hmem := mem_irregulars h
  obtain ⟨hlower, hlength⟩ := irregularsAgree.forms_small _ hmem
  exact ⟨irregularsAgree.nouns_long _ hmem, List.all_eq_true.1 hlower, hlength⟩

theorem irregularPlural?_form (h : irregularPlural? lower = some form) :
    irregularPlural? form = none ∨ irregularPlural? form = some form :=
  irregularsAgree.forms_final _ (mem_irregulars h)

theorem pluralOf_of_short (h : (lowerText noun).length < 2) : pluralOf forms noun = noun ++ ['s'] := by
  rw [pluralOf]
  simp only [if_pos h]

theorem stemInF?_eq_some {ending : List Char} (hc : isLetter c = true)
    (h : stemInF? (front ++ [c]) = some (stem, ending)) :
    stem <+: front ∧ ending = [] ∧ (foldChar c = 'f' ∨ foldChar c = 'e') := by
  have hbreak : splitFinalBreak (front ++ [c]) = (front ++ [c], []) := by
    refine if_neg ?_
    rw [List.getLast?_concat]
    rintro ⟨⟩
    cases hc
  rw [stemInF?, hbreak] at h
  simp only [List.reverse_append, List.reverse_singleton, List.singleton_append, List.map_cons] at h
  split at h
  · rename_i hfold hline
    cases h
    obtain ⟨rfl, rfl⟩ := List.cons.inj hline
    exact ⟨by simp, rfl, .inl (List.cons.inj hfold).1⟩
  · rename_i hfold hline
    cases h
    obtain ⟨rfl, hfront⟩ := List.cons.inj hline
    refine ⟨?_, rfl, .inr (List.cons.inj hfold).1⟩
    rw [List.reverse_eq_iff.1 hfront, List.reverse_cons]
    exact List.prefix_append _ _
  · cases h

theorem plural_shape (hforms : forms.Documented) (hletters : ∀ d ∈ front ++ [c], isLetter d = true)
    (hlong : c = 'y' → front ≠ []) :
    (∃ stem, (∀ d ∈ stem, isLetter d = true) ∧ forms.plural (front ++ [c]) = stem ++ ['e', 's']) ∨
      c ≠ 's' ∧ forms.plural (front ++ [c]) = front ++ [c] ++ ['s'] := by
  by_cases hhiss : c ∈ ['s', 'h', 'x']
  · exact .inl ⟨_, hletters, hforms.plural_hiss front c hhiss⟩
  by_cases hy : c = 'y'
  · subst hy
    obtain ⟨start, d, rfl⟩ : ∃ start d, front = start ++ [d] :=
      ⟨_, _, (List.dropLast_append_getLast (hlong rfl)).symm⟩
    cases hvowel : isVowel d with
    | true => exact .inr ⟨by decide, hforms.plural_vowel_y start d hvowel⟩
    | false =>
      refine .inl ⟨start ++ [d] ++ ['i'], fun e he => ?_, by
        rw [hforms.plural_y start d hvowel, List.append_assoc _ ['i']]
        rfl⟩
      rcases List.mem_append.1 he with he | he
      · exact hletters e (List.mem_append_left _ he)
      · rw [List.mem_singleton.1 he]
        rfl
  · have hother : c ∉ ['s', 'h', 'x', 'y'] := by
      simp only [List.mem_cons, List.not_mem_nil, or_false, not_or] at hhiss ⊢
      exact ⟨hhiss.1, hhiss.2.1, hhiss.2.2, hy⟩
    refine .inr ⟨?_, hforms.plural_other front c hother⟩
    rintro rfl
    exact hhiss List.mem_cons_self

/-- A regular plural ends in `es`, or it is the noun with an `s`. -/
theorem pluralOf_shape (hforms : forms.Documented)
    (hletters : ∀ d ∈ front ++ [c], isLetter d = true)
    (hregular : irregularPlural? (String.ofList (lowerText (front ++ [c]))) = none)
    (hlong : 2 ≤ (lowerText (front ++ [c])).length) :
    (∃ stem, (∀ d ∈ stem, isLetter d = true) ∧ pluralOf forms (front ++ [c]) = stem ++ ['e', 's']) ∨
      c ≠ 's' ∧ pluralOf forms (front ++ [c]) = front ++ [c] ++ ['s'] := by
  have hc := hletters c (List.mem_append_right _ List.mem_cons_self)
  have hes : ∃ stem, (∀ d ∈ stem, isLetter d = true) ∧
      front ++ [c] ++ ['e', 's'] = stem ++ ['e', 's'] := ⟨_, hletters, rfl⟩
  rw [pluralOf]
  simp only [if_neg (Nat.not_lt.2 hlong), hregular]
  split
  · exact .inl hes
  split
  · rename_i hh
    refine .inr ⟨?_, rfl⟩
    rintro rfl
    simp only [Bool.and_eq_true, endsWith_ofList_iff] at hh
    have hlast : (lowerText (front ++ ['s'])).getLast? = some 'h' :=
      List.singleton_suffix_iff_getLast?_eq_some.1 hh.1.1
    rw [getLast?_lowerText] at hlast
    cases hlast
  split
  · rename_i stem ending hstem
    obtain ⟨hlead, rfl, hfold⟩ := stemInF?_eq_some hc hstem
    split
    · refine .inr ⟨?_, rfl⟩
      rintro rfl
      exact absurd hfold (by decide)
    · refine .inl ⟨stem ++ ['v'], fun d hd => ?_, by simp⟩
      rcases List.mem_append.1 hd with hd | hd
      · exact hletters d (List.mem_append_left _ (hlead.subset hd))
      · rw [List.mem_singleton.1 hd]
        rfl
  · split
    · exact .inl hes
    · refine plural_shape hforms hletters ?_
      rintro rfl rfl
      exact absurd hlong (by decide)

theorem not_isConsonantAndO {d : Char} (hd : d ≠ 'o') (hbreak : d ≠ '\n') :
    isConsonantAndO (word ++ [d]) = false := by
  simp [isConsonantAndO, splitFinalBreak, hd, hbreak]

/-- After these letters none of the exceptions counts. -/
theorem pluralOf_eq_plural (hc : c = 's' ∨ c ∈ bareLetters)
    (hregular : irregularPlural? (String.ofList (lowerText (front ++ [c]))) = none)
    (hlong : 2 ≤ (lowerText (front ++ [c])).length) :
    pluralOf forms (front ++ [c]) = forms.plural (front ++ [c]) := by
  obtain ⟨d, hlower, hd⟩ : ∃ d, lowerChar c = [d] ∧ (d = 's' ∨ d = 'u' ∨ d = 'i') := by
    rcases hc with rfl | hc
    · exact ⟨'s', rfl, .inl rfl⟩
    · exact lowerChar_of_bare hc
  have hletter : isLetter c = true ∧ ¬(foldChar c = 'f' ∨ foldChar c = 'e') := by
    simp only [bareLetters, List.mem_cons, List.not_mem_nil, or_false] at hc
    rcases hc with rfl | rfl | rfl | rfl | rfl | rfl <;> decide
  have hword : lowerText (front ++ [c]) = lowerText front ++ [d] := by
    rw [lowerText_append, ← hlower]
    exact congrArg (lowerText front ++ ·) (List.append_nil _)
  have hstem : stemInF? (front ++ [c]) = none := by
    rw [Option.eq_none_iff_forall_ne_some]
    rintro ⟨stem, ending⟩ hstem
    exact hletter.2 (stemInF?_eq_some hletter.1 hstem).2.2
  have hlast : ∀ e, [e] <:+ lowerText (front ++ [c]) → e = d := by
    intro e he
    rw [hword, List.singleton_suffix_append_singleton_iff] at he
    exact he
  have hz : (String.ofList (lowerText (front ++ [c]))).endsWith "z" ≠ true := by
    rw [Ne, endsWith_ofList_iff]
    intro hz
    rw [← hlast 'z' hz] at hd
    exact absurd hd (by decide)
  have hh : (String.ofList (lowerText (front ++ [c]))).endsWith "h" ≠ true := by
    rw [Ne, endsWith_ofList_iff]
    intro hh
    rw [← hlast 'h' hh] at hd
    exact absurd hd (by decide)
  have ho : isConsonantAndO (lowerText (front ++ [c])) = false := by
    rw [hword]
    refine not_isConsonantAndO ?_ ?_
    · rintro rfl
      exact absurd hd (by decide)
    · rintro rfl
      exact absurd hd (by decide)
  rw [pluralOf]
  simp only [if_neg (Nat.not_lt.2 hlong), hregular, hstem, ho]
  simp [hz, hh]

theorem isPluralForm_eq (noun : List Char) :
    isPluralForm noun =
      if (irregularPlural? (String.ofList (lowerText noun))).isSome then false
      else if irregulars.any (·.2 == String.ofList (lowerText noun)) then true
      else endsAsPlural (String.ofList (lowerText noun)) :=
  rfl

/-- A noun in `s` that is no plural yet does not get a mere `s`. -/
theorem regular_shape (hforms : forms.Documented)
    (hletters : ∀ d ∈ front ++ [c], isLetter d = true)
    (hregular : irregularPlural? (String.ofList (lowerText (front ++ [c]))) = none)
    (hsingular : isPluralForm (front ++ [c]) = false) :
    (∃ stem, (∀ d ∈ stem, isLetter d = true) ∧ pluralOf forms (front ++ [c]) = stem ++ ['e', 's']) ∨
      c ≠ 's' ∧ pluralOf forms (front ++ [c]) = front ++ [c] ++ ['s'] := by
  by_cases hlong : 2 ≤ (lowerText (front ++ [c])).length
  · exact pluralOf_shape hforms hletters hregular hlong
  · refine .inr ⟨?_, ?_⟩
    · rintro rfl
      have hlength := length_le_length_lowerText (front ++ ['s'])
      have hfront : front = [] := by
        rw [List.length_append, List.length_singleton] at hlength
        exact List.eq_nil_of_length_eq_zero (by omega)
      subst hfront
      have hends : endsAsPlural (String.ofList (lowerText ([] ++ ['s']))) = true :=
        endsAsPlural_concat []
      rw [isPluralForm_eq, hregular, hends] at hsingular
      simp at hsingular
    · exact pluralOf_of_short (Nat.lt_of_not_le hlong)

theorem pluralOf_of_bare (hforms : forms.Documented) (hc : c ∈ bareLetters)
    (hregular : irregularPlural? (String.ofList (lowerText (front ++ [c]))) = none) :
    pluralOf forms (front ++ [c]) = front ++ [c] ++ ['s'] := by
  by_cases hlong : 2 ≤ (lowerText (front ++ [c])).length
  · rw [pluralOf_eq_plural (.inr hc) hregular hlong]
    refine hforms.plural_other front c ?_
    simp only [bareLetters, List.mem_cons, List.not_mem_nil, or_false] at hc
    rcases hc with rfl | rfl | rfl | rfl | rfl <;> decide
  · exact pluralOf_of_short (Nat.lt_of_not_le hlong)

theorem pluralOf_append_s (hforms : forms.Documented) (hne : word ≠ [])
    (hregular : irregularPlural? (String.ofList (lowerText (word ++ ['s']))) = none) :
    pluralOf forms (word ++ ['s']) = word ++ ['s'] ++ ['e', 's'] := by
  have hlong : 2 ≤ (lowerText (word ++ ['s'])).length := by
    have hlength := length_le_length_lowerText (word ++ ['s'])
    have hpos := List.length_pos_iff.2 hne
    rw [List.length_append, List.length_singleton] at hlength
    omega
  rw [pluralOf_eq_plural (.inl rfl) hregular hlong]
  exact hforms.plural_hiss word 's' (by decide)

theorem pluralOf_of_irregular (h : irregularPlural? (String.ofList (lowerText noun)) = some form) :
    pluralOf forms noun = inCaseOf noun form.toList := by
  have hlong := (irregular_form h).1
  rw [String.toList_ofList] at hlong
  rw [pluralOf]
  simp only [if_neg (Nat.not_lt.2 hlong), h]

/-- An irregular plural is taken for one, or it is its own plural. -/
theorem again_of_irregular (h : irregularPlural? (String.ofList (lowerText noun)) = some form) :
    isPluralForm (pluralOf forms noun) = true ∨
      pluralOf forms (pluralOf forms noun) = pluralOf forms noun := by
  obtain ⟨-, hlower, hlength⟩ := irregular_form h
  have hword : String.ofList (lowerText (pluralOf forms noun)) = form := by
    rw [pluralOf_of_irregular h, lowerText_inCaseOf noun hlower, String.ofList_toList]
  rcases irregularPlural?_form h with hnone | hself
  · left
    have hany : irregulars.any (·.2 == form) = true :=
      List.any_eq_true.2 ⟨_, mem_irregulars h, beq_self_eq_true form⟩
    rw [isPluralForm_eq, hword, hnone, hany]
    rfl
  · right
    have hagain : pluralOf forms (pluralOf forms noun) = inCaseOf (pluralOf forms noun) form.toList :=
      pluralOf_of_irregular (by rwa [hword])
    rw [hagain, pluralOf_of_irregular h, inCaseOf_inCaseOf noun hlower hlength]

theorem isLetter_inCaseOf (model : List Char) (h : ∀ c ∈ word, isLower c = true) :
    ∀ c ∈ inCaseOf model word, isLetter c = true := by
  have hcapital (c : Char) (hc : c ∈ word) : isLetter (upperChar c) = true :=
    isLetter_iff.2 (.inl (isUpper_upperChar (h c hc)))
  unfold inCaseOf
  split_ifs
  · exact List.forall_mem_map.2 hcapital
  · cases word with
    | nil => exact fun c hc => (List.not_mem_nil hc).elim
    | cons c word =>
      exact List.forall_mem_cons.2 ⟨hcapital c List.mem_cons_self, fun d hd =>
        isLetter_of_isLower (h d (List.mem_cons_of_mem _ hd))⟩
  · exact fun c hc => isLetter_of_isLower (h c hc)

/-- The plural of a word of letters is a word of letters. -/
theorem isLetter_pluralOf (hforms : forms.Documented) (hne : noun ≠ [])
    (hletters : ∀ d ∈ noun, isLetter d = true) :
    pluralOf forms noun ≠ [] ∧ ∀ d ∈ pluralOf forms noun, isLetter d = true := by
  obtain ⟨front, c, rfl⟩ : ∃ front c, noun = front ++ [c] :=
    ⟨_, _, (List.dropLast_append_getLast hne).symm⟩
  have hs : ∀ d ∈ front ++ [c] ++ ['s'], isLetter d = true := by
    intro d hd
    rcases List.mem_append.1 hd with hd | hd
    · exact hletters d hd
    · rw [List.mem_singleton.1 hd]
      rfl
  by_cases hlong : 2 ≤ (lowerText (front ++ [c])).length
  · cases hlookup : irregularPlural? (String.ofList (lowerText (front ++ [c]))) with
    | some form =>
      obtain ⟨-, hlower, hlength⟩ := irregular_form hlookup
      rw [pluralOf_of_irregular hlookup]
      refine ⟨?_, isLetter_inCaseOf _ hlower⟩
      intro hnil
      have hform := lowerText_inCaseOf (front ++ [c]) hlower
      rw [hnil] at hform
      rw [← hform] at hlength
      exact absurd hlength (by decide)
    | none =>
      rcases pluralOf_shape hforms hletters hlookup hlong with ⟨stem, hstem, hshape⟩ | ⟨-, hshape⟩
      · rw [hshape]
        refine ⟨by simp, fun d hd => ?_⟩
        rcases List.mem_append.1 hd with hd | hd
        · exact hstem d hd
        · have hending : ∀ d ∈ ['e', 's'], isLetter d = true := List.all_eq_true.1 (by decide)
          exact hending d hd
      · rw [hshape]
        exact ⟨by simp, hs⟩
  · rw [pluralOf_of_short (Nat.lt_of_not_le hlong)]
    exact ⟨by simp, hs⟩

/-- Regular plurals that are not left alone: `is`, `us` and `ss` are no endings of plurals, and two
nouns in `es` are listed as their own plurals, but in small letters or with a capital only. -/
def Relapses (forms : BaseForms) (noun : List Char) : Prop :=
  irregularPlural? (String.ofList (lowerText noun)) = none ∧
    (noun.getLast?.any (fun c => c ∈ bareLetters) = true ∧
        String.ofList (lowerText (pluralOf forms noun)) ∉ otherWords ∨
      String.ofList (lowerText (pluralOf forms noun)) ∈ ["series", "species"] ∧
        pluralOf forms (pluralOf forms noun) ≠ pluralOf forms noun)

theorem lowerText_append_s (word : List Char) : lowerText (word ++ ['s']) = lowerText word ++ ['s'] :=
  lowerText_append word ['s']

/-- A plural in `ss`, `us` or `is` is taken for a noun, and gets another ending. -/
theorem again_of_bare (hforms : forms.Documented) (hc : c ∈ bareLetters)
    (hregular : irregularPlural? (String.ofList (lowerText (front ++ [c]))) = none) :
    endsAsPlural (String.ofList (lowerText (pluralOf forms (front ++ [c])))) = false ∧
      isPluralForm (pluralOf forms (front ++ [c])) = false ∧
        pluralOf forms (pluralOf forms (front ++ [c])) ≠ pluralOf forms (front ++ [c]) := by
  rw [pluralOf_of_bare hforms hc hregular]
  have hs : (String.ofList (lowerText (front ++ [c] ++ ['s']))).endsWith "s" = true := by
    rw [lowerText_append_s, endsWith_ofList_iff]
    exact List.suffix_append _ ['s']
  have hends : endsAsPlural (String.ofList (lowerText (front ++ [c] ++ ['s']))) = false := by
    obtain ⟨d, hlower, hd⟩ := lowerChar_of_bare hc
    rw [lowerText_append_s, endsAsPlural_concat, getLast?_lowerText, hlower]
    rcases hd with rfl | rfl | rfl <;> rfl
  refine ⟨hends, ?_, fun hsame => ?_⟩
  · rw [isPluralForm_eq]
    split_ifs with hnoun hform
    · rfl
    · obtain ⟨entry, hentry, heq⟩ := List.any_eq_true.1 hform
      have hword := irregularsAgree.forms_in_s entry hentry
      rw [beq_iff_eq.1 heq, hends] at hword
      exact Bool.false_ne_true (hword hs)
    · exact hends
  · cases hlookup : irregularPlural? (String.ofList (lowerText (front ++ [c] ++ ['s']))) with
    | some form =>
      have hlower := lowerText_inCaseOf (front ++ [c] ++ ['s']) (irregular_form hlookup).2.1
      rw [← pluralOf_of_irregular hlookup, hsame] at hlower
      rcases irregularsAgree.nouns_in_s _ (mem_irregulars hlookup) hs with hplural | hne
      · rw [hends] at hplural
        cases hplural
      · exact hne (by rw [hlower, String.ofList_toList])
    | none =>
      rw [pluralOf_append_s hforms (by simp) hlookup] at hsame
      simp at hsame

theorem endsAsPlural_of_not_bare (hforms : forms.Documented)
    (hletters : ∀ d ∈ front ++ [c], isLetter d = true)
    (hc : c ∉ bareLetters)
    (hregular : irregularPlural? (String.ofList (lowerText (front ++ [c]))) = none)
    (hsingular : isPluralForm (front ++ [c]) = false) :
    endsAsPlural (String.ofList (lowerText (pluralOf forms (front ++ [c])))) = true := by
  rcases regular_shape hforms hletters hregular hsingular with ⟨stem, -, hshape⟩ | ⟨hs, hshape⟩
  · rw [hshape]
    exact endsAsPlural_of_es stem
  · rw [hshape, lowerText_append_s, endsAsPlural_concat, getLast?_lowerText, Bool.not_eq_true',
      Bool.eq_false_iff]
    intro hany
    obtain ⟨d, hlast, hd⟩ := (Option.any_eq_true _ _).1 hany
    exact (bare_of_lowerChar hlast (by simpa using hd)).elim hs hc

/-- Which plurals a second pass changes. -/
theorem relapses_iff (hforms : forms.Documented) (hne : noun ≠ [])
    (hletters : ∀ d ∈ noun, isLetter d = true) (hsingular : isPluralForm noun = false) :
    Relapses forms noun ↔
      String.ofList (lowerText (pluralOf forms noun)) ∉ otherWords ∧
        isPluralForm (pluralOf forms noun) = false ∧
          pluralOf forms (pluralOf forms noun) ≠ pluralOf forms noun := by
  obtain ⟨front, c, rfl⟩ : ∃ front c, noun = front ++ [c] :=
    ⟨_, _, (List.dropLast_append_getLast hne).symm⟩
  cases hlookup : irregularPlural? (String.ofList (lowerText (front ++ [c]))) with
  | some form =>
    refine iff_of_false (fun h => ?_) fun h => ?_
    · rw [h.1] at hlookup
      cases hlookup
    · rcases again_of_irregular hlookup with hplural | hsame
      · rw [h.2.1] at hplural
        cases hplural
      · exact h.2.2 hsame
  | none =>
    by_cases hc : c ∈ bareLetters
    · obtain ⟨hends, hform, hne⟩ := again_of_bare hforms hc hlookup
      refine ⟨fun h => ?_, fun h => ⟨hlookup, .inl ⟨by simpa using hc, h.1⟩⟩⟩
      rcases h.2 with ⟨-, hother⟩ | ⟨hword, -⟩
      · exact ⟨hother, hform, hne⟩
      · rw [(irregularsAgree.series_species _ hword).2.1] at hends
        cases hends
    · have hends := endsAsPlural_of_not_bare hforms hletters hc hlookup hsingular
      refine ⟨fun h => ?_, fun ⟨hother, hform, hne⟩ => ⟨hlookup, .inr ⟨?_, hne⟩⟩⟩
      · rcases h.2 with ⟨hbare, -⟩ | ⟨hword, hne⟩
        · exact (hc (by simpa using hbare)).elim
        · obtain ⟨hother, -, hnoun⟩ := irregularsAgree.series_species _ hword
          exact ⟨hother, by rw [isPluralForm_eq, if_pos hnoun], hne⟩
      · rw [isPluralForm_eq] at hform
        split_ifs at hform with hnoun
        · obtain ⟨form, hform⟩ := Option.isSome_iff_exists.1 hnoun
          exact irregularsAgree.plural_nouns _ (mem_irregulars hform) hends
        · rw [hends] at hform
          cases hform

end TextGrammar.English
