import TextGrammar.Proofs.English.Punctuation

/-! Conditions as guards: a transform that would change a text is only run if they hold. -/
namespace TextGrammar

/-- On a text the condition decides, and where it does not hold there is nothing to change. -/
structure Modifier.IsGuarded (modifier : Modifier) : Prop where
  decides (text : String) (background : Background) :
    ∃ holds, modifier.condition (.text text) background = .ok holds
  stays {text : String} {background : Background} :
    modifier.condition (.text text) background = .ok false →
      modifier.transform (.text text) background = .ok (.text text)
  texts {text : String} {background : Background} {value : Value} :
    modifier.transform (.text text) background = .ok value → ∃ after, value = .text after

/-- The modifiers of a pipeline, run without a look at their conditions. -/
def Pipeline.applyAll (pipeline : Pipeline) (background : Background) (text : Value) :
    Except Failure Value :=
  pipeline.ordered.foldlM (fun text modifier => modifier.transform text background) text

section Guarded

variable {modifier : Modifier} {text : String} {background : Background}

theorem Modifier.IsGuarded.apply_eq_transform (h : modifier.IsGuarded) :
    modifier.apply background (.text text) = modifier.transform (.text text) background := by
  obtain ⟨holds, hcondition⟩ := h.decides text background
  rw [Modifier.apply, hcondition]
  cases holds with
  | false => exact (h.stays hcondition).symm
  | true => rfl

theorem foldlM_apply_eq_foldlM_transform {modifiers : List Modifier}
    (h : ∀ modifier ∈ modifiers, modifier.IsGuarded) :
    modifiers.foldlM (fun text modifier => modifier.apply background text) (.text text) =
      modifiers.foldlM (fun text modifier => modifier.transform text background) (.text text) := by
  induction modifiers generalizing text with
  | nil => rfl
  | cons modifier rest ih =>
    obtain ⟨hfirst, hrest⟩ := List.forall_mem_cons.1 h
    rw [List.foldlM_cons, List.foldlM_cons, hfirst.apply_eq_transform]
    cases hvalue : modifier.transform (.text text) background with
    | error failure => rfl
    | ok value =>
      obtain ⟨after, rfl⟩ := hfirst.texts hvalue
      exact ih hrest

end Guarded

namespace English

open Pattern

section TextModifier

variable {name : String} {priority : Nat} {condition : List Char → Bool}
  {transform : List Char → Except Failure (List Char)}

theorem transform_textModifier (text : String) (background : Background) :
    (textModifier name priority condition transform).transform (.text text) background =
      (transform text.toList).map fun after => .text (String.ofList after) := by
  change (do return .text (String.ofList (← transform text.toList)) : Except Failure Value) = _
  cases transform text.toList with
  | error failure => rfl
  | ok after => rfl

theorem isGuarded_textModifier (h : ∀ text, condition text = false → transform text = .ok text) :
    (textModifier name priority condition transform).IsGuarded where
  decides text _ := ⟨condition text.toList, rfl⟩
  stays {text _} hcondition := by
    have hnone : condition text.toList = false := Except.ok.inj hcondition
    rw [transform_textModifier, h _ hnone, Except.map, String.ofList_toList]
  texts {text _ value} htransform := by
    rw [transform_textModifier] at htransform
    cases hafter : transform text.toList with
    | error failure =>
      rw [hafter] at htransform
      cases htransform
    | ok after =>
      rw [hafter] at htransform
      exact ⟨_, (Except.ok.inj htransform).symm⟩

end TextModifier

theorem isGuarded_articles (forms : BaseForms) : (articles forms).IsGuarded :=
  isGuarded_textModifier fun _ h => congrArg Except.ok (substitute_eq_self h)

theorem isGuarded_capitalization : capitalization.IsGuarded :=
  isGuarded_textModifier fun _ h => congrArg Except.ok (substitute_eq_self h)

theorem overlongDigits?_eq_none {before : Option Char} {text : List Char}
    (h : ordinalPattern.occursAfter before text = false) : overlongDigits? before text = none := by
  induction text generalizing before with
  | nil => rfl
  | cons c text ih =>
    rw [occursAfter, Bool.or_eq_false_iff] at h
    have hlone : loneDigits before (c :: text) = [] := by
      by_contra hdigits
      simp [ordinalPattern, hdigits] at h
    rw [overlongDigits?, hlone, ih h.2]
    rfl

theorem isGuarded_ordinals : ordinals.IsGuarded := by
  refine isGuarded_textModifier fun text h => ?_
  rw [withOrdinals, overlongDigits?_eq_none h, substitute_eq_self h]

theorem overlongQuantifier?_eq_none {forms : BaseForms} {before : Option Char} {text : List Char}
    (h : (pluralPattern forms).occursAfter before text = false) :
    overlongQuantifier? before text = none := by
  induction text generalizing before with
  | nil => rfl
  | cons c text ih =>
    rw [occursAfter, Bool.or_eq_false_iff] at h
    have hnone : quantified? before (c :: text) = none := by
      cases hfound : quantified? before (c :: text) with
      | none => rfl
      | some parts =>
        simp only [pluralPattern, hfound] at h
        split at h <;> simp at h
    rw [overlongQuantifier?, hnone]
    exact ih h.2

theorem isGuarded_plurals (forms : BaseForms) : (plurals forms).IsGuarded := by
  refine isGuarded_textModifier fun text h => ?_
  rw [withPlurals, overlongQuantifier?_eq_none h, substitute_eq_self h]

theorem condition_possessives (text : String) (background : Background) :
    possessives.condition (.text text) background = .ok (occursIn ownerMarker text.toList) := by
  have hmarker : (String.ofList ownerMarker).toList = ownerMarker := String.toList_ofList
  rw [← hmarker]
  rfl

theorem isGuarded_possessives : possessives.IsGuarded where
  decides text background := ⟨_, condition_possessives text background⟩
  stays {text background} hcondition := by
    rw [condition_possessives] at hcondition
    have hpieces := pieces_of_not_occursIn (Except.ok.inj hcondition)
    have htransform : possessives.transform (.text text) background =
        .ok (.text (String.ofList (withPossessives text.toList))) := rfl
    rw [htransform, withPossessives, hpieces, joinPossessives, String.ofList_toList]
  texts htransform := ⟨_, (Except.ok.inj htransform).symm⟩

/-- Verbs are put right after some of the subjects that the condition looks for. -/
theorem verbPattern_implies {pronouns : List String} {wrong right : String} {subjects : String → Bool}
    (h : ∀ subject ∈ pronouns, subjects subject = true) :
    (verbPattern pronouns wrong right).Implies (disagreement wrong subjects) := by
  intro before text hfound
  rw [verbPattern] at hfound
  rw [disagreement]
  cases hsubject : subjectOf? wrong before text with
  | none =>
    rw [hsubject] at hfound
    cases hfound
  | some parts =>
    obtain ⟨word, subject, size⟩ := parts
    simp only [hsubject] at hfound ⊢
    split at hfound
    · rename_i hpronoun
      rw [if_pos (h subject hpronoun)]
      rfl
    · cases hfound

theorem withAgreement_eq_self {text : List Char} (h : hasDisagreement text = false) :
    withAgreement text = text := by
  rw [hasDisagreement, Bool.or_eq_false_iff] at h
  have hsingular : (verbPattern singularPronouns "are" "is").Implies singularWithAre :=
    verbPattern_implies fun subject hsubject => by simp [hsubject]
  have hplural : (verbPattern pluralPronouns "is" "are").Implies pluralWithIs :=
    verbPattern_implies fun subject hsubject => by simp [hsubject]
  rw [withAgreement, substitute_eq_self (hsingular.occurs_eq_false h.1),
    substitute_eq_self (hplural.occurs_eq_false h.2)]

theorem isGuarded_agreement : agreement.IsGuarded :=
  isGuarded_textModifier fun _ h => congrArg Except.ok (withAgreement_eq_self h)

theorem condition_punctuation (text : String) (background : Background) :
    punctuation.condition (.text text) background = .ok (hasUntidyBlanks text.toList) :=
  rfl

/-- Without untidy blanks, what is left to do is to put spaces between stops and capitals. -/
theorem tidyBlanks_of_not_hasUntidyBlanks {text : List Char} (h : hasUntidyBlanks text = false) :
    tidyBlanks text = stopBeforeCapitalPattern.substitute text := by
  obtain ⟨hmarks, hblanks⟩ := Bool.or_eq_false_iff.1 h
  simp only [tidyBlanks]
  rw [substitute_eq_self hblanks, substitute_eq_self hmarks]

theorem stopBeforeCapital_eq_self_iff {text : List Char} :
    stopBeforeCapitalPattern.substitute text = text ↔ text.IsChain IsSpaced := by
  constructor
  · intro h
    have hspaced := isChain_isSpaced (scan_substitute fits_stopBeforeCapitalPattern text)
    rwa [h] at hspaced
  · exact fun h => substitute_eq_self (occurs_stopBeforeCapitalPattern h)

theorem transform_punctuation_of_condition {text : String} {background : Background}
    (h : punctuation.condition (.text text) background = .ok false) :
    punctuation.transform (.text text) background =
      .ok (.text (String.ofList (stopBeforeCapitalPattern.substitute text.toList))) := by
  rw [condition_punctuation, Except.ok.injEq] at h
  rw [transform_punctuation, tidyBlanks_of_not_hasUntidyBlanks h]

theorem transform_punctuation_eq_self_iff {text : String} {background : Background}
    (h : punctuation.condition (.text text) background = .ok false) :
    punctuation.transform (.text text) background = .ok (.text text) ↔
      text.toList.IsChain IsSpaced := by
  rw [transform_punctuation_of_condition h, ← stopBeforeCapital_eq_self_iff, Except.ok.injEq,
    Data.text.injEq, ← String.toList_inj, String.toList_ofList]

theorem eq_punctuation_or_isGuarded {forms : BaseForms} {modifier : Modifier}
    (h : modifier ∈ allModifiers forms) :
    modifier = punctuation ∨ modifier.IsGuarded := by
  simp only [allModifiers, List.mem_cons, List.not_mem_nil, or_false] at h
  rcases h with rfl | rfl | rfl | rfl | rfl | rfl | rfl
  · exact .inr (isGuarded_articles forms)
  · exact .inr (isGuarded_plurals forms)
  · exact .inr isGuarded_ordinals
  · exact .inr isGuarded_capitalization
  · exact .inr isGuarded_possessives
  · exact .inr isGuarded_agreement
  · exact .inl rfl

/-- A text for which a condition does not hold is one that its transform leaves as it is, but that the
transform for punctuation still puts a space between a stop and a capital right after it. A pipeline
of the other modifiers comes to the same without the conditions. -/
theorem conditions_guard (forms : BaseForms) (text : String) (background : Background) :
    (∀ modifier ∈ allModifiers forms, modifier.condition (.text text) background = .ok false →
      (modifier.transform (.text text) background = .ok (.text text) ↔
        (modifier = punctuation → text.toList.IsChain IsSpaced))) ∧
    (punctuation.condition (.text text) background = .ok false →
      punctuation.transform (.text text) background =
        .ok (.text (String.ofList (stopBeforeCapitalPattern.substitute text.toList)))) ∧
    ∀ pipeline : Pipeline,
      (∀ modifier ∈ pipeline.ordered, modifier ∈ allModifiers forms ∧ modifier ≠ punctuation) →
        pipeline.applyAll background (.text text) = pipeline.apply background (.text text) := by
  refine ⟨fun modifier hmem hcondition => ?_, transform_punctuation_of_condition,
    fun pipeline hall => ?_⟩
  · rcases eq_punctuation_or_isGuarded hmem with rfl | hguarded
    · rw [transform_punctuation_eq_self_iff hcondition]
      exact ⟨fun h _ => h, fun h => h rfl⟩
    · refine iff_of_true (hguarded.stays hcondition) ?_
      rintro rfl
      exact (transform_punctuation_eq_self_iff hcondition).1 (hguarded.stays hcondition)
  · have hguarded (modifier : Modifier) (hmem : modifier ∈ pipeline.ordered) : modifier.IsGuarded :=
      (eq_punctuation_or_isGuarded (hall modifier hmem).1).resolve_left (hall modifier hmem).2
    exact (foldlM_apply_eq_foldlM_transform hguarded).symm

def writingPipeline : Pipeline := Pipeline.addAll ∅ [articles baseEnglish, capitalization]

theorem ordered_writingPipeline : writingPipeline.ordered = [articles baseEnglish, capitalization] := by
  have hsorted : (!(articles baseEnglish).priority.lt capitalization.priority) = true := rfl
  exact List.mergeSort_of_pairwise (List.pairwise_pair.2 hsorted)

theorem conditions_guard_hiThere :
    agreement.condition (.text "Hi.There") {} = .ok false ∧
    agreement.transform (.text "Hi.There") {} = .ok (.text "Hi.There") ∧
    punctuation.condition (.text "Hi.There") {} = .ok false ∧
    punctuation.transform (.text "Hi.There") {} =
      .ok (.text (String.ofList (stopBeforeCapitalPattern.substitute "Hi.There".toList))) ∧
    (∀ modifier ∈ writingPipeline.ordered,
      modifier ∈ allModifiers baseEnglish ∧ modifier ≠ punctuation) ∧
    writingPipeline.applyAll {} (.text "Hi.There") =
      writingPipeline.apply {} (.text "Hi.There") := by
  obtain ⟨hstays, hpunctuation, hpipeline⟩ := conditions_guard baseEnglish "Hi.There" {}
  have hne {modifier : Modifier} (h : modifier.name ≠ punctuation.name) : modifier ≠ punctuation :=
    fun heq => h (congrArg Modifier.name heq)
  have hagreement : agreement.condition (.text "Hi.There") {} = .ok false := rfl
  have hstill : punctuation.condition (.text "Hi.There") {} = .ok false := rfl
  have hall : ∀ modifier ∈ writingPipeline.ordered,
      modifier ∈ allModifiers baseEnglish ∧ modifier ≠ punctuation := by
    rw [ordered_writingPipeline, List.forall_mem_cons, List.forall_mem_singleton]
    exact ⟨⟨by simp [allModifiers], hne (by decide)⟩, ⟨by simp [allModifiers], hne (by decide)⟩⟩
  have hunchanged := (hstays agreement (by simp [allModifiers]) hagreement).2 fun heq =>
    absurd heq (hne (by decide))
  exact ⟨hagreement, hunchanged, hstill, hpunctuation hstill, hall, hpipeline writingPipeline hall⟩

/-- The condition for punctuation misses a stop right before a capital, where its transform would put
a space. -/
theorem punctuation_unguarded :
    punctuation ∈ allModifiers baseEnglish ∧
    punctuation.condition (.text "Hi.There") {} = .ok false ∧
    punctuation.transform (.text "Hi.There") {} = .ok (.text "Hi. There") ∧
    punctuation.transform (.text "Hi.There") {} ≠ .ok (.text "Hi.There") ∧
    (Pipeline.addAll ∅ [punctuation]).apply {} (.text "Hi.There") = .ok (.text "Hi.There") ∧
    (Pipeline.addAll ∅ [punctuation]).applyAll {} (.text "Hi.There") = .ok (.text "Hi. There") := by
  have hordered : (Pipeline.addAll ∅ [punctuation]).ordered = [punctuation] :=
    List.mergeSort_singleton punctuation
  refine ⟨by simp [allModifiers], rfl, rfl, ?_, ?_, ?_⟩
  · intro h
    have hsame : "Hi. There" = "Hi.There" := Data.text.inj (Except.ok.inj h)
    exact absurd hsame (by decide)
  · rw [Pipeline.apply, hordered]
    rfl
  · rw [Pipeline.applyAll, hordered]
    rfl

end English

end TextGrammar
