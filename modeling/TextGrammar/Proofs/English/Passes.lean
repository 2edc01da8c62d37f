import TextGrammar.Proofs.English.Agreement
import TextGrammar.Proofs.English.Capitals
import TextGrammar.Proofs.English.Guards
import TextGrammar.Proofs.English.Ordinals
import TextGrammar.Proofs.English.Possessives

/-! Transforms that are done after one pass: what they leave holds nothing for them any more. -/
namespace TextGrammar

/-- The transform turns a text into one that is finished, and leaves that as it is. -/
def Modifier.Finishes (modifier : Modifier) (text : String) (finished : List Char → Prop) : Prop :=
  ∃ out, (∀ background, modifier.transform (.text text) background = .ok (.text out)) ∧
    finished out.toList ∧ ∀ background, modifier.transform (.text out) background = .ok (.text out)

namespace English

open Pattern

variable {name : String} {priority : Nat} {condition : List Char → Bool}
  {transform : List Char → Except Failure (List Char)} {finished : List Char → Prop}

theorem finishes_textModifier {text : String} {after : List Char}
    (hout : transform text.toList = .ok after) (hfinished : finished after) (hagain : transform after = .ok after) :
    (textModifier name priority condition transform).Finishes text finished := by
  refine ⟨String.ofList after, fun background => ?_, ?_, fun background => ?_⟩
  · rw [transform_textModifier, hout, Except.map]
  · rwa [String.toList_ofList]
  · rw [transform_textModifier, String.toList_ofList, hagain, Except.map]

/-- Where every number is short enough to be read, each gets its suffix and no other run changes. -/
theorem finishes_ordinals {text : String}
    (h : ∀ run ∈ runs text.toList, run.all isDigit = true → run.length ≤ maxNumeralDigits) :
    ordinals.Finishes text fun out => runs out = (runs text.toList).map withSuffix ∧
      ∀ run ∈ runs out, run.all isDigit = false := by
  have hruns := runs_map_withSuffix text.toList
  have hnone : ∀ run ∈ runs ((runs text.toList).map withSuffix).flatten, run.all isDigit = false := by
    rw [hruns, List.forall_mem_map]
    exact fun run _ => all_isDigit_withSuffix run
  exact finishes_textModifier (withOrdinals_eq h) ⟨hruns, hnone⟩ (withOrdinals_eq_self hnone)

theorem finishes_capitalization (text : String) :
    capitalization.Finishes text fun out => List.Forall₂ IsRaised text.toList out ∧
      IsCapitalized out := by
  have hscan := scan_substitute fits_sentenceStartPattern text.toList
  have hdone := isCapitalized_of_scan hscan
  exact finishes_textModifier rfl ⟨forall₂_isRaised hscan, hdone⟩
    (congrArg Except.ok (substitute_sentenceStartPattern hdone))

theorem transform_possessives (text : String) (background : Background) :
    possessives.transform (.text text) background =
      .ok (.text (String.ofList (withPossessives text.toList))) :=
  rfl

theorem finishes_possessives (text : String) :
    possessives.Finishes text fun out =>
      (pieces ownerMarker text.toList).flatten.Sublist out ∧ ¬ownerMarker <:+: out := by
  have hnone := not_isInfix_withPossessives text.toList
  refine ⟨String.ofList (withPossessives text.toList), transform_possessives text, ?_, fun _ => ?_⟩
  · rw [String.toList_ofList]
    exact ⟨flatten_sublist_joinPossessives _, hnone⟩
  · rw [transform_possessives, String.toList_ofList, withPossessives_eq_self hnone]

theorem finishes_agreement (text : String) :
    agreement.Finishes text fun out =>
      (runs out).map numberless = (runs text.toList).map numberless ∧
        ∀ subject verb, Neighbours out subject verb → ¬Disagree subject verb := by
  have hnone := avoids_withAgreement text.toList
  exact finishes_textModifier rfl
    ⟨map_numberless_withAgreement text.toList, PairRule.avoids_runs.1 hnone⟩
    (congrArg Except.ok (withAgreement_of_avoids hnone))

/-- One pass of each of four transforms does all that there is to do: every number that stands alone
gets its suffix if it is short enough to be read, no small letter is left after a stop and blanks, no
marker is left of which the pieces around it might make up another, and no pronoun is left before the
verb of the other number. Nothing else changes, and a second pass changes nothing. -/
theorem passes_finish (text : String) :
    ((∀ run ∈ runs text.toList, run.all isDigit = true → run.length ≤ maxNumeralDigits) →
      ordinals.Finishes text fun out => runs out = (runs text.toList).map withSuffix ∧
        ∀ run ∈ runs out, run.all isDigit = false) ∧
    (capitalization.Finishes text fun out => List.Forall₂ IsRaised text.toList out ∧
      IsCapitalized out) ∧
    (possessives.Finishes text fun out =>
      (pieces ownerMarker text.toList).flatten.Sublist out ∧ ¬ownerMarker <:+: out) ∧
    (agreement.Finishes text fun out =>
      (runs out).map numberless = (runs text.toList).map numberless ∧
        ∀ subject verb, Neighbours out subject verb → ¬Disagree subject verb) :=
  ⟨finishes_ordinals, finishes_capitalization text, finishes_possessives text,
    finishes_agreement text⟩

theorem passes_finish_twelve :
    (∀ run ∈ runs "the 12 of May. it are".toList,
      run.all isDigit = true → run.length ≤ maxNumeralDigits) ∧
    ordinals.Finishes "the 12 of May. it are" fun out =>
      runs out = (runs "the 12 of May. it are".toList).map withSuffix ∧
        ∀ run ∈ runs out, run.all isDigit = false := by
  have hshort : ∀ run ∈ runs "the 12 of May. it are".toList,
      run.all isDigit = true → run.length ≤ maxNumeralDigits := by decide
  exact ⟨hshort, (passes_finish "the 12 of May. it are").1 hshort⟩

end English

end TextGrammar
