import Mathlib.Algebra.BigOperators.Ring.List
import TextGrammar.Proofs.Rule.Filling
import TextGrammar.Proofs.Store.WellFormed
import TextGrammar.Proofs.Token.Reading

/-! What is picked for the names of a template, and what the filled template asks for. -/
namespace TextGrammar

section Products

variable {picks : List (String × String)} {names : List String} {name value : String}

theorem sum_flatMap {β : Type} {items : List β} {lists : β → List ℕ} :
    (items.flatMap lists).sum = (items.map fun item => (lists item).sum).sum := by
  rw [List.flatMap_def, List.sum_flatten, List.map_map]
  rfl

theorem prod_map_ite_eq_pow {ways : ℕ} :
    (names.map fun other => if other = name then ways else 1).prod = ways ^ names.count name := by
  induction names with
  | nil => rfl
  | cons other rest ih =>
    rw [List.map_cons, List.prod_cons, ih, List.count_cons]
    by_cases h : other = name
    · rw [if_pos h, if_pos (by simpa using h), Nat.pow_succ, Nat.mul_comm]
    · rw [if_neg h, if_neg (by simpa using h), Nat.one_mul, Nat.add_zero]

/-- What was picked for a name counts as often as the name occurs. -/
theorem prod_lookup_eq {ways : String → ℕ} (hnodup : (picks.map Prod.fst).Nodup) :
    (names.map fun name => ((picks.lookup name).map ways).getD 1).prod
      = (picks.map fun pick => ways pick.2 ^ names.count pick.1).prod := by
  induction picks with
  | nil => simp
  | cons pick rest ih =>
    obtain ⟨first, value⟩ := pick
    obtain ⟨hnew, hrest⟩ := List.nodup_cons.1 hnodup
    have hfirst : ∀ name, ((((first, value) :: rest).lookup name).map ways).getD 1
        = (if name = first then ways value else 1) * ((rest.lookup name).map ways).getD 1 := by
      intro name
      rw [List.lookup_cons]
      by_cases hname : name = first
      · subst hname
        have hnone : rest.lookup name = none := List.lookup_eq_none_iff.2 fun other hother => by
          refine bne_iff_ne.2 fun he => hnew ?_
          exact List.mem_map.2 ⟨other, hother, he.symm⟩
        rw [hnone, if_pos rfl]
        simp
      · rw [if_neg hname, beq_eq_false_iff_ne.2 hname, Nat.one_mul]
    simp only [hfirst]
    rw [List.prod_map_mul, prod_map_ite_eq_pow, ih hrest, List.map_cons, List.prod_cons]

theorem mem_of_lookup (h : picks.lookup name = some value) : (name, value) ∈ picks := by
  obtain ⟨before, after, rfl, -⟩ := List.lookup_eq_some_iff.1 h
  exact List.mem_append_right _ List.mem_cons_self

end Products

namespace Segment

variable {picks : List (String × String)} {segments : List Segment}

theorem flatMap_names_substituted
    (hliteral : ∀ part, literal part ∈ segments → '%' ∉ part.toList)
    (htoken : ∀ name, token name ∈ segments → IsName name.toList) :
    segments.flatMap (fun segment => Segment.names (segment.substituted picks))
      = (segments.filterMap tokenName?).flatMap fun name =>
        ((picks.lookup name).map Segment.names).getD [name] := by
  induction segments with
  | nil => rfl
  | cons segment rest ih =>
    have hrest := ih (fun part hpart => hliteral part (List.mem_cons_of_mem _ hpart))
      fun name hname => htoken name (List.mem_cons_of_mem _ hname)
    rw [List.flatMap_cons, hrest]
    cases segment with
    | literal part =>
      have hnone := names_of_notMem (hliteral part List.mem_cons_self)
      exact congrArg (· ++ _) hnone
    | token name =>
      have hnamed : Segment.names ((picks.lookup name).getD (tokenText name))
          = ((picks.lookup name).map Segment.names).getD [name] := by
        cases picks.lookup name with
        | none => exact names_tokenText (htoken name List.mem_cons_self)
        | some value => rfl
      exact congrArg (· ++ _) hnamed

end Segment

namespace Rule.Template

open Segment

variable {template : Rule.Template} {picks : List (String × String)} {names : List String}

theorem nodup_openNames : template.openNames.Nodup :=
  (Store.nodup_eraseDups _).filter _

/-- Over all ways to pick a value for each name, the products of what the picks contribute add up to
the product of what the names do. -/
theorem sum_picks {part : String → String → ℕ} :
    ((template.picks names).map fun picks => (picks.map fun pick => part pick.1 pick.2).prod).sum
      = (names.map fun name => (((template.values? name).getD []).map (part name)).sum).prod := by
  induction names with
  | nil => rfl
  | cons name rest ih =>
    rw [List.map_cons, List.prod_cons, ← ih, ← List.sum_map_mul_right, picks, List.map_flatMap,
      sum_flatMap]
    congr 1
    refine List.map_congr_left fun value _ => ?_
    rw [List.map_map, ← List.sum_map_mul_left]
    rfl

/-- The tokens of a filled template are its own, with those of the picked values in place of the
open names. -/
def ReadsAsPicked (template : Rule.Template) : Prop :=
  ∀ picks ∈ template.picks template.openNames,
    Segment.names (fillAll picks template.template)
      = (Segment.names template.template).flatMap fun name =>
        ((picks.lookup name).map Segment.names).getD [name]

theorem mem_values_of_mem_picks (h : picks ∈ template.picks names) {pick : String × String}
    (hpick : pick ∈ picks) : pick.2 ∈ (template.values? pick.1).getD [] := by
  induction names generalizing picks with
  | nil =>
    rw [List.mem_singleton.1 h] at hpick
    cases hpick
  | cons name rest ih =>
    obtain ⟨value, hvalue, hlater⟩ := List.mem_flatMap.1 h
    obtain ⟨later, hmem, rfl⟩ := List.mem_map.1 hlater
    rcases List.mem_cons.1 hpick with rfl | hpick
    · exact hvalue
    · exact ih hmem hpick

/-- A template whose tokens are filled in place reads as picked, if each `%` in it and in the values
belongs to a token. -/
theorem readsAsPicked (htemplate : Paired template.template)
    (hvalues : ∀ name ∈ template.openNames, ∀ value ∈ (template.values? name).getD [], Paired value)
    (hplace : ∀ picks ∈ template.picks template.openNames,
      FillsInPlace picks (split template.template)) : template.ReadsAsPicked := by
  intro picks hpicks
  have hparts : ∀ text ∈ (split template.template).map (substituted picks), Paired text := by
    intro text htext
    obtain ⟨segment, hsegment, rfl⟩ := List.mem_map.1 htext
    cases segment with
    | literal part => exact paired_of_notMem (htemplate part hsegment)
    | token name =>
      change Paired ((picks.lookup name).getD (tokenText name))
      cases hpicked : picks.lookup name with
      | none => exact paired_tokenText (isName_of_mem_split hsegment)
      | some value =>
        have hpick := mem_of_lookup hpicked
        have hname : name ∈ template.openNames := mem_names_of_mem_picks hpicks hpick
        exact hvalues name hname value (mem_values_of_mem_picks hpicks hpick)
  have hjoin := fillAll_eq_join (hplace picks hpicks)
  rw [render_split] at hjoin
  rw [hjoin, names_join hparts, List.flatMap_map]
  exact flatMap_names_substituted htemplate fun _ => isName_of_mem_split

end Rule.Template

end TextGrammar
