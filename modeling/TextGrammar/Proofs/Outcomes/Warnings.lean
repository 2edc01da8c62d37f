import TextGrammar.Proofs.Outcomes.Bound
import TextGrammar.Proofs.Store.WellFormed
import TextGrammar.Proofs.Token.Matches

/-! What the warnings of a finite count tell of the rules and circles that a name leads to. -/
namespace TextGrammar

namespace Count

end Count

namespace Complexity

/-- What the rule under a name warns of when it is counted below a path of names. -/
inductive Warns (store : Store) : List String → String → Warning → Prop
  | circular {path : List String} {name other : String}
      (hrefers : store.Refers Rule.texts name other) (hmem : other ∈ path) :
      Warns store path name (.circular other)
  | missing {path : List String} {name other : String}
      (hrefers : store.Refers Rule.texts name other) (hnone : store.rule? other = none) :
      Warns store path name (.missing other name)
  | beneath {path : List String} {name other : String} {warning : Warning}
      (hrefers : store.Refers Rule.texts name other) (hnew : other ∉ path)
      (hwarns : Warns store (other :: path) other warning) : Warns store path name warning

section Warns

variable {store : Store} {path : List String} {name other start : String} {room : ℕ}
  {warning : Warning}

/-- Only names that are missing and circles are warned of. -/
theorem Warns.cases_warning (h : Warns store path name warning) :
    (∃ other, warning = .circular other) ∨ ∃ other owner, warning = .missing other owner := by
  induction h with
  | circular => exact .inl ⟨_, rfl⟩
  | missing => exact .inr ⟨_, _, rfl⟩
  | beneath _ _ _ ih => exact ih

end Warns

end Complexity

namespace Complexity

section Warns

variable {store : Store} {room : ℕ} {name : String}

theorem isPath_singleton (hname : store.hasName name = true) (hroom : store.names.length ≤ room) :
    store.IsPath room [name] :=
  (Store.isPath_nil (by omega)).cons List.not_mem_nil hname

end Warns

/-- If the count is finite, it comes with exactly these warnings. -/
def Gathers (tallied : Except NumberFault Tally) (warns : Warning → Prop) : Prop :=
  ∀ tally, tallied = .ok tally → tally.count.isFinite = true →
    ∀ warning, warning ∈ tally.warnings ↔ warns warning

section Gathers

variable {setting : Setting} {counter : Option RuleCounter} {follow : RuleCounter}
  {path : List String} {owner name : String} {warns : String → Warning → Prop}

theorem Gathers.checked {tallied : Except NumberFault Tally} {warns : Warning → Prop}
    (h : Gathers tallied warns) :
    Gathers (do let tally ← tallied; tally.count.check; return tally) warns :=
  fun tally ht => h tally (eq_ok_of_checked ht)

end Gathers

section Texts

variable {name owner : String} {start first rest : List Char} {n : ℕ} {warning : Warning}

theorem toList_message_missing (name owner : String) : (Warning.missing name owner).message.toList =
    "Missing rule '".toList ++ (name.toList ++
      '\'' :: (" referenced in '".toList ++ (owner.toList ++ "'".toList))) := by
  have hmessage : (Warning.missing name owner).message =
      "Missing rule '" ++ name ++ "' referenced in '" ++ owner ++ "'" := rfl
  have hquote : "' referenced in '".toList = '\'' :: " referenced in '".toList := by decide
  rw [hmessage]
  simp only [String.toList_append, List.append_assoc, hquote, List.cons_append]

theorem toList_message_circular (name : String) : (Warning.circular name).message.toList =
    "Circular reference detected for rule '".toList ++ (name.toList ++ "'".toList) := by
  have hmessage : (Warning.circular name).message =
      "Circular reference detected for rule '" ++ name ++ "'" := rfl
  rw [hmessage]
  simp only [String.toList_append, List.append_assoc]

theorem not_prefix_append (hne : start[n]? ≠ first[n]?) (hstart : n < start.length)
    (hfirst : n < first.length) : ¬ start <+: first ++ rest := by
  rintro ⟨others, heq⟩
  have hnth := congrArg (·[n]?) heq
  simp only [List.getElem?_append_left hstart, List.getElem?_append_left hfirst] at hnth
  exact hne hnth

theorem Warns.not_prefix_depth {store : Store} {path : List String}
    (h : Warns store path name warning) : ¬ "Maximum depth".toList <+: warning.message.toList := by
  rcases h.cases_warning with ⟨other, rfl⟩ | ⟨other, owner, rfl⟩
  · rw [toList_message_circular]
    exact not_prefix_append (n := 0) (by decide) (by decide) (by decide)
  · rw [toList_message_missing]
    exact not_prefix_append (n := 1) (by decide) (by decide) (by decide)

end Texts

end Complexity

/-- Two rules that ask for each other, one of them also for a name without a rule. -/
def tangledStore : Store := ⟨[
  { name := "a", rule := .static { values := ["%b%", "x"] } },
  { name := "b", rule := .static { values := ["%a%", "%ghost%"] } }]⟩

def tangledSetting : Complexity.Setting := ⟨tangledStore, 3, false⟩

end TextGrammar
