import TextGrammar.Proofs.Number.Totals
import TextGrammar.Proofs.Random
import TextGrammar.Proofs.Rule.Texts
import TextGrammar.Proofs.Rule.Weights

/-! What a rule can be relied on for in its course: its lists are filled and belong together. -/
namespace TextGrammar

/-- The lists of a rule as its definition lets them through and its draws leave them. -/
def Rule.WellFormed : Rule → Prop
  | .function _ | .range _ | .static _ => True
  | .conditional rule =>
    rule.branches ≠ [] ∧ (∀ branch ∈ rule.branches, branch.values ≠ []) ∧
      (rule.branches.filter Branch.isOtherwise).length ≤ 1
  | .sequential rule => rule.values ≠ [] ∧ rule.index ≤ rule.values.length
  | .template rule =>
    ∀ name ∈ rule.openNames, ∃ values, rule.values? name = some values ∧ values ≠ []
  | .weighted rule =>
    rule.values ≠ [] ∧ rule.weights.length = rule.values.length ∧
      rule.bounds.length = rule.values.length ∧
      (∀ weight ∈ rule.weights, (0 : Double).le weight = true) ∧
      rule.bounds.IsChain fun bound next => bound.le next = true

theorem length_totalsFrom (start : Double) (weights : List Double) :
    (totalsFrom start weights).length = weights.length := by
  induction weights generalizing start with
  | nil => rfl
  | cons weight rest ih => rw [totalsFrom, List.length_cons, ih, List.length_cons]

/-- Running totals of weights that are not negative run upwards. -/
theorem isChain_totalsFrom {start : Double} (hstart : start.IsMagnitude) {weights : List Double}
    (hweights : ∀ weight ∈ weights, weight.isFinite = true ∧ 0 ≤ weight.toRat) :
    (start :: totalsFrom start weights).IsChain fun bound next => bound.le next = true := by
  induction weights generalizing start with
  | nil => exact List.isChain_singleton start
  | cons weight rest ih =>
    obtain ⟨⟨hfinite, hnonneg⟩, hrest⟩ := List.forall_mem_cons.1 hweights
    obtain ⟨hmagnitude, hle⟩ := hstart.le_add hfinite hnonneg
    exact List.isChain_cons_cons.2 ⟨hle, ih hmagnitude hrest⟩

theorem Rule.Weighted.wellFormed_of_define {values weights : Datum} {rule : Rule.Weighted}
    (h : Rule.Weighted.define values weights = .ok rule) : (Rule.weighted rule).WellFormed := by
  obtain ⟨hvalues, hlength, hnonneg, -⟩ := Rule.Weighted.accepted_of_define h
  have hfinite := Rule.Weighted.hasFiniteWeights_of_define h
  have hweights : ∀ weight ∈ rule.weights, weight.isFinite = true ∧ 0 ≤ weight.toRat := by
    intro weight hweight
    exact ⟨hfinite weight hweight, (hnonneg weight hweight).1⟩
  have hzero : (0 : Double).IsMagnitude := Double.isMagnitude_ofScaled 0 0
  refine ⟨hvalues, hlength.symm, ?_, ?_, ?_⟩
  · rw [rule.bounds_eq, length_totalsFrom, hlength]
  · intro weight hweight
    obtain ⟨hf, hw⟩ := hweights weight hweight
    refine (Double.le_iff_toRat_le rfl hf).2 ?_
    have hvalue : (0 : Double).toRat = 0 := @Double.toRat_ofScaled_zero false 0
    rwa [hvalue]
  · rw [rule.bounds_eq]
    exact (isChain_totalsFrom hzero hweights).tail

theorem Rule.Conditional.wellFormed_of_define {branches : Datum} {rule : Rule.Conditional}
    (h : Rule.Conditional.define branches = .ok rule) : (Rule.conditional rule).WellFormed :=
  Rule.Conditional.accepted_of_define h

theorem Rule.Sequential.wellFormed_of_define {values cycle : Datum} {rule : Rule.Sequential}
    (h : Rule.Sequential.define values cycle = .ok rule) : (Rule.sequential rule).WellFormed :=
  Rule.Sequential.accepted_of_define h

theorem Rule.Template.wellFormed_of_define {template choices : Datum} {rule : Rule.Template}
    (h : Rule.Template.define template choices = .ok rule) : (Rule.template rule).WellFormed :=
  (Rule.Template.accepted_of_define h).2

theorem Rule.wellFormed_draw {rule : Rule} (name : String) (scope : Scope) (source : Source)
    (h : rule.WellFormed) : (rule.draw name scope source).2.1.WellFormed := by
  refine Rule.preserved_draw (fun _ => trivial) ?_ name scope source h
  intro rule source hrule
  exact Rule.Sequential.accepted_draw source hrule

theorem Rule.wellFormed_reset {rule : Rule.Sequential} (h : (Rule.sequential rule).WellFormed) :
    (Rule.sequential rule.reset).WellFormed :=
  ⟨h.1, Nat.zero_le _⟩

/-- A place outside of a list, nothing to choose from, or lists that do not belong together. -/
def Failure.isListFault : Failure → Bool
  | .noIndex | .value .nothingToChoose | .value .lengthsDiffer => true
  | _ => false

/-- What a draw fails with on account of a generator or of the tests of branches. -/
def Rule.Raises (name : String) (scope : Scope) : Rule → Failure → Prop
  | .function _, failure => ∃ message, failure = .generator name message
  | .conditional rule, failure =>
    failure = .noBranch name ∨
      ∃ test values, .given test values ∈ rule.branches ∧ test scope = .error failure
  | _, _ => False

theorem selectBranch_eq_error {name : String} {scope : Scope} {fallback : Option (List String)}
    {branches : List Branch} {failure : Failure}
    (h : selectBranch name scope fallback branches = .error failure) :
    failure = .noBranch name ∨
      ∃ test values, .given test values ∈ branches ∧ test scope = .error failure := by
  have hlater {branch : Branch} {rest : List Branch}
      (h : failure = .noBranch name ∨
        ∃ test values, .given test values ∈ rest ∧ test scope = .error failure) :
      failure = .noBranch name ∨
        ∃ test values, .given test values ∈ branch :: rest ∧ test scope = .error failure := by
    rcases h with hnone | ⟨test, values, hmem, hfailure⟩
    · exact .inl hnone
    · exact .inr ⟨test, values, List.mem_cons_of_mem _ hmem, hfailure⟩
  fun_induction selectBranch name scope fallback branches with
  | case1 => cases h
  | case2 => exact .inl (Except.error.inj h).symm
  | case3 _ listed rest ih => exact hlater (ih h)
  | case4 fallback test values rest raised hraised =>
    cases h
    exact .inr ⟨test, values, List.mem_cons_self, hraised⟩
  | case5 => cases h
  | case6 _ _ _ _ _ ih => exact hlater (ih h)

theorem Rule.Template.fill_eq_error {rule : Rule.Template} {names : List String} {text : String}
    {source : Source} {failure : Failure} (h : (rule.fill names text source).1 = .error failure) :
    failure = .value .nothingToChoose ∧ (∃ name ∈ names, (rule.values? name).getD [] = []) ∨
      ∃ fault, failure = .number fault := by
  induction names generalizing text source with
  | nil => cases h
  | cons name rest ih =>
    simp only [fill] at h
    split at h
    · rename_i raised after hchoose
      cases h
      rcases Source.choose_eq_error (congrArg Prod.fst hchoose) with ⟨hnone, hfault⟩ | hnumber
      · exact .inl ⟨hfault, name, List.mem_cons_self, hnone⟩
      · exact .inr hnumber
    · rcases ih h with ⟨hfault, other, hmem, hnone⟩ | hnumber
      · exact .inl ⟨hfault, other, List.mem_cons_of_mem _ hmem, hnone⟩
      · exact .inr hnumber

theorem Rule.Sequential.draw_eq_error {rule : Rule.Sequential} {source : Source} {failure : Failure}
    (h : (rule.draw source).1 = .error failure) : rule.values = [] ∧ failure = .noIndex := by
  simp only [draw] at h
  split at h
  · split at h
    · cases h
    · rename_i hnone
      cases h
      exact ⟨List.getLast?_eq_none_iff.1 hnone, rfl⟩
  · split at h
    · cases h
    · rename_i hnone
      cases h
      refine ⟨?_, rfl⟩
      have hlength := List.getElem?_eq_none_iff.1 hnone
      split at hlength
      · omega
      · exact List.length_eq_zero_iff.1 (Nat.le_zero.1 hlength)

theorem Rule.Function.draw_eq_error {rule : Rule.Function} {name : String} {scope : Scope}
    {source : Source} {failure : Failure} (h : (rule.draw name source).1 = .error failure) :
    (∃ fault, failure = .number fault) ∨ (Rule.function rule).Raises name scope failure := by
  simp only [draw] at h
  split at h
  · rename_i message _
    exact .inr ⟨message, (Except.error.inj h).symm⟩
  · exact .inr ⟨_, (Except.error.inj h).symm⟩
  · split at h
    · cases h
    · rename_i hvalues
      rcases Source.choose_eq_error (map_eq_error.1 h) with ⟨rfl, -⟩ | hnumber
      · exact absurd rfl hvalues
      · exact .inl hnumber

/-- There is nothing to choose from only where a branch has no values. -/
theorem Rule.Conditional.draw_eq_error {rule : Rule.Conditional} {name : String} {scope : Scope}
    {source : Source} {failure : Failure} (h : (rule.draw name scope source).1 = .error failure) :
    (∃ branch ∈ rule.branches, branch.values = []) ∧ failure = .value .nothingToChoose ∨
      (∃ fault, failure = .number fault) ∨ (Rule.conditional rule).Raises name scope failure := by
  simp only [draw] at h
  split at h
  · rename_i raised hbranch
    cases h
    exact .inr (.inr (selectBranch_eq_error hbranch))
  · rename_i values hbranch
    rcases Source.choose_eq_error (map_eq_error.1 h) with ⟨rfl, rfl⟩ | hnumber
    · rcases mem_of_selectBranch hbranch with hnone | hlisted
      · cases hnone
      · exact .inl ⟨hlisted, rfl⟩
    · exact .inr (.inl hnumber)

/-- Unless callbacks or numbers out of range are to blame, a draw that fails is one from a rule
whose lists are not what they should be. -/
theorem Rule.draw_eq_error {rule : Rule} {name : String} {scope : Scope} {source : Source}
    {failure : Failure} (h : (rule.draw name scope source).1 = .error failure) :
    ¬ rule.WellFormed ∧ failure.isListFault = true ∨ (∃ fault, failure = .number fault) ∨
      rule.Raises name scope failure := by
  cases rule with
  | function rule => exact .inr (Rule.Function.draw_eq_error h)
  | conditional rule =>
    refine (Rule.Conditional.draw_eq_error h).imp_left ?_
    rintro ⟨⟨branch, hmem, hvalues⟩, rfl⟩
    exact ⟨fun hformed => hformed.2.1 branch hmem hvalues, rfl⟩
  | sequential rule =>
    obtain ⟨hnone, rfl⟩ := Rule.Sequential.draw_eq_error h
    exact .inl ⟨fun hformed => hformed.1 hnone, rfl⟩
  | range rule =>
    obtain ⟨fault, -, rfl⟩ := mapError_eq_error.1 h
    exact .inr (.inl ⟨fault, rfl⟩)
  | template rule =>
    rcases Rule.Template.fill_eq_error (map_eq_error.1 h) with ⟨rfl, asked, hmem, hnone⟩ | hnumber
    · refine .inl ⟨fun hformed => ?_, rfl⟩
      obtain ⟨values, hvalues, hne⟩ := hformed asked hmem
      rw [hvalues] at hnone
      exact hne hnone
    · exact .inr (.inl hnumber)
  | weighted rule =>
    rcases Source.chooseWeighted_eq_error (map_eq_error.1 h) with ⟨hlength, rfl⟩ | ⟨hnone, rfl⟩
    · exact .inl ⟨fun hformed => hlength hformed.2.2.1.symm, rfl⟩
    · exact .inl ⟨fun hformed => hformed.1 hnone, rfl⟩
  | static rule =>
    simp only [draw, Rule.Static.draw, Draw.map] at h
    split at h
    · cases h
    · rename_i hvalues
      rcases Source.choose_eq_error (map_eq_error.1 h) with ⟨hnone, -⟩ | hnumber
      · exact absurd (List.isEmpty_iff.2 hnone) hvalues
      · exact .inr (.inl hnumber)

end TextGrammar
