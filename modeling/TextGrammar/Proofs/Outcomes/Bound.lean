import Mathlib.Data.Set.Card
import TextGrammar.Proofs.Expansion.Plan
import TextGrammar.Proofs.Outcomes.Tally

/-! The count of a rule bounds what its token can be expanded to: it is the number of plans. -/
namespace TextGrammar

namespace Complexity

variable {setting : Setting} {counter : Option RuleCounter} {nested : String → List Plan}
  {path : List String} {owner : String}

/-- A token that is counted as there are plans for it. -/
def CountsPlans (setting : Setting) (counter : Option RuleCounter) (path : List String)
    (owner : String) (nested : String → List Plan) (name : String) : Prop :=
  ∀ tally, tokenTally setting counter path owner name = .ok tally →
    tally.count = .finite (tokenPlans nested name).length

/-- A token counts once if it is replayed or not followed, and otherwise as its rule counts. -/
theorem countsPlans {name : String} (hnew : isReplay name = false → name ∉ path)
    (hone : counter = none ∨ setting.store.rule? name = none → (nested name).length = 1)
    (hrule : ∀ follow rule, counter = some follow → isReplay name = false →
      setting.store.rule? name = some rule → ∀ tally,
        follow (name :: path) name rule = .ok tally → tally.count = .finite (nested name).length) :
    CountsPlans setting counter path owner nested name := by
  intro tally ht
  cases hreplay : isReplay name with
  | true =>
    simp only [tokenTally, hreplay, if_true] at ht
    cases ht
    simp [tokenPlans, hreplay]
  | false =>
    simp only [tokenTally, hreplay, Bool.false_eq_true, if_false, if_neg (hnew hreplay)] at ht
    simp only [tokenPlans, hreplay, Bool.false_eq_true, if_false]
    split at ht
    · cases ht
      rw [hone (Or.inl rfl)]
    · rename_i hnone
      cases ht
      rw [hone (Or.inr hnone)]
    · rename_i follow rule hsome
      obtain ⟨first, hf, ht⟩ := bind_eq_ok.1 ht
      rw [← pure_eq_ok.1 ht]
      exact hrule follow rule rfl hreplay hsome first hf

theorem segmentsTally_eq_length {segments : List Segment}
    (h : ∀ name, .token name ∈ segments → CountsPlans setting counter path owner nested name)
    {tally : Tally} (ht : segmentsTally setting counter path owner segments = .ok tally) :
    tally.count = .finite (segmentsPlans nested segments).length := by
  induction segments generalizing tally with
  | nil =>
    cases ht
    rfl
  | cons segment rest ih =>
    have hrest {second : Tally} (hs : segmentsTally setting counter path owner rest = .ok second) :
        second.count = .finite (segmentsPlans nested rest).length :=
      ih (fun name hm => h name (List.mem_cons_of_mem _ hm)) hs
    cases segment with
    | literal text =>
      rw [length_segmentsPlans_literal]
      exact hrest ht
    | token name =>
      obtain ⟨first, hf, ht⟩ := bind_eq_ok.1 ht
      have hfirst := h name List.mem_cons_self first hf
      rw [length_segmentsPlans_token]
      rcases Tally.andThen_eq_ok ht with ⟨hc, -⟩ | ⟨second, hs, hc⟩
      · rw [hfirst] at hc
        cases hc
      · rw [hc, hfirst, hrest hs]
        rfl

theorem valuesTally_eq_length {name : String} {values : List String}
    (h : ∀ value ∈ values, ∀ other, .token other ∈ Segment.split value →
      CountsPlans setting counter path owner nested other)
    {tally : Tally} (ht : valuesTally setting counter path owner values = .ok tally) :
    tally.count = .finite (values.flatMap fun value =>
      (segmentsPlans nested (Segment.split value)).map (Plan.enter name value)).length := by
  induction values generalizing tally with
  | nil =>
    cases ht
    rfl
  | cons value rest ih =>
    obtain ⟨first, hf, ht⟩ := bind_eq_ok.1 ht
    obtain ⟨-, -, ht⟩ := bind_eq_ok.1 ht
    have hfirst := segmentsTally_eq_length (h value List.mem_cons_self) hf
    rw [List.flatMap_cons, List.length_append, List.length_map]
    rcases Tally.andThen_eq_ok ht with ⟨hc, -⟩ | ⟨second, hs, hc⟩
    · rw [hfirst] at hc
      cases hc
    · rw [hc, hfirst, ih (fun value hm => h value (List.mem_cons_of_mem _ hm)) hs]
      rfl

theorem rangeTally_eq_length {name : String} {rule : Rule.Range} (hs : rule.step.isSome)
    {tally : Tally} (ht : rangeTally setting owner rule = .ok tally) :
    tally.count = .finite (rulePlans nested name (.range rule)).length := by
  have hopen : ¬(rule.step.isNone && setting.openRangesInfinite) = true := by
    simp [Option.isSome_iff_ne_none.1 hs]
  simp only [rangeTally, if_neg hopen] at ht
  obtain ⟨count, hc, ht⟩ := bind_eq_ok.1 ht
  rw [← pure_eq_ok.1 ht, ← Rule.Range.length_texts hc]
  have hone : ∀ value ∈ rule.texts,
      ((segmentsPlans nested (Segment.split value)).map (Plan.enter name value)).length = 1 := by
    intro value hv
    rw [List.length_map, length_segmentsPlans_of_notMem (Rule.Range.percent_notMem_texts hv)]
  simp only [rulePlans, Rule.texts, List.length_flatMap]
  rw [List.map_congr_left hone]
  simp

theorem eq_ok_of_checked {tallied : Except NumberFault Tally} {tally : Tally}
    (h : (do let tally ← tallied; tally.count.check; return tally) = .ok tally) :
    tallied = .ok tally := by
  obtain ⟨first, hf, h⟩ := bind_eq_ok.1 h
  obtain ⟨-, -, h⟩ := bind_eq_ok.1 h
  rw [hf, pure_eq_ok.1 h]

theorem ruleTally_eq_length {name : String} {rule : Rule} (hl : rule.IsListed)
    (h : ∀ value ∈ rule.texts, ∀ other, .token other ∈ Segment.split value →
      CountsPlans setting counter path owner nested other)
    {tally : Tally} (ht : ruleTally setting counter path owner rule = .ok tally) :
    tally.count = .finite (rulePlans nested name rule).length := by
  cases rule with
  | function rule => exact hl.elim
  | template rule => exact hl.elim
  | range rule => exact rangeTally_eq_length hl (eq_ok_of_checked ht)
  | conditional rule => exact valuesTally_eq_length h (eq_ok_of_checked ht)
  | sequential rule => exact valuesTally_eq_length h (eq_ok_of_checked ht)
  | weighted rule => exact valuesTally_eq_length h (eq_ok_of_checked ht)
  | static rule => exact valuesTally_eq_length h (eq_ok_of_checked ht)

theorem not_mem_path {name other : String} (hc : setting.store.NoCircle Rule.texts name)
    (hp : ∀ first ∈ path, setting.store.Reaches Rule.texts first name)
    (h : setting.store.Refers Rule.texts name other) : other ∉ path := by
  intro hmem
  exact hc other (.single h) (Relation.TransGen.tail' (hp other hmem) h)

/-- Names that all lead to the present one are not met again, and what is not followed any deeper
has one plan. -/
theorem tallyWithin_eq_length {name : String} {rule : Rule}
    (hr : setting.store.rule? name = some rule)
    (hl : ∀ other rule, setting.store.Reaches Rule.texts name other →
      setting.store.rule? other = some rule → rule.IsListed)
    (hc : setting.store.NoCircle Rule.texts name) (room : ℕ)
    (hp : ∀ first ∈ path, setting.store.Reaches Rule.texts first name)
    {tally : Tally} (ht : tallyWithin setting room path owner rule = .ok tally) :
    tally.count = .finite (rulePlans (namePlans setting.store room) name rule).length := by
  induction room generalizing name rule path owner tally with
  | zero =>
    refine ruleTally_eq_length (hl name rule .refl hr) ?_ ht
    intro value hv other hm
    refine countsPlans ?_ (fun _ => rfl) fun _ _ he => nomatch he
    intro hreplay
    exact not_mem_path hc hp ⟨rule, hr, value, hv, hm, hreplay⟩
  | succ room ih =>
    refine ruleTally_eq_length (hl name rule .refl hr) ?_ ht
    intro value hv other hm
    refine countsPlans ?_ ?_ ?_
    · intro hreplay
      exact not_mem_path hc hp ⟨rule, hr, value, hv, hm, hreplay⟩
    · intro hnone
      rw [namePlans_of_none (hnone.resolve_left (by simp))]
      rfl
    · intro follow rule' hfollow hreplay hr' tally ht
      cases hfollow
      have hrefers : setting.store.Refers Rule.texts name other :=
        ⟨rule, hr, value, hv, hm, hreplay⟩
      rw [namePlans_of_some hr']
      refine ih hr' ?_ ?_ ?_ ht
      · intro last rule hlast
        exact hl last rule (hlast.head hrefers)
      · intro last hlast
        exact hc last (hlast.head hrefers)
      · intro first hfirst
        rcases List.mem_cons.1 hfirst with rfl | hfirst
        · exact .refl
        · exact (hp first hfirst).tail hrefers

end Complexity

/-- What the token of a name can be expanded to from a cleared context: under any limit, with any
room on the stack and any source, and with rules at any place in their sequences and under any tests. -/
def Store.expansions (store : Store) (name : String) : Set String :=
  { text | ∃ stackRoom limit engine, engine.store.outline = store.outline ∧
    (Engine.expand stackRoom limit false (Segment.tokenText name) engine).1 = .ok text }

theorem exists_plan_of_expand {store : Store} (ha : store.Accepted) {depth : ℕ} {name : String}
    (hne : name ≠ "") (hpercent : '%' ∉ name.toList) (hreplay : isReplay name = false)
    (hl : ∀ other rule, store.Reaches Rule.texts name other → store.rule? other = some rule →
      rule.IsListed)
    (hnest : store.NestsWithin Rule.texts depth name) {text : String}
    (h : text ∈ store.expansions name) :
    ∃ plan ∈ segmentsPlans (namePlans store depth) [.token name], (plan ∅).1 = text := by
  obtain ⟨stackRoom, limit, engine, hs, hrun⟩ := h
  simp only [Engine.expand, Bool.false_eq_true, if_false] at hrun
  have hfollows : Follows store
      (segmentsPlans (namePlans store depth) (Segment.split (Segment.tokenText name)))
      (Engine.expandWithin limit (min limit.toNat stackRoom) (Segment.tokenText name)) := by
    apply textPlans_follow
    intro other room hm hother
    rw [Segment.split_tokenText hne hpercent, List.mem_singleton] at hm
    cases hm
    exact namePlans_follow ha hreplay (fun other rule hreaches hrule =>
      (hl other rule hreaches hrule).drawsTexts) hnest limit room
  rw [Segment.split_tokenText hne hpercent] at hfollows
  cases hresult : Engine.expandWithin limit (min limit.toNat stackRoom) (Segment.tokenText name)
      { engine with context := ∅ } with
  | mk result last =>
    rw [hresult] at hrun
    cases result with
    | error failure => cases hrun
    | ok text =>
      cases hrun
      have hcleared : ({ engine with context := ∅ } : Engine).store.outline = store.outline := hs
      obtain ⟨-, plan, hm, hp⟩ := hfollows hcleared hresult
      exact ⟨plan, hm, congrArg Prod.fst hp⟩

/-- What a count on its own tells. -/
theorem complexityOf_of_rule? {setting : Complexity.Setting} {name : String} {rule : Rule}
    (hrule : setting.store.rule? name = some rule) (hlimit : 0 < setting.limit.value) :
    complexityOf setting [] name =
      match Complexity.tallyWithin setting (setting.limit.value - 1).toNat [name] name rule with
      | .error fault => .error (.number fault)
      | .ok tally =>
        .ok { name, count := tally.count, verdict := .counted rule.kind
              names := tally.names.eraseDups, depth := 0, warnings := tally.warnings } := by
  have hlow : ¬setting.limit.value ≤ 0 := by omega
  cases htally : Complexity.tallyWithin setting (setting.limit.value - 1).toNat [name] name rule with
  | error fault =>
    simp only [complexityOf, complexityShown, hrule, List.not_mem_nil, if_false, List.length_nil,
      Nat.cast_zero, Int.sub_zero, if_neg hlow, htally]
  | ok tally =>
    simp only [complexityOf, complexityShown, hrule, List.not_mem_nil, if_false, List.length_nil,
      Nat.cast_zero, Int.sub_zero, if_neg hlow, htally]

/-- Below a positive limit, a count is the tally of a rule, with the room that its name leaves. -/
theorem exists_tally_of_complexityOf {setting : Complexity.Setting} {name : String}
    {complexity : RuleComplexity} (hlimit : 0 < setting.limit.value)
    (h : complexityOf setting [] name = .ok complexity) :
    ∃ rule tally, setting.store.rule? name = some rule ∧
      Complexity.tallyWithin setting (setting.limit.value - 1).toNat [name] name rule = .ok tally ∧
      complexity.count = tally.count ∧ complexity.warnings = tally.warnings := by
  cases hr : setting.store.rule? name with
  | none =>
    rw [complexityOf, complexityShown, hr] at h
    cases h
  | some rule =>
    rw [complexityOf_of_rule? hr hlimit] at h
    split at h
    · cases h
    · rename_i tally ht
      cases h
      exact ⟨rule, tally, rfl, ht, rfl, rfl⟩

/-- Below a limit that leaves room for all names, a rule is counted as there are plans for it. -/
theorem count_eq_length {setting : Complexity.Setting} {name : String} {rule : Rule}
    {complexity : RuleComplexity} (hr : setting.store.rule? name = some rule)
    (hl : ∀ other rule, setting.store.Reaches Rule.texts name other →
      setting.store.rule? other = some rule → rule.IsListed)
    (hc : setting.store.NoCircle Rule.texts name) (hlimit : 0 < setting.limit.value)
    (h : complexityOf setting [] name = .ok complexity) :
    complexity.count
      = .finite (namePlans setting.store setting.limit.value.toNat name).length := by
  have hdepth : setting.limit.value.toNat = (setting.limit.value - 1).toNat + 1 := by omega
  obtain ⟨rule', tally, hr', ht, hcount, -⟩ := exists_tally_of_complexityOf hlimit h
  obtain rfl := Option.some.inj (hr'.symm.trans hr)
  rw [hcount, hdepth, namePlans_of_some hr]
  refine Complexity.tallyWithin_eq_length hr hl hc _ ?_ ht
  intro first hfirst
  obtain rfl := List.mem_singleton.1 hfirst
  exact .refl

/-- Where rules list what they produce and do not lead back to themselves, the count of a rule is
at least the number of texts that its token can be expanded to. -/
theorem encard_expansions_le {setting : Complexity.Setting} {name : String}
    {complexity : RuleComplexity} (ha : setting.store.Accepted) (hpercent : '%' ∉ name.toList)
    (hreplay : isReplay name = false)
    (hl : ∀ other rule, setting.store.Reaches Rule.texts name other →
      setting.store.rule? other = some rule → rule.IsListed)
    (hc : setting.store.NoCircle Rule.texts name)
    (hlimit : setting.store.names.length < setting.limit.value)
    (h : complexityOf setting [] name = .ok complexity) :
    ∃ count, complexity.count = .finite count ∧
      (setting.store.expansions name).encard ≤ count := by
  cases hr : setting.store.rule? name with
  | none =>
    simp only [complexityOf, complexityShown, hr] at h
    cases h
  | some rule =>
    have hpositive : 0 < setting.limit.value := by omega
    refine ⟨_, count_eq_length hr hl hc hpositive h, ?_⟩
    have hnest : setting.store.NestsWithin Rule.texts setting.limit.value.toNat name :=
      (Store.nestsWithin_of_noCircle hc).mono (by omega)
    generalize setting.limit.value.toNat = depth at hnest ⊢
    let plans := segmentsPlans (namePlans setting.store depth) [.token name]
    have hsub : setting.store.expansions name
        ⊆ ((plans.map fun plan => (plan ∅).1).toFinset : Set String) := by
      intro text ht
      obtain ⟨plan, hm, rfl⟩ := exists_plan_of_expand ha (Store.ne_empty_of_rule? ha hr) hpercent
        hreplay hl hnest ht
      exact List.mem_toFinset.2 (List.mem_map_of_mem hm)
    have hlen : plans.length = (namePlans setting.store depth name).length := by
      simp [plans, tokenPlans, hreplay, segmentsPlans]
    calc (setting.store.expansions name).encard
        ≤ ((plans.map fun plan => (plan ∅).1).toFinset : Set String).encard :=
          Set.encard_le_encard hsub
      _ = (plans.map fun plan => (plan ∅).1).toFinset.card := Set.encard_coe_eq_coe_finsetCard _
      _ ≤ (plans.map fun plan => (plan ∅).1).length := by
          exact_mod_cast List.toFinset_card_le _
      _ = (namePlans setting.store depth name).length := by rw [List.length_map, hlen]

theorem nestedStore_isListed {name : String} {rule : Rule}
    (h : nestedStore.rule? name = some rule) : rule.IsListed := by
  obtain ⟨entry, he, -, rfl⟩ := Store.exists_entry_of_rule? h
  simp only [nestedStore, List.mem_cons, List.not_mem_nil, or_false] at he
  rcases he with rfl | rfl <;> simp [Rule.IsListed]

theorem nestedStore_counted :
    complexityOf ⟨nestedStore, 5, false⟩ [] "a" = .ok {
      name := "a", count := .finite 3, verdict := .counted .static, names := ["b"], depth := 0
      warnings := [] } := by
  obtain ⟨hx, ht, hy, hz⟩ := nestedStore_split
  have hinner : Complexity.tallyWithin ⟨nestedStore, 5, false⟩ 3 ["b", "a"] "b"
      (.static { values := ["y", "z"] }) = .ok { count := .finite 2 } := by
    simp only [Complexity.tallyWithin, Complexity.ruleTally, Complexity.valuesTally, hy, hz]
    rfl
  have htoken : Complexity.tokenTally ⟨nestedStore, 5, false⟩
      (some (Complexity.tallyWithin ⟨nestedStore, 5, false⟩ 3)) ["a"] "a" "b"
        = .ok { count := .finite 2, names := ["b"] } := by
    simp only [Complexity.tokenTally, nestedStore_rule?_b, hinner]
    rfl
  have houter : Complexity.tallyWithin ⟨nestedStore, 5, false⟩ 4 ["a"] "a"
      (.static { values := ["x", "%b%"] }) = .ok { count := .finite 3, names := ["b"] } := by
    change Complexity.ruleTally _ (some (Complexity.tallyWithin _ 3)) _ _ _ = _
    simp only [Complexity.ruleTally, Complexity.valuesTally, hx, ht, Complexity.segmentsTally,
      htoken]
    rfl
  have hroom : ((5 : Bound).value - (0 : ℕ) - 1).toNat = 4 := by rfl
  simp only [complexityOf, complexityShown, nestedStore_rule?_a, List.length_nil, hroom, houter]
  rfl

theorem nestedStore_encard :
    ∃ count, Count.finite 3 = .finite count ∧ (nestedStore.expansions "a").encard ≤ count :=
  encard_expansions_le nestedStore_accepted (by decide) (by decide)
    (fun _ _ _ => nestedStore_isListed) (nestedStore_noCircle fun _ => rfl) (by decide)
    nestedStore_counted

end TextGrammar
