import TextGrammar.Proofs.Outcomes.Tally
import TextGrammar.Proofs.Outcomes.Uncut
import TextGrammar.Proofs.Rule.Range

/-! The count of a rule is the number of its outcomes: the two analyses agree part by part. -/
namespace TextGrammar

/-- A rule whose count is one for each outcome: no template, and not without values. -/
def Rule.IsPlain : Rule → Prop
  | .template _ => False
  | .static rule => rule.values ≠ []
  | _ => True

namespace Distribution

variable {W : Type}

/-- The number of outcomes that a walk has found, unless one of its markers stands for too many. -/
def Found.count (found : Found W) : Count :=
  if found.warnings.any (·.isInfinite) then .infinite else .finite found.outcomes.length

theorem Found.count_eq_or (found : Found W) :
    found.count = .infinite ∨ found.count = .finite found.outcomes.length := by
  rw [count]
  split
  · exact Or.inl rfl
  · exact Or.inr rfl

theorem Found.count_times [Mul W] {join : String → String → String} {left right : Found W} :
    (left.times none join right).count = left.count.mul right.count := by
  simp only [Found.count, Found.times_none, length_pairs]
  cases hl : left.warnings.any (·.isInfinite) <;> cases hr : right.warnings.any (·.isInfinite) <;>
    simp [hl, hr, Count.mul]

theorem Found.count_followedBy {first others : Found W} :
    (first.followedBy none none others).count = first.count.add others.count := by
  simp only [Found.count, Found.followedBy, fit]
  cases hf : first.warnings.any (·.isInfinite) <;>
    cases ho : others.warnings.any (·.isInfinite) <;> simp [hf, ho, Count.add]

end Distribution

namespace Complexity

open Distribution (Found Walk foundWithin foundShown)

variable {W : Type}

/-- A tally that counts what a walk has found, and that is reached if so many can be counted. -/
structure Agrees (tallied : Except NumberFault Tally) (found : Found W) : Prop where
  count_eq : ∀ tally, tallied = .ok tally → tally.count = found.count
  ends : Count.Fits found.outcomes.length → ∃ tally, tallied = .ok tally

theorem Agrees.of_ok {tally : Tally} {found : Found W} (h : tally.count = found.count) :
    Agrees (.ok tally) found where
  count_eq := by
    rintro _ ⟨⟩
    exact h
  ends _ := ⟨tally, rfl⟩

theorem Agrees.check_eq_ok {tallied : Except NumberFault Tally} {found : Found W} {tally : Tally}
    (h : Agrees tallied found) (ht : tallied = .ok tally)
    (hfits : Count.Fits found.outcomes.length) : tally.count.check = .ok () := by
  rw [h.count_eq tally ht]
  rcases found.count_eq_or with he | he
  · rw [he]
    rfl
  · rw [he]
    exact Count.check_finite.2 hfits

/-- The check that ends a count lets through what can be counted. -/
theorem Agrees.checked {tallied : Except NumberFault Tally} {found : Found W}
    (h : Agrees tallied found) :
    Agrees (do let tally ← tallied; tally.count.check; return tally) found where
  count_eq := by
    intro tally ht
    obtain ⟨first, hfirst, ht⟩ := bind_eq_ok.1 ht
    obtain ⟨-, -, ht⟩ := bind_eq_ok.1 ht
    rw [← pure_eq_ok.1 ht]
    exact h.count_eq first hfirst
  ends := by
    intro hfits
    obtain ⟨tally, ht⟩ := h.ends hfits
    exact ⟨tally, bind_eq_ok.2 ⟨tally, ht, bind_eq_ok.2 ⟨(), h.check_eq_ok ht hfits, rfl⟩⟩⟩

/-- The names that a tally lists do not matter. -/
theorem Agrees.named {tallied : Except NumberFault Tally} {found : Found W} {names : List String}
    (h : Agrees tallied found) :
    Agrees (do let tally ← tallied; return { tally with names }) found where
  count_eq := by
    intro tally ht
    obtain ⟨first, hfirst, ht⟩ := bind_eq_ok.1 ht
    rw [← pure_eq_ok.1 ht]
    exact h.count_eq first hfirst
  ends := by
    intro hfits
    obtain ⟨tally, ht⟩ := h.ends hfits
    exact ⟨_, bind_eq_ok.2 ⟨tally, ht, rfl⟩⟩

/-- A tally that multiplies what was found before into what is found after. An infinite count may
end it early, so that nothing takes the infinity back. -/
structure Multiplies (tallied : Except NumberFault Tally) (before after : Found W) : Prop where
  length_le : before.outcomes.length ≤ after.outcomes.length
  infinite : before.count = .infinite → after.count = .infinite
  count_eq : ∀ tally, tallied = .ok tally → after.count = before.count.mul tally.count
  ends : Count.Fits after.outcomes.length → ∃ tally, tallied = .ok tally

theorem Multiplies.of_one {tally : Tally} {found : Found W} (ht : tally.count = .finite 1) :
    Multiplies (.ok tally) found found where
  length_le := le_rfl
  infinite := id
  count_eq := by
    rintro _ ⟨⟩
    rw [ht, Count.mul_one]
  ends _ := ⟨tally, rfl⟩

/-- A text that is appended leaves the number of outcomes as it is. -/
theorem Multiplies.of_mapped {tallied : Except NumberFault Tally} {before after : Found W}
    {f : String × W → String × W}
    (h : Multiplies tallied { before with outcomes := before.outcomes.map f } after) :
    Multiplies tallied before after := by
  have hlen : (before.outcomes.map f).length = before.outcomes.length := List.length_map _
  have hcount : ({ before with outcomes := before.outcomes.map f } : Found W).count
      = before.count := by
    simp only [Found.count, hlen]
  refine ⟨hlen.symm.trans_le h.length_le, ?_, ?_, h.ends⟩
  · rw [← hcount]
    exact h.infinite
  · rw [← hcount]
    exact h.count_eq

/-- Tallies go on as the findings do. -/
theorem Multiplies.andThen {tallied next : Except NumberFault Tally} {before middle after : Found W}
    (h : Multiplies tallied before middle) (hnext : Multiplies next middle after) :
    Multiplies (do (← tallied).andThen .mul fun () => next) before after where
  length_le := h.length_le.trans hnext.length_le
  infinite hinf := hnext.infinite (h.infinite hinf)
  count_eq := by
    intro tally ht
    obtain ⟨first, hfirst, ht⟩ := bind_eq_ok.1 ht
    have hmiddle := h.count_eq first hfirst
    rcases Tally.andThen_eq_ok ht with ⟨hc, rfl⟩ | ⟨second, hsecond, hcount⟩
    · rw [hc, Count.mul_infinite] at hmiddle ⊢
      exact hnext.infinite hmiddle
    · rw [hnext.count_eq second hsecond, hmiddle, hcount, Count.mul_assoc]
  ends := by
    intro hfits
    obtain ⟨first, hfirst⟩ := h.ends (hfits.mono hnext.length_le)
    have hrest : ∃ tally, first.andThen .mul (fun () => next) = .ok tally :=
      Tally.exists_andThen (hnext.ends hfits)
    obtain ⟨tally, ht⟩ := hrest
    exact ⟨tally, bind_eq_ok.2 ⟨first, hfirst, ht⟩⟩

section Texts

variable [Mul W] {setting : Distribution.Setting W} {counting : Setting}
  {counter : Option RuleCounter} {nested : String → Walk (Found W)} {path : List String}
  {owner : String}

/-- Tokens that are counted as the walk that follows them finds outcomes. -/
def TokensAgree (counting : Setting) (counter : Option RuleCounter) (path : List String)
    (owner : String) (nested : String → Walk (Found W)) : Prop :=
  ∀ name right, isReplay name = false → nested name = .ok right →
    right.outcomes ≠ [] ∧ Agrees (tokenTally counting counter path owner name) right

theorem tokenTally_of_replay {name : String} (h : isReplay name = true) :
    tokenTally counting counter path owner name = .ok { count := .finite 1, names := [name] } := by
  simp [tokenTally, h]

theorem Agrees.multiplies {tallied : Except NumberFault Tally} {found right : Found W}
    {join : String → String → String} (h : Agrees tallied right) (hne : found.outcomes ≠ [])
    (hrne : right.outcomes ≠ []) : Multiplies tallied found (found.times none join right) where
  length_le := by
    rw [Found.length_times]
    exact Nat.le_mul_of_pos_right _ (List.length_pos_iff.2 hrne)
  infinite := by
    intro hinf
    rw [Found.count_times, hinf, Count.infinite_mul]
  count_eq := by
    intro tally ht
    rw [Found.count_times, h.count_eq tally ht]
  ends := by
    intro hfits
    rw [Found.length_times] at hfits
    exact h.ends (hfits.mono (Nat.le_mul_of_pos_left _ (List.length_pos_iff.2 hne)))

theorem segmentsTally_multiplies (hn : TokensAgree counting counter path owner nested)
    (segments : List Segment) {found result : Found W}
    (hf : Distribution.segmentsFound (setting.withCap none) nested found segments = .ok result)
    (hne : found.outcomes ≠ []) :
    Multiplies (segmentsTally counting counter path owner segments) found result := by
  induction segments generalizing found with
  | nil =>
    cases hf
    exact Multiplies.of_one rfl
  | cons segment rest ih =>
    cases segment with
    | literal text => exact Multiplies.of_mapped (ih hf (by simpa using hne))
    | token name =>
      simp only [Distribution.segmentsFound] at hf
      split at hf
      · rename_i hreplay
        rw [segmentsTally, tokenTally_of_replay hreplay]
        exact (Multiplies.of_one rfl).andThen (Multiplies.of_mapped (ih hf (by simpa using hne)))
      · rename_i hreplay
        obtain ⟨right, hright, hf⟩ := bind_eq_ok.1 hf
        obtain ⟨hrne, hagrees⟩ := hn name right (by simpa using hreplay) hright
        have htimes : Multiplies (tokenTally counting counter path owner name) found
            (found.times none (· ++ ·) right) := hagrees.multiplies hne hrne
        refine htimes.andThen (ih hf ?_)
        have hpos := (List.length_pos_iff.2 hne).trans_le htimes.length_le
        exact List.length_pos_iff.1 hpos

theorem textFound_agrees (hn : TokensAgree counting counter path owner nested) {text : String}
    {weight : W} {found : Found W}
    (hf : Distribution.textFound (setting.withCap none) nested text weight = .ok found) :
    found.outcomes ≠ [] ∧
      Agrees (segmentsTally counting counter path owner (Segment.split text)) found := by
  have h := segmentsTally_multiplies hn _ hf (by simp)
  refine ⟨List.length_pos_iff.1 h.length_le, ⟨?_, h.ends⟩⟩
  intro tally ht
  rw [h.count_eq tally ht]
  exact Count.one_mul.symm

theorem valuesTally_agrees (hn : TokensAgree counting counter path owner nested)
    (texts : List (String × W)) {result : Found W}
    (hf : Distribution.textsFound (setting.withCap none) nested none texts = .ok result) :
    texts.length ≤ result.outcomes.length ∧
      Agrees (valuesTally counting counter path owner (texts.map Prod.fst)) result := by
  induction texts generalizing result with
  | nil =>
    cases hf
    exact ⟨le_rfl, Agrees.of_ok rfl⟩
  | cons entry rest ih =>
    obtain ⟨text, weight⟩ := entry
    obtain ⟨-, first, others, hfirst, hothers, rfl⟩ :=
      (Distribution.textsFound_cons_eq_ok (Option.some_ne_none 0).symm).1 hf
    obtain ⟨hne, hagrees⟩ := textFound_agrees hn hfirst
    obtain ⟨hlen, hrest⟩ := ih hothers
    have hpos := List.length_pos_iff.2 hne
    rw [Distribution.withCap_cap]
    have hlength : (first.followedBy none none others).outcomes.length
        = first.outcomes.length + others.outcomes.length := List.length_append
    have hcount : (first.followedBy none none others).count = first.count.add others.count :=
      Found.count_followedBy
    refine ⟨?_, ?_, ?_⟩
    · rw [hlength, List.length_cons]
      omega
    · intro tally ht
      obtain ⟨one, hone, ht⟩ := bind_eq_ok.1 ht
      obtain ⟨-, -, ht⟩ := bind_eq_ok.1 ht
      rw [hcount, ← hagrees.count_eq one hone]
      rcases Tally.andThen_eq_ok ht with ⟨hc, rfl⟩ | ⟨second, hs, hadd⟩
      · rw [hc, Count.infinite_add]
      · rw [hadd, hrest.count_eq second hs]
    · intro hfits
      rw [hlength] at hfits
      have hfirst := hfits.mono (Nat.le_add_right _ _)
      obtain ⟨one, hone⟩ := hagrees.ends hfirst
      have hnext : ∃ tally, one.andThen .add
          (fun () => valuesTally counting counter path owner (rest.map Prod.fst)) = .ok tally :=
        Tally.exists_andThen (hrest.ends (hfits.mono (Nat.le_add_left _ _)))
      obtain ⟨tally, ht⟩ := hnext
      exact ⟨tally, bind_eq_ok.2 ⟨one, hone,
        bind_eq_ok.2 ⟨(), hagrees.check_eq_ok hone hfirst, ht⟩⟩⟩

theorem valuesTally_agrees_of_ne_nil (hn : TokensAgree counting counter path owner nested)
    {texts : List (String × W)} (ht : texts ≠ []) {found : Found W}
    (hf : Distribution.textsFound (setting.withCap none) nested none texts = .ok found) :
    found.outcomes ≠ [] ∧
      Agrees (valuesTally counting counter path owner (texts.map Prod.fst)) found := by
  obtain ⟨hlen, hagrees⟩ := valuesTally_agrees hn texts hf
  have hpos := (List.length_pos_iff.2 ht).trans_le hlen
  exact ⟨List.length_pos_iff.1 hpos, hagrees⟩

variable [Zero W] [One W] [Add W] [Div W] [NatCast W] {shown : String}

omit [Mul W] [Zero W] [Add W] in
theorem rangeTally_agrees {rule : Rule.Range} (ha : (Rule.range rule).Accepted)
    (ho : counting.openRangesInfinite = (setting.withCap none).openRangesInfinite) {found : Found W}
    (hf : Distribution.rangeFound (setting.withCap none) shown rule = .ok found) :
    found.outcomes ≠ [] ∧ Agrees (rangeTally counting owner rule) found := by
  simp only [rangeTally, ho]
  by_cases hopen : (rule.step.isNone && (setting.withCap none).openRangesInfinite) = true
  · rw [if_pos hopen]
    rw [Distribution.rangeFound_of_open hopen] at hf
    cases hf
    exact ⟨by simp [Distribution.marked], Agrees.of_ok rfl⟩
  · rw [if_neg hopen]
    obtain ⟨count, hcount, -, texts, htexts, rfl⟩ := (Distribution.rangeFound_eq_ok hopen).1 hf
    have hlen : texts.length = count := Distribution.length_of_nthTexts htexts
    have hpos := Rule.Range.size_pos ha hcount
    rw [hcount]
    refine ⟨?_, Agrees.of_ok ?_⟩
    · rw [← List.length_pos_iff, List.length_map, hlen]
      exact hpos
    · simp [Found.count, hlen]

theorem staticTally_agrees (hn : TokensAgree counting counter path owner nested)
    {values : List String} (hv : values ≠ []) {found : Found W}
    (hf : Distribution.ruleFound (setting.withCap none) nested shown (.static { values })
      = .ok found) :
    found.outcomes ≠ [] ∧ Agrees (valuesTally counting counter path owner values) found := by
  simp only [Distribution.ruleFound] at hf
  rw [if_neg (by simpa using hv)] at hf
  have hmap : (Distribution.evenly (1 : W) values).map Prod.fst = values :=
    Distribution.map_fst_evenly
  rw [← hmap]
  exact valuesTally_agrees_of_ne_nil hn (by simpa [Distribution.evenly] using hv) hf

theorem ruleTally_agrees (hn : TokensAgree counting counter path owner nested)
    (ho : counting.openRangesInfinite = (setting.withCap none).openRangesInfinite) {rule : Rule}
    (ha : rule.Accepted) (hp : rule.IsPlain) {found : Found W}
    (hf : Distribution.ruleFound (setting.withCap none) nested shown rule = .ok found) :
    found.outcomes ≠ [] ∧ Agrees (ruleTally counting counter path owner rule) found := by
  cases rule with
  | function rule =>
    cases hf
    exact ⟨by simp [Distribution.marked], (Agrees.of_ok rfl).checked⟩
  | range rule =>
    obtain ⟨hne, hagrees⟩ := rangeTally_agrees ha ho hf
    exact ⟨hne, hagrees.checked⟩
  | template rule => exact hp.elim
  | weighted rule =>
    have hmap : (Distribution.weightedValues (setting.withCap none) rule.values rule.weights).map
        Prod.fst = rule.values := Distribution.map_fst_weightedValues ha.2.1
    obtain ⟨hne, hagrees⟩ :=
      valuesTally_agrees_of_ne_nil hn (fun he => ha.1 (by rw [← hmap, he]; rfl)) hf
    rw [hmap] at hagrees
    exact ⟨hne, hagrees.checked⟩
  | conditional rule =>
    have hmap : (rule.branches.flatMap fun branch =>
        Distribution.evenly (1 / (rule.branches.length : W)) branch.values).map Prod.fst
          = rule.branches.flatMap Branch.values := Distribution.map_fst_branches
    have hvs : rule.branches.flatMap Branch.values ≠ [] := by
      obtain ⟨branch, hb⟩ := List.exists_mem_of_ne_nil _ ha.1
      intro he
      exact ha.2.1 branch hb (List.flatMap_eq_nil_iff.1 he branch hb)
    obtain ⟨hne, hagrees⟩ :=
      valuesTally_agrees_of_ne_nil hn (fun he => hvs (by rw [← hmap, he]; rfl)) hf
    rw [hmap] at hagrees
    exact ⟨hne, hagrees.checked⟩
  | sequential rule =>
    obtain ⟨hne, hagrees⟩ := staticTally_agrees hn ha.1 hf
    exact ⟨hne, hagrees.checked⟩
  | static rule =>
    obtain ⟨hne, hagrees⟩ := staticTally_agrees hn hp hf
    exact ⟨hne, hagrees.checked⟩

variable {name : String}

omit [Mul W] [Zero W] [Add W] [Div W] [NatCast W] in
theorem marked_agrees {tally : Tally} {label : String} {warning : Distribution.Warning}
    (ht : tally.count = .finite 1) (hw : warning.isInfinite = false) {right : Found W}
    (hr : Except.ok (Distribution.marked label name warning) = (.ok right : Walk (Found W))) :
    right.outcomes ≠ [] ∧ Agrees (.ok tally) right := by
  cases hr
  refine ⟨by simp [Distribution.marked], Agrees.of_ok ?_⟩
  simp [Found.count, Distribution.marked, ht, hw]

/-- Where no depth is left, a token counts once and has one marker. -/
theorem tokensAgree_none {visited : List String} :
    TokensAgree counting none visited owner
      fun name => Distribution.nameFound (setting.withCap none) none visited name name := by
  intro name right hreplay hr
  simp only [Distribution.nameFound] at hr
  simp only [tokenTally, hreplay]
  split at hr
  · rename_i hv
    rw [if_pos hv]
    exact marked_agrees rfl rfl hr
  · rename_i hv
    rw [if_neg hv]
    exact marked_agrees rfl rfl hr

theorem tokensAgree_some {counter : RuleCounter} {nested : List String → String → Walk (Found W)}
    (hs : counting.store = setting.store) {visited : List String}
    (hc : ∀ name rule found, setting.store.rule? name = some rule →
      Distribution.ruleFound (setting.withCap none) (nested (name :: visited)) name rule
        = .ok found →
      found.outcomes ≠ [] ∧ Agrees (counter (name :: visited) name rule) found) :
    TokensAgree counting (some counter) visited owner
      fun name =>
        Distribution.nameFound (setting.withCap none) (some nested) visited name name := by
  intro name right hreplay hr
  simp only [Distribution.nameFound] at hr
  simp only [tokenTally, hreplay]
  split at hr
  · rename_i hv
    rw [if_pos hv]
    exact marked_agrees rfl rfl hr
  · rename_i hv
    rw [if_neg hv]
    rw [Distribution.withCap_store] at hr
    rw [hs]
    cases hrule : setting.store.rule? name with
    | none =>
      rw [hrule] at hr
      exact marked_agrees rfl rfl hr
    | some rule =>
      rw [hrule] at hr
      obtain ⟨hne, hagrees⟩ := hc name rule right hrule hr
      exact ⟨hne, hagrees.named⟩

theorem tallyWithin_agrees (hs : counting.store = setting.store)
    (ho : counting.openRangesInfinite = setting.openRangesInfinite)
    (ha : setting.store.Accepted)
    (hp : ∀ name rule, setting.store.rule? name = some rule → rule.IsPlain) (depth : ℕ)
    {visited : List String} {rule : Rule} (hrule : setting.store.rule? name = some rule)
    {found : Found W}
    (hf : Distribution.ruleFound (setting.withCap none)
      (foundWithin (setting.withCap none) depth visited) shown rule = .ok found) :
    found.outcomes ≠ [] ∧ Agrees (tallyWithin counting depth visited owner rule) found := by
  have haccepted := Store.accepted_of_rule? ha hrule
  have hplain := hp name rule hrule
  induction depth generalizing visited shown owner name rule found with
  | zero => exact ruleTally_agrees tokensAgree_none ho haccepted hplain hf
  | succ depth ih =>
    refine ruleTally_agrees (tokensAgree_some hs ?_) ho haccepted hplain hf
    intro name rule found hrule hf
    exact ih hrule hf (Store.accepted_of_rule? ha hrule) (hp name rule hrule)

end Texts

end Complexity

open Distribution

variable {store : Store} {limit cap : Bound} {openRangesInfinite : Bool} {name : String}
  {found : Found Double}

theorem complexityOf_agrees_found (ha : store.Accepted)
    (hp : ∀ name rule, store.rule? name = some rule → rule.IsPlain)
    (hname : store.hasName name = true)
    (hf : foundShown (.capped store limit cap openRangesInfinite) name name = .ok found)
    (ht : ¬found.IsTruncated) :
    (∀ complexity, complexityOf { store, limit, openRangesInfinite } [] name = .ok complexity →
        complexity.count = found.count) ∧
      (Count.Fits found.outcomes.length →
        ∃ complexity, complexityOf { store, limit, openRangesInfinite } [] name = .ok complexity) := by
  obtain ⟨rule, hrule⟩ := Store.exists_rule?_iff.2 hname
  have hall := foundShown_uncut hf ht
  simp only [foundShown, withCap_limit, Setting.capped] at hall
  simp only [complexityOf, complexityShown, hrule, List.not_mem_nil, if_false, List.length_nil]
  by_cases hlimit : limit.value ≤ 0
  · have hzero : limit.value.toNat = 0 := by omega
    simp only [hzero] at hall
    cases hall
    simp only [Nat.cast_zero, if_pos hlimit]
    refine ⟨?_, fun _ => ⟨_, rfl⟩⟩
    rintro _ ⟨⟩
    rfl
  · have hdepth : limit.value.toNat = (limit.value - 0 - 1).toNat + 1 := by omega
    simp only [hdepth, nameFound, List.not_mem_nil, if_false, withCap_store, hrule] at hall
    simp only [Nat.cast_zero, if_neg hlimit]
    have hagrees : Complexity.Agrees (Complexity.tallyWithin { store, limit, openRangesInfinite }
        (limit.value - 0 - 1).toNat [name] name rule) found :=
      (Complexity.tallyWithin_agrees rfl rfl ha hp _ hrule hall).2
    constructor
    · intro complexity hc
      split at hc
      · cases hc
      · rename_i tally htally
        cases hc
        exact hagrees.count_eq tally htally
    · intro hfits
      obtain ⟨tally, htally⟩ := hagrees.ends hfits
      rw [htally]
      exact ⟨_, rfl⟩

/-- For plain rules, a walk that leaves nothing out has as many outcomes as the rule is counted to
have, and both or neither are infinite. The count is reached unless it is out of range, as long as
the stack suffices for the analyses. -/
theorem complexityOf_agrees (ha : store.Accepted)
    (hp : ∀ name rule, store.rule? name = some rule → rule.IsPlain)
    (hname : store.hasName name = true)
    (hf : foundShown (.capped store limit cap openRangesInfinite) name name = .ok found)
    (ht : ¬found.IsTruncated) (mergeOutcomes : Bool) :
    ∃ distribution,
      ofRule (.capped store limit cap openRangesInfinite) mergeOutcomes name = .ok distribution ∧
      (∀ complexity, complexityOf { store, limit, openRangesInfinite } [] name = .ok complexity →
        complexity.count.isFinite = distribution.isFinite ∧
        (complexity.count.isFinite → complexity.count = .finite found.outcomes.length)) ∧
      (Count.Fits found.outcomes.length →
        ∃ complexity, complexityOf { store, limit, openRangesInfinite } [] name = .ok complexity) := by
  obtain ⟨hcount, hends⟩ := complexityOf_agrees_found ha hp hname hf ht
  have hstore : (Setting.capped store limit cap openRangesInfinite).store = store := rfl
  refine ⟨_, by simp only [ofRule, ofRuleShown, reportedShown, hstore, hname, hf]; rfl, ?_, hends⟩
  intro complexity hc
  rw [hcount complexity hc, Found.count, Distribution.isFinite]
  cases found.warnings.any (·.isInfinite) with
  | true => exact ⟨rfl, nofun⟩
  | false => exact ⟨rfl, fun _ => rfl⟩

theorem nestedStore_isPlain {name : String} {rule : Rule}
    (h : nestedStore.rule? name = some rule) : rule.IsPlain := by
  obtain ⟨entry, he, -, rfl⟩ := Store.exists_entry_of_rule? h
  simp only [nestedStore, List.mem_cons, List.not_mem_nil, or_false] at he
  rcases he with rfl | rfl <;> simp [Rule.IsPlain]

theorem nestedStore_complexity :
    ∃ distribution, ofRule (.capped nestedStore 5 100 true) true "a" = .ok distribution ∧
      (∀ complexity, complexityOf ⟨nestedStore, 5, true⟩ [] "a" = .ok complexity →
        complexity.count.isFinite = distribution.isFinite ∧
        (complexity.count.isFinite → complexity.count = .finite 3)) ∧
      (Count.Fits 3 → ∃ complexity, complexityOf ⟨nestedStore, 5, true⟩ [] "a" = .ok complexity) :=
  complexityOf_agrees nestedStore_accepted (fun _ _ => nestedStore_isPlain) rfl
    (nestedStore_found (Or.inr rfl)) leavesOut_nil true

end TextGrammar
