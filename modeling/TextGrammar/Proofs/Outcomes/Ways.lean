import Mathlib.Algebra.Order.BigOperators.Group.List
import TextGrammar.Proofs.Outcomes.Counts
import TextGrammar.Proofs.Outcomes.Uncut

/-! Static rules that do not lead back to themselves have as many outcomes as ways to expand. -/
namespace TextGrammar

/-- In how many ways a text can be expanded, as deep as so many rules. -/
def Store.ways (store : Store) (depth : ℕ) (text : String) : ℕ :=
  (segmentsPlans (namePlans store depth) (Segment.split text)).length

/-- In how many ways a token can. -/
def Store.tokenWays (store : Store) (depth : ℕ) (name : String) : ℕ :=
  (tokenPlans (namePlans store depth) name).length

section Ways

variable {store : Store} {depth : ℕ} {name text : String}

theorem length_segmentsPlans_eq_prod {nested : String → List Plan} (segments : List Segment) :
    (segmentsPlans nested segments).length
      = ((segments.filterMap Segment.tokenName?).map fun name =>
        (tokenPlans nested name).length).prod := by
  induction segments with
  | nil => rfl
  | cons segment rest ih =>
    cases segment with
    | literal text =>
      rw [length_segmentsPlans_literal]
      exact ih
    | token name =>
      rw [length_segmentsPlans_token, ih]
      rfl

/-- The ways of a text are those of its tokens. -/
theorem Store.ways_eq_prod :
    store.ways depth text = ((Segment.names text).map (store.tokenWays depth)).prod :=
  length_segmentsPlans_eq_prod _

theorem Store.ways_eq :
    store.ways depth = fun text => ((Segment.names text).map (store.tokenWays depth)).prod :=
  funext fun _ => ways_eq_prod

theorem Store.tokenWays_of_replay (h : isReplay name = true) : store.tokenWays depth name = 1 := by
  simp [tokenWays, tokenPlans, h]

theorem Store.tokenWays_zero : store.tokenWays 0 name = 1 := by
  rw [tokenWays, tokenPlans]
  split
  · rfl
  · rfl

theorem length_namePlans_succ {rule : Rule} (hrule : store.rule? name = some rule) :
    (namePlans store (depth + 1) name).length = (rule.texts.map (store.ways depth)).sum := by
  rw [namePlans_of_some hrule, rulePlans, List.length_flatMap]
  simp only [List.length_map]
  rfl

theorem Store.tokenWays_succ {rule : Rule} (hreplay : isReplay name = false)
    (hrule : store.rule? name = some rule) :
    store.tokenWays (depth + 1) name = (rule.texts.map (store.ways depth)).sum := by
  rw [tokenWays, tokenPlans, if_neg (by simp [hreplay]), length_namePlans_succ hrule]

end Ways

namespace Count

theorem sum_finite (counts : List ℕ) : sum (counts.map .finite) = .finite counts.sum := by
  induction counts with
  | nil => rfl
  | cons count rest ih =>
    rw [List.map_cons, sum_cons, ih]
    rfl

theorem prod_finite (counts : List ℕ) : prod (counts.map .finite) = .finite counts.prod := by
  induction counts with
  | nil => rfl
  | cons count rest ih =>
    rw [List.map_cons, prod_cons, ih]
    rfl

theorem mem_of_mem_upTo {α : Type} {count : α → Count} {item : α} {items : List α}
    (h : item ∈ upTo count items) : item ∈ items := by
  induction items with
  | nil => cases h
  | cons first rest ih =>
    rw [upTo] at h
    rcases List.mem_cons.1 h with rfl | h
    · exact List.mem_cons_self
    · split at h
      · exact List.mem_cons_of_mem _ (ih h)
      · cases h

/-- A finite count of something that can be done, and no larger one turns up before it. -/
structure Bounds (count : Count) (met : List Count) (ways : ℕ) : Prop where
  exact : count = .finite ways
  pos : 0 < ways
  met_le : ∀ n, .finite n ∈ met → n ≤ ways

namespace Bounds

variable {α : Type} {items : List α} {count : α → Count} {met : α → List Count} {ways : α → ℕ}

theorem met_lt_iff {count : Count} {met : List Count} {ways bound : ℕ} (h : Bounds count met ways)
    (hmem : count ∈ met) : (∀ n, .finite n ∈ met → n < bound) ↔ ways < bound := by
  constructor
  · intro hmet
    exact hmet ways (h.exact ▸ hmem)
  · intro hways n hn
    exact (h.met_le n hn).trans_lt hways

theorem checked {count : Count} {met : List Count} {ways : ℕ} (h : Bounds count met ways) :
    Bounds count (met ++ [count]) ways where
  exact := h.exact
  pos := h.pos
  met_le := by
    intro n hmem
    rcases List.mem_append.1 hmem with hmem | hmem
    · exact h.met_le n hmem
    · rw [h.exact] at hmem
      exact (Count.finite.inj (List.mem_singleton.1 hmem)).le

/-- A factor is no larger than the product, as no other one is zero. -/
theorem prod (h : ∀ item ∈ items, Bounds (count item) (met item) (ways item)) :
    Bounds (Count.prod (items.map count)) ((upTo count items).flatMap met)
      (items.map ways).prod := by
  have hpos : ∀ n ∈ items.map ways, 1 ≤ n := by
    intro n hn
    obtain ⟨item, hitem, rfl⟩ := List.mem_map.1 hn
    exact (h item hitem).pos
  refine ⟨?_, List.one_le_prod_of_one_le hpos, fun n hmem => ?_⟩
  · rw [← prod_finite, List.map_map]
    congr 1
    exact List.map_congr_left fun item hitem => (h item hitem).exact
  · obtain ⟨item, hitem, hn⟩ := List.mem_flatMap.1 hmem
    have hitem := mem_of_mem_upTo hitem
    have hle := (h item hitem).met_le n hn
    exact hle.trans (List.single_le_prod hpos _ (List.mem_map_of_mem hitem))

theorem sum (hne : items ≠ []) (h : ∀ item ∈ items, Bounds (count item) (met item) (ways item)) :
    Bounds (Count.sum (items.map count)) ((upTo count items).flatMap met) (items.map ways).sum := by
  have hle : ∀ item ∈ items, ways item ≤ (items.map ways).sum := fun item hitem =>
    List.le_sum_of_mem (List.mem_map_of_mem hitem)
  refine ⟨?_, ?_, fun n hmem => ?_⟩
  · rw [← sum_finite, List.map_map]
    congr 1
    exact List.map_congr_left fun item hitem => (h item hitem).exact
  · obtain ⟨item, hitem⟩ := List.exists_mem_of_ne_nil items hne
    exact (h item hitem).pos.trans_le (hle item hitem)
  · obtain ⟨item, hitem, hn⟩ := List.mem_flatMap.1 hmem
    have hitem := mem_of_mem_upTo hitem
    exact ((h item hitem).met_le n hn).trans (hle item hitem)

end Bounds

end Count

/-- The texts that a rule names others in: those that it lists and those that it is counted by. In a
template, these are its fillings and the values for its open names. -/
def Rule.namedTexts (rule : Rule) : List String := rule.texts ++ rule.countedTexts

/-- Whatever a name leads to is a static rule with values, and none of them leads back to itself. -/
structure Store.IsStaticBelow (store : Store) (name : String) : Prop where
  static : ∀ other, Relation.TransGen (store.Refers Rule.namedTexts) name other →
    ∃ values, store.rule? other = some (.static { values }) ∧ values ≠ []
  noCircle : store.NoCircle Rule.namedTexts name

section Below

variable {store : Store} {texts : Rule → List String} {name other next value : String}
  {path : List String} {rule : Rule}

theorem Store.refers_of_mem (hrule : store.rule? name = some rule)
    (hvalue : value ∈ rule.namedTexts) (hnext : next ∈ Segment.names value)
    (hreplay : isReplay next = false) :
    store.Refers Rule.namedTexts name next :=
  ⟨rule, hrule, value, hvalue, Segment.mem_names.1 hnext, hreplay⟩

theorem Store.isReplay_of_leads (h : Relation.TransGen (store.Refers texts) name other) :
    isReplay other = false := by
  obtain ⟨before, -, rule, -, text, -, -, hreplay⟩ := Relation.TransGen.tail'_iff.1 h
  exact hreplay

theorem Store.IsStaticBelow.eq_or_static (h : store.IsStaticBelow name)
    (hreaches : store.Reaches Rule.namedTexts name other) :
    other = name ∨ ∃ values, store.rule? other = some (.static { values }) ∧ values ≠ [] :=
  (Relation.reflTransGen_iff_eq_or_transGen.1 hreaches).imp_right (h.static other)

/-- Names on the way to a name below are not met again. -/
theorem Store.IsStaticBelow.not_mem (h : store.IsStaticBelow name)
    (hother : Relation.TransGen (store.Refers Rule.namedTexts) name other)
    (hpath : ∀ first ∈ path, Relation.TransGen (store.Refers Rule.namedTexts) first other) :
    other ∉ path :=
  fun hmem => h.noCircle other hother.to_reflTransGen (hpath other hmem)

/-- A step further down, the path has grown by the name it was at. -/
theorem Store.Refers.leads (hrefers : store.Refers Rule.namedTexts other next)
    (hpath : ∀ first ∈ path, Relation.TransGen (store.Refers Rule.namedTexts) first other) :
    ∀ first ∈ other :: path, Relation.TransGen (store.Refers Rule.namedTexts) first next := by
  intro first hfirst
  rcases List.mem_cons.1 hfirst with rfl | hfirst
  · exact .single hrefers
  · exact (hpath first hfirst).tail hrefers

end Below

namespace Complexity

open Count (Bounds)

section Counting

variable {token : String → Count} {met : String → List Count} {ways : String → ℕ}
  {values : List String}

theorem exactValues_bounds (hne : values ≠ [])
    (h : ∀ value ∈ values, ∀ name ∈ Segment.names value,
      Bounds (token name) (met name) (ways name)) :
    Bounds (.sum (values.map (exactText token))) (metValues token met values)
      (values.map fun value => ((Segment.names value).map ways).prod).sum := by
  refine Bounds.sum hne fun value hvalue => ?_
  exact (Bounds.prod (h value hvalue)).checked

theorem exactChoices_bounds {template : Rule.Template}
    (hne : ∀ name ∈ template.openNames, (template.values? name).getD [] ≠ [])
    (h : ∀ name ∈ template.openNames, ∀ value ∈ (template.values? name).getD [],
      ∀ other ∈ Segment.names value, Bounds (token other) (met other) (ways other)) :
    Bounds (.prod (template.openNames.map (exactChoice token template)))
      (metChoices token met template)
      (template.openNames.map fun name => (((template.values? name).getD []).map fun value =>
        ((Segment.names value).map ways).prod).sum).prod := by
  refine Bounds.prod fun name hname => ?_
  exact (exactValues_bounds (hne name hname) (h name hname)).checked

end Counting

section Below

variable {setting : Setting} {name other : String} {path : List String} {room : ℕ}

/-- Below a name, a token counts as many ways as it has. -/
theorem exactToken_bounds (h : setting.store.IsStaticBelow name)
    (hother : isReplay other = false →
      Relation.TransGen (setting.store.Refers Rule.namedTexts) name other)
    (hpath : isReplay other = false →
      ∀ first ∈ path, Relation.TransGen (setting.store.Refers Rule.namedTexts) first other) :
    Bounds (exactToken setting room path other) (metToken setting room path other)
      (setting.store.tokenWays room other) := by
  have hone : Bounds (.finite 1) [] 1 :=
    ⟨rfl, Nat.one_pos, fun _ hmem => absurd hmem List.not_mem_nil⟩
  induction room generalizing path other with
  | zero =>
    rw [Store.tokenWays_zero]
    exact hone
  | succ room ih =>
    cases hreplay : isReplay other with
    | true =>
      have hbelow : below? setting path other = none := by simp [below?, hreplay]
      simp only [exactToken, metToken, hbelow, Store.tokenWays_of_replay hreplay]
      exact hone
    | false =>
      have hother := hother hreplay
      have hpath := hpath hreplay
      obtain ⟨values, hrule, hne⟩ := h.static other hother
      have hbelow : below? setting path other = some (.static { values }) := by
        simp [below?, hreplay, h.not_mem hother hpath, hrule]
      have htokens : ∀ value ∈ values, ∀ next ∈ Segment.names value,
          Bounds (exactToken setting room (other :: path) next)
            (metToken setting room (other :: path) next) (setting.store.tokenWays room next) := by
        intro value hvalue next hnext
        have hrefers (hnotReplay : isReplay next = false) :=
          Store.refers_of_mem hrule (List.mem_append_left _ hvalue) hnext hnotReplay
        exact ih (fun hnotReplay => hother.tail (hrefers hnotReplay))
          fun hnotReplay => (hrefers hnotReplay).leads hpath
      simp only [exactToken, metToken, hbelow, Store.tokenWays_succ hreplay hrule, Rule.texts]
      rw [Store.ways_eq]
      exact (exactValues_bounds hne htokens).checked

end Below

end Complexity

namespace Distribution

variable {W : Type} [Mul W] {setting : Setting W} {nested : String → Walk (Found W)}
  {ways : String → ℕ}

/-- The walk ends with so many outcomes. -/
def FindsMany (walk : Walk (Found W)) (count : ℕ) : Prop :=
  ∃ found, walk = .ok found ∧ found.outcomes.length = count

omit [Mul W] in
theorem FindsMany.of_eq {walk : Walk (Found W)} {count count' : ℕ} (h : FindsMany walk count)
    (heq : count = count') : FindsMany walk count' :=
  heq ▸ h

theorem segmentsFound_findsMany (segments : List Segment) (found : Found W)
    (hreplay : ∀ name, isReplay name = true → ways name = 1)
    (h : ∀ name, .token name ∈ segments → isReplay name = false →
      FindsMany (nested name) (ways name)) :
    FindsMany (segmentsFound (setting.withCap none) nested found segments)
      (found.outcomes.length * ((segments.filterMap Segment.tokenName?).map ways).prod) := by
  induction segments generalizing found with
  | nil => exact ⟨found, rfl, (Nat.mul_one _).symm⟩
  | cons segment rest ih =>
    have hrest (found : Found W) := ih found fun name hmem => h name (List.mem_cons_of_mem _ hmem)
    cases segment with
    | literal text =>
      simp only [segmentsFound]
      exact (hrest _).of_eq (congrArg (· * _) (List.length_map _))
    | token name =>
      simp only [segmentsFound, List.filterMap_cons, Segment.tokenName?, List.map_cons,
        List.prod_cons]
      cases hr : isReplay name with
      | true =>
        rw [hreplay name hr, Nat.one_mul]
        exact (hrest _).of_eq (congrArg (· * _) (List.length_map _))
      | false =>
        obtain ⟨right, hright, hmany⟩ := h name List.mem_cons_self hr
        obtain ⟨result, hresult, hlength⟩ := hrest (found.times none (· ++ ·) right)
        rw [Found.length_times, hmany, Nat.mul_assoc] at hlength
        exact ⟨result, bind_eq_ok.2 ⟨right, hright, hresult⟩, hlength⟩

theorem textFound_findsMany {text : String} {weight : W}
    (hreplay : ∀ name, isReplay name = true → ways name = 1)
    (h : ∀ name ∈ Segment.names text, isReplay name = false → FindsMany (nested name) (ways name)) :
    FindsMany (textFound (setting.withCap none) nested text weight)
      ((Segment.names text).map ways).prod := by
  obtain ⟨found, hfound, hmany⟩ :
      FindsMany (textFound (setting.withCap none) nested text weight) _ :=
    segmentsFound_findsMany _ _ hreplay fun name hname => h name (Segment.mem_names.2 hname)
  rw [List.length_singleton, Nat.one_mul] at hmany
  exact ⟨found, hfound, hmany⟩

theorem textsFound_findsMany {texts : List (String × W)} {listed : List String}
    (hlisted : texts.map Prod.fst = listed) (hreplay : ∀ name, isReplay name = true → ways name = 1)
    (h : ∀ text ∈ listed, ∀ name ∈ Segment.names text, isReplay name = false →
      FindsMany (nested name) (ways name)) :
    FindsMany (textsFound (setting.withCap none) nested none texts)
      (listed.map fun text => ((Segment.names text).map ways).prod).sum := by
  subst hlisted
  induction texts with
  | nil => exact ⟨_, rfl, rfl⟩
  | cons entry rest ih =>
    obtain ⟨text, weight⟩ := entry
    obtain ⟨first, hfirst, hmany⟩ :
        FindsMany (textFound (setting.withCap none) nested text weight) _ :=
      textFound_findsMany hreplay (h text List.mem_cons_self)
    obtain ⟨others, hothers, hmany'⟩ := ih fun text hmem => h text (List.mem_cons_of_mem _ hmem)
    refine ⟨first.followedBy none none others, ?_, ?_⟩
    · exact (textsFound_cons_eq_ok (by simp)).2 ⟨rfl, first, others, hfirst, hothers, rfl⟩
    · rw [List.map_cons, List.map_cons, List.sum_cons, ← hmany, ← hmany']
      exact List.length_append

variable [Zero W] [One W] [Add W] [Div W] [NatCast W] {name other : String} {room : ℕ}

/-- Below a name, a walk finds as many outcomes as there are ways. -/
theorem foundWithin_findsMany {visited : List String} (h : setting.store.IsStaticBelow name)
    (hother : Relation.TransGen (setting.store.Refers Rule.namedTexts) name other)
    (hvisited : ∀ first ∈ visited,
      Relation.TransGen (setting.store.Refers Rule.namedTexts) first other) :
    FindsMany (foundWithin (setting.withCap none) room visited other)
      (setting.store.tokenWays room other) := by
  induction room generalizing visited other with
  | zero =>
    rw [Store.tokenWays_zero]
    rw [foundWithin, nameFound, if_neg (h.not_mem hother hvisited)]
    exact ⟨_, rfl, rfl⟩
  | succ room ih =>
    obtain ⟨values, hrule, hne⟩ := h.static other hother
    have hreplay := Store.isReplay_of_leads hother
    have htokens : ∀ value ∈ values, ∀ next ∈ Segment.names value, isReplay next = false →
        FindsMany (foundWithin (setting.withCap none) room (other :: visited) next)
          (setting.store.tokenWays room next) := by
      intro value hvalue next hnext hnotReplay
      have hrefers := Store.refers_of_mem hrule (List.mem_append_left _ hvalue) hnext hnotReplay
      exact ih (hother.tail hrefers) (hrefers.leads hvisited)
    have hfollowed : foundWithin (setting.withCap none) (room + 1) visited other
        = ruleFound (setting.withCap none)
          (foundWithin (setting.withCap none) room (other :: visited)) other (.static { values }) :=
      foundWithin_of_rule? hrule (h.not_mem hother hvisited)
    rw [hfollowed, Store.tokenWays_succ hreplay hrule, Store.ways_eq]
    simp only [ruleFound]
    rw [if_neg (by simpa using hne)]
    exact textsFound_findsMany map_fst_evenly (fun _ => Store.tokenWays_of_replay) htokens

end Distribution

end TextGrammar
