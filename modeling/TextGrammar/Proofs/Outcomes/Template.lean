import TextGrammar.Proofs.Outcomes.Capped
import TextGrammar.Proofs.Outcomes.Ways
import TextGrammar.Proofs.Rule.Picks

/-! Templates over static rules: counted by their names, and enumerated by their filled texts. -/
namespace TextGrammar

namespace Distribution

variable {W : Type} [Zero W] [One W] [Add W] [Mul W] [Div W] [NatCast W] {setting : Setting W}
  {name : String} {room : ℕ}

/-- A template over static rules has an outcome for each plan. -/
theorem template_findsMany {template : Rule.Template} (h : setting.store.IsStaticBelow name)
    (hrule : setting.store.rule? name = some (.template template)) :
    FindsMany (foundWithin (setting.withCap none) (room + 1) [] name)
      (namePlans setting.store (room + 1) name).length := by
  have htokens : ∀ text ∈ template.fillings template.openNames template.template,
      ∀ next ∈ Segment.names text, isReplay next = false →
        FindsMany (foundWithin (setting.withCap none) room [name] next)
          (setting.store.tokenWays room next) := by
    intro text htext next hnext hnotReplay
    have hrefers := Store.refers_of_mem hrule (List.mem_append_left _ htext) hnext hnotReplay
    exact foundWithin_findsMany h (.single hrefers) (hrefers.leads fun _ hmem => by cases hmem)
  have hfilled : (templateTexts (setting.withCap none) template
      { outcomes := [(template.template, (1 : W))] } template.openNames).outcomes.map Prod.fst
        = template.fillings template.openNames template.template := by
    rw [map_fst_templateTexts, List.map_singleton, List.flatMap_singleton]
  obtain ⟨found, hfound, hmany⟩ : FindsMany (textsFound (setting.withCap none) _ none _) _ :=
    textsFound_findsMany hfilled (fun _ => Store.tokenWays_of_replay) htokens
  have hfollowed : foundWithin (setting.withCap none) (room + 1) [] name
      = ruleFound (setting.withCap none) (foundWithin (setting.withCap none) room [name]) name
        (.template template) :=
    foundWithin_of_rule? hrule List.not_mem_nil
  rw [hfollowed, length_namePlans_succ hrule, Store.ways_eq]
  exact ⟨_, bind_eq_ok.2 ⟨found, hfound, rfl⟩, hmany⟩

end Distribution

section Template

variable {store : Store} {limit : Bound} {openRangesInfinite : Bool} {name : String}
  {template : Rule.Template} {depth places : ℕ}

open Distribution in
/-- Where there is room for all outcomes, all of them are told. -/
theorem ofRule_template (haccepted : store.Accepted)
    (hrule : store.rule? name = some (.template template)) (h : store.IsStaticBelow name)
    (hlimit : limit.value = depth + 1)
    (hplaces : (namePlans store (depth + 1) name).length ≤ places) :
    ∃ distribution,
      ofRule (.capped store limit (.ofInt places) openRangesInfinite) false name
        = .ok distribution ∧
      distribution.outcomes.length = (namePlans store (depth + 1) name).length ∧
      ¬LeavesOut distribution.warnings := by
  let setting := Setting.capped store limit (.ofInt places) openRangesInfinite
  obtain ⟨full, hfull, hmany⟩ : FindsMany (foundWithin (setting.withCap none) (depth + 1) [] name)
      (namePlans store (depth + 1) name).length := template_findsMany h hrule
  obtain ⟨first, -, hnonempty⟩ :=
    foundWithin_findsFirst Nat.one_pos haccepted (depth + 1) [] name full hfull
  have hfull_pos := List.length_pos_iff.2 hnonempty.nonempty
  have hplaces_pos : 0 < places := by omega
  obtain ⟨found, hfound, hfirst⟩ :=
    foundWithin_findsFirst hplaces_pos haccepted (depth + 1) [] name full hfull
  obtain ⟨hlength, huncut⟩ := hfirst.length_eq (by omega)
  have hshown : foundShown (.capped store limit (.ofInt places) openRangesInfinite) name name
      = .ok found := by
    have hdepth : limit.value.toNat = depth + 1 := by omega
    rw [foundShown_eq_foundWithin, Setting.capped, hdepth]
    exact hfound
  have hname : (Setting.capped store limit (.ofInt places) openRangesInfinite).store.hasName name
      = true := Store.exists_rule?_iff.1 ⟨_, hrule⟩
  let distribution : Distribution :=
    { name, warnings := found.warnings,
      outcomes := found.outcomes.mergeSort fun a b => !a.2.lt b.2 }
  refine ⟨distribution, ?_, ?_, huncut⟩
  · simp only [ofRule, ofRuleShown, reportedShown, hname, hshown]
    rfl
  · rw [List.length_mergeSort, hlength, hmany]

/-- Where no name is too deep, every expansion of the template's token that ends goes one of the
ways that its outcomes are for. -/
theorem expandToken_follows_template (haccepted : store.Accepted)
    (hrule : store.rule? name = some (.template template)) (h : store.IsStaticBelow name)
    (hreplay : isReplay name = false) (hdepth : store.names.length ≤ depth) (expansionLimit : ℤ)
    (room : ℕ) :
    Follows store (namePlans store depth name)
      (Engine.expandToken (Engine.expandWithin expansionLimit room) name) := by
  have hcircle : store.NoCircle Rule.texts name :=
    h.noCircle.mono fun _ => List.subset_append_left _ _
  have hnest : store.NestsWithin Rule.texts depth name :=
    (Store.nestsWithin_of_noCircle hcircle).mono hdepth
  refine namePlans_follow haccepted hreplay ?_ hnest expansionLimit room
  intro other rule hreaches hother
  rcases h.eq_or_static (hreaches.mono fun _ => List.subset_append_left _ _) with
    rfl | ⟨values, hstatic, hne⟩
  · rw [hrule] at hother
    cases hother
    trivial
  · rw [hstatic] at hother
    cases hother
    exact hne

/-- In how many ways the open names of a template can be given one value each, and each value can be
expanded once. -/
def Store.choiceWays (store : Store) (depth : ℕ) (template : Rule.Template) : ℕ :=
  (template.openNames.map fun name =>
    (((template.values? name).getD []).map (store.ways depth)).sum).prod

theorem Rule.Template.values_ne_nil (haccepted : (Rule.template template).Accepted) {hole : String}
    (hhole : hole ∈ template.openNames) : (template.values? hole).getD [] ≠ [] := by
  obtain ⟨values, hvalues, hne⟩ := haccepted.2 hole hhole
  rw [hvalues]
  exact hne

open Complexity in
/-- A token in a value for an open name counts as many ways as it has. -/
theorem Complexity.holeToken_bounds {setting : Complexity.Setting} {hole value next : String}
    (hrule : setting.store.rule? name = some (.template template))
    (h : setting.store.IsStaticBelow name) (hhole : hole ∈ template.openNames)
    (hvalue : value ∈ (template.values? hole).getD []) (hnext : next ∈ Segment.names value) :
    Count.Bounds (exactToken setting depth [name] next) (metToken setting depth [name] next)
      (setting.store.tokenWays depth next) := by
  have hcounted : value ∈ (Rule.template template).countedTexts :=
    List.mem_flatMap.2 ⟨hole, hhole, hvalue⟩
  have hrefers (hreplay : isReplay next = false) :=
    Store.refers_of_mem hrule (List.mem_append_right _ hcounted) hnext hreplay
  refine exactToken_bounds h (fun hreplay => .single (hrefers hreplay)) fun hreplay => ?_
  exact (hrefers hreplay).leads fun _ hmem => by cases hmem

open Complexity in
/-- A template over static rules is counted by the choices for its open names, as long as so many
can be counted. -/
theorem complexityOf_template_choices (haccepted : (Rule.template template).Accepted)
    (hrule : store.rule? name = some (.template template)) (h : store.IsStaticBelow name)
    (hlimit : limit.value = depth + 1) :
    (∀ complexity, complexityOf { store, limit, openRangesInfinite } [] name = .ok complexity →
        complexity.count = .finite (store.choiceWays depth template)) ∧
      ((∃ complexity, complexityOf { store, limit, openRangesInfinite } [] name = .ok complexity) ↔
        store.choiceWays depth template < 2 ^ 1024 - 2 ^ 970) := by
  let setting : Complexity.Setting := { store, limit, openRangesInfinite }
  have hranges : ∀ other range, store.Reaches Rule.countedTexts name other →
      store.rule? other = some (.range range) → ∃ count, range.size = .ok count := by
    intro other range hreaches hrange
    rcases h.eq_or_static (hreaches.mono fun _ => List.subset_append_right _ _) with
      rfl | ⟨values, hstatic, -⟩
    · rw [hrule] at hrange
      cases hrange
    · rw [hstatic] at hrange
      cases hrange
  have hbounds : Count.Bounds
      (exactRule setting (exactToken setting depth [name]) (.template template))
      (metRule setting (exactToken setting depth [name]) (metToken setting depth [name])
        (.template template)) (store.choiceWays depth template) := by
    rw [Store.choiceWays, Store.ways_eq]
    refine (exactChoices_bounds (fun hole => Rule.Template.values_ne_nil haccepted) ?_).checked
    intro hole hhole value hvalue next hnext
    exact holeToken_bounds hrule h hhole hvalue hnext
  have hsettles : Settles (tallyWithin setting depth [name] name (.template template)) _ _ :=
    tallyWithin_settles hrule hranges
  obtain ⟨hexact, hends, -⟩ := hsettles.answer hrule hlimit
  refine ⟨fun complexity hcomplexity => (hexact complexity hcomplexity).trans hbounds.exact, ?_⟩
  exact hends.trans (hbounds.met_lt_iff (List.mem_append_right _ (List.mem_singleton_self _)))

end Template

section Sums

variable {α : Type} {f g : α → ℕ} {items : List α}

/-- Sums of smaller terms are smaller, unless all terms are the same. -/
theorem sum_map_eq_iff (h : ∀ item ∈ items, f item ≤ g item) :
    (items.map f).sum = (items.map g).sum ↔ ∀ item ∈ items, f item = g item := by
  induction items with
  | nil => simp
  | cons item rest ih =>
    obtain ⟨hfirst, hrest⟩ := List.forall_mem_cons.1 h
    have hle : (rest.map f).sum ≤ (rest.map g).sum := List.sum_le_sum hrest
    rw [List.map_cons, List.map_cons, List.sum_cons, List.sum_cons,
      add_eq_add_iff_eq_and_eq hfirst hle, ih hrest, List.forall_mem_cons]

/-- So are products, unless a factor is zero. -/
theorem prod_map_eq_iff (hpos : ∀ item ∈ items, 0 < f item) (h : ∀ item ∈ items, f item ≤ g item) :
    (items.map f).prod = (items.map g).prod ↔ ∀ item ∈ items, f item = g item := by
  induction items with
  | nil => simp
  | cons item rest ih =>
    obtain ⟨hfirst, hrest⟩ := List.forall_mem_cons.1 h
    obtain ⟨hfirst_pos, hrest_pos⟩ := List.forall_mem_cons.1 hpos
    have hle : (rest.map f).prod ≤ (rest.map g).prod := List.prod_le_prod' hrest
    have hprod_pos : 1 ≤ (rest.map f).prod := List.one_le_prod_of_one_le fun n hn => by
      obtain ⟨other, hother, rfl⟩ := List.mem_map.1 hn
      exact hrest_pos other hother
    have hmore_pos : 0 < (rest.map g).prod := hprod_pos.trans hle
    rw [List.map_cons, List.map_cons, List.prod_cons, List.prod_cons,
      mul_eq_mul_iff_eq_and_eq_of_pos hfirst hle hfirst_pos hmore_pos, ih hrest_pos hrest,
      List.forall_mem_cons]

end Sums

section Comparison

variable {store : Store} {template : Rule.Template} {depth : ℕ}

/-- Filled as picked, a template can be expanded in as many ways as the picked values, each as often
as its name occurs. -/
theorem Store.ways_fillAll (hreads : template.ReadsAsPicked) {picks : List (String × String)}
    (hpicks : picks ∈ template.picks template.openNames) :
    store.ways depth (fillAll picks template.template)
      = (picks.map fun pick =>
        store.ways depth pick.2 ^ (Segment.names template.template).count pick.1).prod := by
  have hkeys := Rule.Template.map_fst_of_mem_picks hpicks
  have hnames : ∀ name ∈ Segment.names template.template,
      ((((picks.lookup name).map Segment.names).getD [name]).map (store.tokenWays depth)).prod
        = ((picks.lookup name).map (store.ways depth)).getD 1 := by
    intro name hname
    cases hpicked : picks.lookup name with
    | some value => exact Store.ways_eq_prod.symm
    | none =>
      have hreplay : isReplay name = true := by
        by_contra hopen
        have hmem : name ∈ template.openNames :=
          Rule.Template.mem_openNames.2 ⟨Segment.mem_names.1 hname, by simpa using hopen⟩
        rw [← hkeys] at hmem
        obtain ⟨pick, hpick, rfl⟩ := List.mem_map.1 hmem
        exact absurd rfl (bne_iff_ne.1 (List.lookup_eq_none_iff.1 hpicked pick hpick))
      simpa using Store.tokenWays_of_replay hreplay
  rw [Store.ways_eq_prod, hreads picks hpicks, List.map_flatMap, List.flatMap_def,
    List.prod_flatten, List.map_map, ← prod_lookup_eq (hkeys ▸ Rule.Template.nodup_openNames)]
  exact congrArg List.prod (List.map_congr_left hnames)

/-- In how many ways, if each value is expanded anew at every place of its name. -/
def Store.placeWays (store : Store) (depth : ℕ) (template : Rule.Template) : ℕ :=
  (template.openNames.map fun name => (((template.values? name).getD []).map fun value =>
    store.ways depth value ^ (Segment.names template.template).count name).sum).prod

theorem eq_pow_iff {ways occurrences : ℕ} (hways : 0 < ways) (hoccurs : 0 < occurrences) :
    ways = ways ^ occurrences ↔ occurrences = 1 ∨ ways = 1 := by
  rcases Nat.lt_or_ge 1 ways with hmany | hone
  · have hpow : ways = ways ^ occurrences ↔ occurrences = 1 := by
      constructor
      · intro heq
        refine Nat.pow_right_injective hmany ?_
        change ways ^ occurrences = ways ^ 1
        rw [← heq, Nat.pow_one]
      · rintro rfl
        exact (Nat.pow_one ways).symm
    rw [hpow]
    exact (or_iff_left (by omega)).symm
  · obtain rfl : ways = 1 := by omega
    simp

/-- The choices for the open names are no more than the ways to expand what is filled, and as many
only if no value that goes several ways is put in at several places. -/
theorem Store.choiceWays_le (haccepted : (Rule.template template).Accepted)
    (hpos : ∀ hole ∈ template.openNames, ∀ value ∈ (template.values? hole).getD [],
      0 < store.ways depth value) :
    store.choiceWays depth template ≤ store.placeWays depth template ∧
      (store.choiceWays depth template = store.placeWays depth template ↔
        ∀ hole ∈ template.openNames, ∀ value ∈ (template.values? hole).getD [],
          (Segment.names template.template).count hole = 1 ∨ store.ways depth value = 1) := by
  have hoccurs : ∀ hole ∈ template.openNames,
      0 < (Segment.names template.template).count hole := by
    intro hole hhole
    exact List.count_pos_iff.2 (Segment.mem_names.2 (Rule.Template.mem_openNames.1 hhole).1)
  have hvalue : ∀ hole ∈ template.openNames, ∀ value ∈ (template.values? hole).getD [],
      store.ways depth value
        ≤ store.ways depth value ^ (Segment.names template.template).count hole :=
    fun hole hhole value _ => Nat.le_self_pow (hoccurs hole hhole).ne' _
  have hhole : ∀ hole ∈ template.openNames,
      (((template.values? hole).getD []).map (store.ways depth)).sum
        ≤ (((template.values? hole).getD []).map fun value =>
          store.ways depth value ^ (Segment.names template.template).count hole).sum :=
    fun hole hhole => List.sum_le_sum (hvalue hole hhole)
  have hsum_pos : ∀ hole ∈ template.openNames,
      0 < (((template.values? hole).getD []).map (store.ways depth)).sum := by
    intro hole hmem
    obtain ⟨value, hvalue⟩ :=
      List.exists_mem_of_ne_nil _ (Rule.Template.values_ne_nil haccepted hmem)
    exact (hpos hole hmem value hvalue).trans_le (List.le_sum_of_mem (List.mem_map_of_mem hvalue))
  refine ⟨List.prod_le_prod' hhole, ?_⟩
  rw [Store.choiceWays, Store.placeWays, prod_map_eq_iff hsum_pos hhole]
  refine forall₂_congr fun hole hmem => ?_
  rw [sum_map_eq_iff (hvalue hole hmem)]
  refine forall₂_congr fun value hvalue => ?_
  exact eq_pow_iff (hpos hole hmem value hvalue) (hoccurs hole hmem)

end Comparison

/-- A template over static rules is counted by the choices for its open names, if so many can be
counted, and there is an outcome for each way to expand it. If it reads as picked, each value goes
its ways anew at every place of its name: the outcomes are no fewer than counted, and as many just
if no value that goes several ways is put in at several places. -/
theorem template_count_le_outcomes {store : Store} {limit : Bound} {openRangesInfinite : Bool}
    {name : String} {template : Rule.Template} {depth places : ℕ} (haccepted : store.Accepted)
    (hrule : store.rule? name = some (.template template)) (hbelow : store.IsStaticBelow name)
    (hlimit : limit.value = depth + 1)
    (hplaces : (namePlans store (depth + 1) name).length ≤ places) :
    ((∀ complexity, complexityOf { store, limit, openRangesInfinite } [] name = .ok complexity →
        complexity.count = .finite (store.choiceWays depth template)) ∧
      ((∃ complexity, complexityOf { store, limit, openRangesInfinite } [] name = .ok complexity) ↔
        store.choiceWays depth template < 2 ^ 1024 - 2 ^ 970)) ∧
    (∃ distribution,
      Distribution.ofRule (.capped store limit (.ofInt places) openRangesInfinite) false name
        = .ok distribution ∧
      distribution.outcomes.length = (namePlans store (depth + 1) name).length ∧
      ¬Distribution.LeavesOut distribution.warnings) ∧
    (isReplay name = false → store.names.length ≤ depth + 1 → ∀ expansionLimit room,
      Follows store (namePlans store (depth + 1) name)
        (Engine.expandToken (Engine.expandWithin expansionLimit room) name)) ∧
    (template.ReadsAsPicked →
      (namePlans store (depth + 1) name).length = store.placeWays depth template ∧
      store.choiceWays depth template ≤ (namePlans store (depth + 1) name).length ∧
      (store.choiceWays depth template = (namePlans store (depth + 1) name).length ↔
        ∀ hole ∈ template.openNames, ∀ value ∈ (template.values? hole).getD [],
          (Segment.names template.template).count hole = 1 ∨ store.ways depth value = 1)) := by
  have htemplate : (Rule.template template).Accepted := Store.accepted_of_rule? haccepted hrule
  refine ⟨complexityOf_template_choices htemplate hrule hbelow hlimit,
    ofRule_template haccepted hrule hbelow hlimit hplaces,
    expandToken_follows_template haccepted hrule hbelow, fun hreads => ?_⟩
  have hplans : (namePlans store (depth + 1) name).length
      = store.placeWays depth template := by
    rw [length_namePlans_succ hrule, Rule.texts, Rule.Template.fillings_eq_map, List.map_map,
      Store.placeWays, ← Rule.Template.sum_picks]
    refine congrArg List.sum (List.map_congr_left fun picks hpicks => ?_)
    exact Store.ways_fillAll hreads hpicks
  have hpos : ∀ hole ∈ template.openNames, ∀ value ∈ (template.values? hole).getD [],
      0 < store.ways depth value := by
    intro hole hhole value hvalue
    have htokens : ∀ n ∈ (Segment.names value).map (store.tokenWays depth), 1 ≤ n := by
      intro n hn
      obtain ⟨next, hnext, rfl⟩ := List.mem_map.1 hn
      let setting : Complexity.Setting := { store, limit, openRangesInfinite }
      have hbounds : Count.Bounds (Complexity.exactToken setting depth [name] next) _ _ :=
        Complexity.holeToken_bounds hrule hbelow hhole hvalue hnext
      exact hbounds.pos
    rw [Store.ways_eq_prod]
    exact List.one_le_prod_of_one_le htokens
  rw [hplans]
  exact ⟨rfl, Store.choiceWays_le htemplate hpos⟩

/-- Each name at one place. -/
def shownTemplate : Rule.Template where
  template := "%coin% shows %side%"
  choices := [(.text "coin", ["dime", "penny"]), (.text "side", ["%toss%", "edge"])]

/-- One name at two places, each of which gets a toss of its own. -/
def twiceTemplate : Rule.Template where
  template := "%side% %side%"
  choices := [(.text "side", ["%toss%"])]

def coinStore : Store := ⟨[
  { name := "shown", rule := .template shownTemplate },
  { name := "twice", rule := .template twiceTemplate },
  { name := "toss", rule := .static { values := ["heads", "tails"] } }]⟩

open Segment in
theorem coinStore_split :
    split shownTemplate.template = [token "coin", literal " shows ", token "side"] ∧
    split twiceTemplate.template = [token "side", literal " ", token "side"] := by decide +kernel

theorem shownTemplate_openNames : shownTemplate.openNames = ["coin", "side"] := by
  rw [Rule.Template.openNames, tokenNames, coinStore_split.1]
  decide

theorem twiceTemplate_openNames : twiceTemplate.openNames = ["side"] := by
  rw [Rule.Template.openNames, tokenNames, coinStore_split.2]
  decide

theorem coinStore_accepted : coinStore.Accepted := by
  intro entry hmem
  simp only [coinStore, List.mem_cons, List.not_mem_nil, or_false] at hmem
  rcases hmem with rfl | rfl | rfl
  · refine ⟨by decide, by decide, fun name hname => ?_⟩
    rw [shownTemplate_openNames, List.mem_cons, List.mem_singleton] at hname
    rcases hname with rfl | rfl
    · exact ⟨["dime", "penny"], rfl, by decide⟩
    · exact ⟨["%toss%", "edge"], rfl, by decide⟩
  · refine ⟨by decide, by decide, fun name hname => ?_⟩
    rw [twiceTemplate_openNames, List.mem_singleton] at hname
    subst hname
    exact ⟨["%toss%"], rfl, by decide⟩
  · exact ⟨by decide, trivial⟩

theorem coinStore_refers {name other : String} (h : coinStore.Refers Rule.namedTexts name other) :
    name ≠ "toss" ∧ other = "toss" := by
  have hnamed : (∀ text ∈ (Rule.template shownTemplate).namedTexts, ∀ token ∈ Segment.names text,
        token = "toss") ∧
      (∀ text ∈ (Rule.template twiceTemplate).namedTexts, ∀ token ∈ Segment.names text,
        token = "toss") ∧
      ∀ text ∈ (Rule.static { values := ["heads", "tails"] }).namedTexts,
        Segment.names text = [] := by decide +kernel
  obtain ⟨hshown, htwice, htoss⟩ := hnamed
  obtain ⟨rule, hrule, text, htext, htoken, -⟩ := h
  have htoken := Segment.mem_names.2 htoken
  obtain ⟨entry, hentry, rfl, rfl⟩ := Store.exists_entry_of_rule? hrule
  simp only [coinStore, List.mem_cons, List.not_mem_nil, or_false] at hentry
  rcases hentry with rfl | rfl | rfl
  · exact ⟨by decide, hshown text htext other htoken⟩
  · exact ⟨by decide, htwice text htext other htoken⟩
  · rw [htoss text htext] at htoken
    cases htoken

theorem coinStore_isStaticBelow (name : String) : coinStore.IsStaticBelow name where
  static := by
    intro other h
    obtain ⟨before, -, hlast⟩ := Relation.TransGen.tail'_iff.1 h
    rw [(coinStore_refers hlast).2]
    exact ⟨["heads", "tails"], rfl, by decide⟩
  noCircle := by
    intro other _ hcircle
    obtain ⟨first, hfirst, -⟩ := Relation.TransGen.head'_iff.1 hcircle
    obtain ⟨last, -, hlast⟩ := Relation.TransGen.tail'_iff.1 hcircle
    exact (coinStore_refers hfirst).1 (coinStore_refers hlast).2

open Segment in
theorem shownTemplate_readsAsPicked : shownTemplate.ReadsAsPicked := by
  have hsplit := coinStore_split.1
  have hspaced : Spaced (split shownTemplate.template) := by
    rw [hsplit]
    simp [Spaced, IsSetOff, IsName]
  have htoss : Paired (tokenText "toss") := paired_tokenText (by simp [IsName])
  apply Rule.Template.readsAsPicked
  · intro part hpart
    rw [hsplit] at hpart
    simp only [List.mem_cons, List.not_mem_nil, or_false, reduceCtorEq, false_or,
      literal.injEq] at hpart
    subst hpart
    decide
  · intro name hname value hvalue
    rw [shownTemplate_openNames, List.mem_cons, List.mem_singleton] at hname
    rcases hname with rfl | rfl
    · have hplain : ∀ value ∈ ["dime", "penny"], '%' ∉ value.toList := by decide
      exact paired_of_notMem (hplain value hvalue)
    · rcases List.mem_cons.1 hvalue with rfl | hvalue
      · exact htoss
      · cases List.mem_singleton.1 hvalue
        exact paired_of_notMem (by decide)
  · have hplain : ∀ picks ∈ shownTemplate.picks shownTemplate.openNames,
        ∀ pick ∈ picks.dropLast, '%' ∉ pick.2.toList := by
      rw [shownTemplate_openNames]
      decide
    intro picks hpicks
    exact Rule.Template.fillsInPlace_of_spaced hspaced hpicks (hplain picks hpicks)

theorem coinStore_ways :
    (namePlans coinStore 5 "shown").length = 6 ∧ coinStore.choiceWays 4 shownTemplate = 6 ∧
    (namePlans coinStore 5 "twice").length = 4 ∧ coinStore.choiceWays 4 twiceTemplate = 2 ∧
    6 < 2 ^ 1024 - 2 ^ 970 := by
  decide +kernel

theorem template_count_shown :
    (∃ complexity, complexityOf ⟨coinStore, 5, false⟩ [] "shown" = .ok complexity ∧
      complexity.count = .finite 6) ∧
    (∃ distribution, Distribution.ofRule (.capped coinStore 5 (.ofInt 100) false) false "shown"
        = .ok distribution ∧ distribution.outcomes.length = 6) ∧
    shownTemplate.ReadsAsPicked ∧ coinStore.placeWays 4 shownTemplate = 6 := by
  obtain ⟨hplans, hchoices, -, -, hfits⟩ := coinStore_ways
  have hreads := shownTemplate_readsAsPicked
  have hlimit : (5 : Bound).value = ((4 : ℕ) : ℤ) + 1 := rfl
  have hplaces : (namePlans coinStore 5 "shown").length ≤ 100 := by omega
  have hrule : coinStore.rule? "shown" = some (.template shownTemplate) := rfl
  obtain ⟨⟨hcount, hends⟩, ⟨distribution, hdistribution, hlength, -⟩, -, hplace⟩ :=
    template_count_le_outcomes coinStore_accepted hrule (coinStore_isStaticBelow "shown") hlimit
      hplaces
  obtain ⟨complexity, hcomplexity⟩ := hends.2 (hchoices.trans_lt hfits)
  refine ⟨⟨complexity, hcomplexity, ?_⟩, ⟨distribution, hdistribution, hlength.trans hplans⟩,
    hreads, ?_⟩
  · rw [hcount complexity hcomplexity, hchoices]
  · rw [← (hplace hreads).1, hplans]

theorem template_count_twice : coinStore.Accepted ∧
    coinStore.rule? "twice" = some (.template twiceTemplate) ∧ coinStore.IsStaticBelow "twice" ∧
    (∃ complexity, complexityOf ⟨coinStore, 5, false⟩ [] "twice" = .ok complexity ∧
      complexity.count = .finite 2) ∧
    ∃ distribution, Distribution.ofRule (.capped coinStore 5 (.ofInt 100) false) false "twice"
        = .ok distribution ∧ distribution.outcomes.length = 4 ∧
      ¬Distribution.LeavesOut distribution.warnings := by
  obtain ⟨-, -, hplans, hchoices, hfits⟩ := coinStore_ways
  have hlimit : (5 : Bound).value = ((4 : ℕ) : ℤ) + 1 := rfl
  have hplaces : (namePlans coinStore 5 "twice").length ≤ 100 := by omega
  have hrule : coinStore.rule? "twice" = some (.template twiceTemplate) := rfl
  have hbelow := coinStore_isStaticBelow "twice"
  have htemplate := Store.accepted_of_rule? coinStore_accepted hrule
  obtain ⟨hcount, hends⟩ := complexityOf_template_choices htemplate hrule hbelow hlimit
  obtain ⟨complexity, hcomplexity⟩ := hends.2 (hchoices.trans_lt (Nat.lt_trans (by decide) hfits))
  obtain ⟨distribution, hdistribution, hlength, huncut⟩ :=
    ofRule_template coinStore_accepted hrule hbelow hlimit hplaces
  refine ⟨coinStore_accepted, hrule, hbelow, ⟨complexity, hcomplexity, ?_⟩,
    ⟨distribution, hdistribution, hlength.trans hplans, huncut⟩⟩
  rw [hcount complexity hcomplexity, hchoices]

end TextGrammar
