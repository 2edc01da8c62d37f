import TextGrammar.Proofs.Outcomes.Capped
import TextGrammar.Proofs.Outcomes.Chance
import TextGrammar.Proofs.Outcomes.Ending
import TextGrammar.Proofs.Rule.Weights

/-! The outcomes of a rule share a probability of one, but for what a cap lets drop. -/
namespace TextGrammar.Distribution

/-- What outcomes weigh together. -/
def mass (outcomes : List (String × ℚ)) : ℚ := (outcomes.map Prod.snd).sum

variable {outcomes left right : List (String × ℚ)} {text : String} {weight : ℚ}

@[simp] theorem mass_nil : mass [] = 0 := rfl

@[simp] theorem mass_cons : mass ((text, weight) :: outcomes) = weight + mass outcomes := by
  simp [mass]

theorem mass_append : mass (left ++ right) = mass left + mass right := by
  simp [mass]

theorem mass_flatMap {α : Type} {as : List α} {f : α → List (String × ℚ)} :
    mass (as.flatMap f) = (as.map fun a => mass (f a)).sum := by
  induction as with
  | nil => rfl
  | cons a as ih => rw [List.flatMap_cons, mass_append, ih, List.map_cons, List.sum_cons]

theorem mass_map_text (f : String → String) :
    mass (outcomes.map fun (text, weight) => (f text, weight)) = mass outcomes := by
  simp [mass, Function.comp_def]

theorem mass_nonneg (h : ∀ outcome ∈ outcomes, 0 ≤ outcome.2) : 0 ≤ mass outcomes := by
  apply List.sum_nonneg
  intro weight hw
  obtain ⟨outcome, hm, rfl⟩ := List.mem_map.1 hw
  exact h outcome hm

/-- Every left outcome is split among the right ones. -/
theorem mass_pairs {join : String → String → String} :
    mass (pairs join left right) = mass left * mass right := by
  induction left with
  | nil => simp
  | cons outcome left ih =>
    obtain ⟨a, p⟩ := outcome
    have hrow : mass (right.map fun (b, q) => (join a b, p * q)) = p * mass right := by
      rw [mass, mass, ← List.sum_map_mul_left, List.map_map]
      rfl
    rw [pairs_cons, mass_append, ih, hrow, mass_cons, add_mul]

theorem pairs_nonneg {join : String → String → String} (hl : ∀ outcome ∈ left, 0 ≤ outcome.2)
    (hr : ∀ outcome ∈ right, 0 ≤ outcome.2) :
    ∀ outcome ∈ pairs join left right, 0 ≤ outcome.2 := by
  intro outcome hm
  obtain ⟨⟨a, p⟩, ha, hm⟩ := List.mem_flatMap.1 hm
  obtain ⟨⟨b, q⟩, hb, rfl⟩ := List.mem_map.1 hm
  exact mul_nonneg (hl _ ha) (hr _ hb)

theorem mem_of_mem_fit {room : Room} {outcome : String × ℚ} (h : outcome ∈ (fit room outcomes).1) :
    outcome ∈ outcomes := by
  cases room with
  | none => exact h
  | some room => exact List.mem_of_mem_take h

theorem mass_fit_le {room : Room} (h : ∀ outcome ∈ outcomes, 0 ≤ outcome.2) :
    mass (fit room outcomes).1 ≤ mass outcomes := by
  cases room with
  | none => exact le_rfl
  | some room =>
    have hdrop : 0 ≤ mass (outcomes.drop room) :=
      mass_nonneg fun outcome hm => h outcome (List.mem_of_mem_drop hm)
    have hsplit := @mass_append (outcomes.take room) (outcomes.drop room)
    rw [List.take_append_drop] at hsplit
    change mass (outcomes.take room) ≤ mass outcomes
    linarith

theorem fit_eq_self {room : Room} (h : (fit room outcomes).2 = false) :
    (fit room outcomes).1 = outcomes := by
  cases room with
  | none => rfl
  | some room =>
    have hle : outcomes.length ≤ room := by simpa [fit] using h
    exact List.take_of_length_le hle

/-- Outcomes that split a weight: none is negative, and together they come to all of it if nothing
was left out, and never to more. -/
structure Found.Splits (found : Found ℚ) (weight : ℚ) : Prop where
  nonneg : ∀ outcome ∈ found.outcomes, 0 ≤ outcome.2
  mass_le : mass found.outcomes ≤ weight
  mass_eq : ¬found.IsTruncated → mass found.outcomes = weight

namespace Found

variable {found left right : Found ℚ} {first second : ℚ}

theorem splits_single {warnings : List Warning} (h : 0 ≤ weight) :
    Found.Splits { outcomes := [(text, weight)], warnings } weight where
  nonneg := by simpa using h
  mass_le := by simp
  mass_eq := by simp

theorem Splits.weight_nonneg (h : found.Splits weight) : 0 ≤ weight :=
  (mass_nonneg h.nonneg).trans h.mass_le

theorem Splits.map_text (h : found.Splits weight) (f : String → String) :
    Splits { found with outcomes := found.outcomes.map fun (text, weight) => (f text, weight) }
      weight where
  nonneg := by
    intro outcome hm
    obtain ⟨before, hb, rfl⟩ := List.mem_map.1 hm
    exact h.nonneg before hb
  mass_le := (mass_map_text f).trans_le h.mass_le
  mass_eq ht := (mass_map_text f).trans (h.mass_eq ht)

/-- A cap that leaves something out of a product says so. -/
theorem Splits.times {cap : Bound} {join : String → String → String} (hl : left.Splits first)
    (hr : right.Splits second) : (left.times (some cap) join right).Splits (first * second) := by
  have hnonneg : ∀ outcome ∈ pairs join left.outcomes right.outcomes, 0 ≤ outcome.2 :=
    pairs_nonneg hl.nonneg hr.nonneg
  have hmass := @mass_pairs left.outcomes right.outcomes join
  simp only [Found.times, product_eq_fit]
  refine ⟨?_, ?_, ?_⟩
  · intro outcome hm
    exact hnonneg outcome (mem_of_mem_fit hm)
  · calc mass (fit (Cap.room (some cap)) (pairs join left.outcomes right.outcomes)).1
        ≤ mass left.outcomes * mass right.outcomes := hmass ▸ mass_fit_le hnonneg
      _ ≤ first * second :=
        mul_le_mul hl.mass_le hr.mass_le (mass_nonneg hr.nonneg) hl.weight_nonneg
  · intro ht
    simp only [IsTruncated, leavesOut_append, leavesOut_ite, not_or, Bool.not_eq_true] at ht
    obtain ⟨⟨hleft, hright⟩, hfits⟩ := ht
    rw [fit_eq_self hfits, hmass, hl.mass_eq hleft, hr.mass_eq hright]

/-- Texts one after the other: what the first one splits and what the others split. -/
theorem Splits.followedBy {cap : Bound} {room : Room} (hl : left.Splits first)
    (hr : right.Splits second) :
    (left.followedBy (some cap) room right).Splits (first + second) := by
  refine ⟨?_, ?_, ?_⟩
  · intro outcome hm
    rcases List.mem_append.1 hm with hm | hm
    · exact hl.nonneg outcome (mem_of_mem_fit hm)
    · exact hr.nonneg outcome hm
  · have hfit : mass (fit room left.outcomes).1 ≤ first :=
      (mass_fit_le hl.nonneg).trans hl.mass_le
    exact mass_append.trans_le (add_le_add hfit hr.mass_le)
  · intro ht
    simp only [IsTruncated, Found.followedBy, leavesOut_append, leavesOut_ite, not_or,
      Bool.not_eq_true] at ht
    obtain ⟨⟨hleft, hfits⟩, hright⟩ := ht
    simp only [Found.followedBy, fit_eq_self hfits]
    rw [mass_append, hl.mass_eq hleft, hr.mass_eq hright]

end Found

/-- A walk whose outcomes split a weight, if it ends. -/
def WalkSplits (walk : Walk (Found ℚ)) (weight : ℚ) : Prop :=
  ∀ found, walk = .ok found → found.Splits weight

section Texts

variable {setting : Setting ℚ} {cap : Bound} {nested : String → Walk (Found ℚ)}

theorem segmentsFound_splits (hc : setting.cap = some cap) (hn : ∀ name, WalkSplits (nested name) 1)
    (segments : List Segment) {found : Found ℚ} (h : found.Splits weight) :
    WalkSplits (segmentsFound setting nested found segments) weight := by
  induction segments generalizing found with
  | nil =>
    rintro result ⟨⟩
    exact h
  | cons segment rest ih =>
    cases segment with
    | literal text => exact ih (h.map_text fun head => head ++ text)
    | token name =>
      simp only [segmentsFound]
      split
      · exact ih (h.map_text fun head => head ++ Segment.tokenText name)
      · intro result hf
        obtain ⟨right, hright, hf⟩ := bind_eq_ok.1 hf
        have htimes : (found.times (some cap) (· ++ ·) right).Splits (weight * 1) :=
          h.times (hn name right hright)
        rw [mul_one, ← hc] at htimes
        exact ih htimes result hf

theorem textsFound_splits (hc : setting.cap = some cap) (hn : ∀ name, WalkSplits (nested name) 1)
    (texts : List (String × ℚ)) (ht : ∀ entry ∈ texts, 0 ≤ entry.2) (room : Room) :
    WalkSplits (textsFound setting nested room texts) (mass texts) := by
  induction texts generalizing room with
  | nil =>
    rintro found ⟨⟩
    exact ⟨by simp, le_rfl, fun _ => rfl⟩
  | cons entry rest ih =>
    obtain ⟨text, weight⟩ := entry
    obtain ⟨hweight, hrest⟩ := List.forall_mem_cons.1 ht
    intro found hf
    by_cases hroom : room = some 0
    · subst hroom
      rw [textsFound_cons_of_no_room, hc] at hf
      cases hf
      exact ⟨by simp, mass_nonneg ht, fun hcut => absurd leavesOut_cut hcut⟩
    · obtain ⟨-, first, others, hfirst, hothers, rfl⟩ := (textsFound_cons_eq_ok hroom).1 hf
      have hsplits := segmentsFound_splits hc hn _ (Found.splits_single hweight) first hfirst
      rw [mass_cons, hc]
      exact hsplits.followedBy (ih hrest _ others hothers)

end Texts

theorem evenly_nonneg {share : ℚ} (h : 0 ≤ share) {values : List String} :
    ∀ entry ∈ evenly share values, 0 ≤ entry.2 := by
  intro entry hm
  obtain ⟨value, -, rfl⟩ := List.mem_map.1 hm
  positivity

theorem mass_evenly {share : ℚ} {values : List String} (h : values ≠ []) :
    mass (evenly share values) = share := by
  have hlength : (values.length : ℚ) ≠ 0 := by
    exact_mod_cast (List.length_pos_iff.2 h).ne'
  simp only [mass, evenly, List.map_map, Function.comp_def, List.map_const', List.sum_replicate,
    nsmul_eq_mul]
  exact mul_div_cancel₀ share hlength

/-- Each branch takes an even share, and splits it evenly. -/
theorem mass_branches {branches : List Branch} (h : branches ≠ [])
    (hv : ∀ branch ∈ branches, branch.values ≠ []) :
    mass (branches.flatMap fun branch => evenly (1 / (branches.length : ℚ)) branch.values) = 1 := by
  have hlength : (branches.length : ℚ) ≠ 0 := by
    exact_mod_cast (List.length_pos_iff.2 h).ne'
  have hshare : (branches.map fun branch => mass (evenly (1 / (branches.length : ℚ)) branch.values))
      = branches.map fun _ => 1 / (branches.length : ℚ) :=
    List.map_congr_left fun branch hb => mass_evenly (hv branch hb)
  rw [mass_flatMap, hshare, List.map_const', List.sum_replicate, nsmul_eq_mul]
  exact mul_div_cancel₀ 1 hlength

section Weights

variable {setting : Setting ℚ} {rule : Rule.Weighted}

theorem weightedValues_exact (hw : setting.ofWeight = Double.toRat) :
    weightedValues setting rule.values rule.weights
      = (rule.values.zip rule.weights).map fun (value, weight) =>
          (value, weight.toRat / (rule.weights.map Double.toRat).sum) := by
  simp only [weightedValues, hw, ← List.sum_eq_foldl]
  rw [List.zip_map_right, List.map_map]
  rfl

theorem weightedValues_nonneg (hw : setting.ofWeight = Double.toRat)
    (ha : (Rule.weighted rule).Accepted) (hf : (Rule.weighted rule).HasFiniteWeights) :
    ∀ entry ∈ weightedValues setting rule.values rule.weights, 0 ≤ entry.2 := by
  have htotal := Rule.Weighted.total_pos ha hf
  rw [weightedValues_exact hw]
  intro entry hm
  obtain ⟨⟨value, weight⟩, hv, rfl⟩ := List.mem_map.1 hm
  exact div_nonneg (ha.2.2.1 weight (List.of_mem_zip hv).2).1 htotal.le

/-- The weights are shares of their total, which is not zero. -/
theorem mass_weightedValues (hw : setting.ofWeight = Double.toRat)
    (ha : (Rule.weighted rule).Accepted) (hf : (Rule.weighted rule).HasFiniteWeights) :
    mass (weightedValues setting rule.values rule.weights) = 1 := by
  have htotal := Rule.Weighted.total_pos ha hf
  have hweights : (rule.values.zip rule.weights).map Prod.snd = rule.weights :=
    List.map_snd_zip ha.2.1.ge
  calc mass (weightedValues setting rule.values rule.weights)
      = ((rule.values.zip rule.weights).map fun entry =>
          entry.2.toRat / (rule.weights.map Double.toRat).sum).sum := by
        rw [weightedValues_exact hw, mass, List.map_map]
        rfl
    _ = (((rule.values.zip rule.weights).map Prod.snd).map fun weight =>
          weight.toRat / (rule.weights.map Double.toRat).sum).sum := by
        rw [List.map_map]
        rfl
    _ = (rule.weights.map Double.toRat).sum / (rule.weights.map Double.toRat).sum := by
        rw [hweights]
        simp only [div_eq_mul_inv, List.sum_map_mul_right]
    _ = 1 := div_self htotal.ne'

end Weights

section Rules

variable {setting : Setting ℚ} {cap : ℕ} {nested : String → Walk (Found ℚ)}

theorem templateTexts_splits (hc : setting.cap = .whole cap) {rule : Rule.Template}
    {names : List String}
    (hv : ∀ name ∈ names, ∃ values, rule.values? name = some values ∧ values ≠ [])
    {found : Found ℚ} (h : found.Splits weight) :
    (templateTexts setting rule found names).Splits weight := by
  induction names generalizing found with
  | nil => exact h
  | cons name rest ih =>
    obtain ⟨values, he, hne⟩ := hv name List.mem_cons_self
    have hvalues : Found.Splits { outcomes := evenly (1 : ℚ) values } 1 :=
      ⟨evenly_nonneg zero_le_one, (mass_evenly hne).le, fun _ => mass_evenly hne⟩
    have htimes : (found.times (some (.ofInt cap)) (fun text value => fillToken name value text)
        { outcomes := evenly (1 : ℚ) values }).Splits (weight * 1) := h.times hvalues
    rw [mul_one] at htimes
    simp only [templateTexts, he, Option.getD_some, hc]
    exact ih (fun name hm => hv name (List.mem_cons_of_mem _ hm)) htimes

theorem template_splits (hc : setting.cap = .whole cap)
    (hn : ∀ name, WalkSplits (nested name) 1) {rule : Rule.Template}
    (ha : (Rule.template rule).Accepted) (shown : String) :
    WalkSplits (ruleFound setting nested shown (.template rule)) 1 := by
  intro result hf
  have hsingle : Found.Splits { outcomes := [(rule.template, 1)] } 1 :=
    Found.splits_single zero_le_one
  have hfilled := templateTexts_splits hc ha.2 hsingle
  obtain ⟨others, hothers, hf⟩ := bind_eq_ok.1 hf
  obtain rfl := pure_eq_ok.1 hf
  have htexts := textsFound_splits hc hn _ hfilled.nonneg _ others hothers
  refine ⟨htexts.nonneg, htexts.mass_le.trans hfilled.mass_le, ?_⟩
  intro ht
  obtain ⟨htemplate, hnested⟩ := not_or.1 (mt leavesOut_append.2 ht)
  exact (htexts.mass_eq hnested).trans (hfilled.mass_eq htemplate)

/-- Each value of a range that is listed has its even share. -/
theorem rangeFound_splits (hc : setting.cap = .whole cap) {rule : Rule.Range}
    (ha : (Rule.range rule).Accepted) (shown : String) :
    WalkSplits (rangeFound setting shown rule) 1 := by
  intro result hf
  by_cases ho : (rule.step.isNone && setting.openRangesInfinite) = true
  · rw [rangeFound_of_open ho] at hf
    cases hf
    exact Found.splits_single zero_le_one
  · obtain ⟨count, hcount, -, texts, htexts, rfl⟩ := (rangeFound_eq_ok ho).1 hf
    have hpos : (0 : ℚ) < count := by exact_mod_cast Rule.Range.size_pos ha hcount
    have hlength := length_of_nthTexts htexts
    have hmass : mass (texts.map fun text => (text, 1 / (count : ℚ)))
        = texts.length * (1 / count) := by
      simp [mass, Function.comp_def]
    rw [hc, Cap.shownOf_whole] at hlength
    rw [hc]
    refine ⟨?_, ?_, ?_⟩
    · intro outcome hm
      obtain ⟨text, -, rfl⟩ := List.mem_map.1 hm
      positivity
    · have hle : (texts.length : ℚ) ≤ count := by exact_mod_cast hlength ▸ min_le_right cap count
      calc mass (texts.map fun text => (text, 1 / (count : ℚ)))
          = texts.length * (1 / count) := hmass
        _ ≤ count * (1 / count) := by gcongr
        _ = 1 := mul_div_cancel₀ 1 hpos.ne'
    · intro ht
      simp only [Found.IsTruncated, Cap.cuts_whole, leavesOut_ite, decide_eq_true_eq,
        Nat.not_lt] at ht
      rw [hmass, hlength, Nat.min_eq_right ht]
      exact mul_div_cancel₀ 1 hpos.ne'

/-- Values that are equally likely, or a token that stays. -/
theorem values_splits (hc : setting.cap = .whole cap) (hn : ∀ name, WalkSplits (nested name) 1)
    (values : List String) (shown : String) :
    WalkSplits (ruleFound setting nested shown (.static { values })) 1 := by
  simp only [ruleFound]
  split
  · rintro found ⟨⟩
    exact Found.splits_single zero_le_one
  · rename_i hv
    have hmass : mass (evenly 1 values) = 1 := mass_evenly (by simpa using hv)
    have htexts := textsFound_splits hc hn (evenly 1 values) (evenly_nonneg zero_le_one)
      setting.cap.room
    rwa [hmass] at htexts

theorem ruleFound_splits (hc : setting.cap = .whole cap) (hw : setting.ofWeight = Double.toRat)
    (hn : ∀ name, WalkSplits (nested name) 1) {rule : Rule} (ha : rule.Accepted)
    (hf : rule.HasFiniteWeights) (shown : String) :
    WalkSplits (ruleFound setting nested shown rule) 1 := by
  cases rule with
  | function rule =>
    rintro found ⟨⟩
    exact Found.splits_single zero_le_one
  | range rule => exact rangeFound_splits hc ha shown
  | template rule => exact template_splits hc hn ha shown
  | weighted rule =>
    have htexts := textsFound_splits hc hn _ (weightedValues_nonneg hw ha hf) setting.cap.room
    rwa [mass_weightedValues hw ha hf] at htexts
  | conditional rule =>
    have hnonneg : ∀ entry ∈ rule.branches.flatMap fun branch =>
        evenly (1 / (rule.branches.length : ℚ)) branch.values, 0 ≤ entry.2 := by
      intro entry hm
      obtain ⟨branch, -, hm⟩ := List.mem_flatMap.1 hm
      exact evenly_nonneg (by positivity) entry hm
    have htexts := textsFound_splits hc hn _ hnonneg setting.cap.room
    rwa [mass_branches ha.1 ha.2.1] at htexts
  | static rule => exact values_splits hc hn rule.values shown
  | sequential rule => exact values_splits hc hn rule.values shown

theorem marked_splits {label shown : String} {warning : Warning} :
    WalkSplits (.ok (marked label shown warning)) 1 := by
  rintro found ⟨⟩
  exact Found.splits_single zero_le_one

theorem nameFound_none_splits {visited : List String} {shown name : String} :
    WalkSplits (nameFound setting none visited shown name) 1 := by
  simp only [nameFound]
  split <;> exact marked_splits

theorem nameFound_some_splits (hc : setting.cap = .whole cap)
    (hw : setting.ofWeight = Double.toRat) (ha : setting.store.Accepted)
    (hf : setting.store.HasFiniteWeights) {nested : List String → String → Walk (Found ℚ)}
    (hn : ∀ visited name, WalkSplits (nested visited name) 1) {visited : List String}
    {shown name : String} : WalkSplits (nameFound setting (some nested) visited shown name) 1 := by
  simp only [nameFound]
  split
  · exact marked_splits
  · cases hrule : setting.store.rule? name with
    | none => exact marked_splits
    | some rule =>
      exact ruleFound_splits hc hw (hn _) (Store.accepted_of_rule? ha hrule)
        (Store.hasFiniteWeights_of_rule? hf hrule) shown

theorem foundWithin_splits (hc : setting.cap = .whole cap) (hw : setting.ofWeight = Double.toRat)
    (ha : setting.store.Accepted) (hf : setting.store.HasFiniteWeights) (depth : ℕ)
    (visited : List String) (name : String) :
    WalkSplits (foundWithin setting depth visited name) 1 := by
  induction depth generalizing visited name with
  | zero => exact nameFound_none_splits
  | succ depth ih => exact nameFound_some_splits hc hw ha hf ih

theorem foundShown_splits (hc : setting.cap = .whole cap) (hw : setting.ofWeight = Double.toRat)
    (ha : setting.store.Accepted) (hf : setting.store.HasFiniteWeights) (shown name : String) :
    WalkSplits (foundShown setting shown name) 1 := by
  simp only [foundShown]
  split
  · exact nameFound_none_splits
  · exact nameFound_some_splits hc hw ha hf (foundWithin_splits hc hw ha hf _)

end Rules

theorem mass_putEntry (text : String) (weight : ℚ) (entries : List (String × ℚ)) :
    mass (Table.putEntry text weight entries)
      = mass entries - (entries.lookup text).getD 0 + weight := by
  induction entries with
  | nil => simp [Table.putEntry]
  | cons entry rest ih =>
    obtain ⟨first, old⟩ := entry
    by_cases h : first = text
    · simp [Table.putEntry, h, add_comm]
    · have hne : (text == first) = false := beq_eq_false_iff_ne.2 (Ne.symm h)
      simp only [Table.putEntry, if_neg h, mass_cons, ih, List.lookup_cons, hne]
      ring

theorem getD_lookup_nonneg {entries : List (String × ℚ)} (h : ∀ entry ∈ entries, 0 ≤ entry.2) :
    0 ≤ (entries.lookup text).getD 0 := by
  cases hl : entries.lookup text with
  | none => exact le_rfl
  | some old =>
    obtain ⟨before, after, rfl, -⟩ := List.lookup_eq_some_iff.1 hl
    exact h (text, old) (List.mem_append_right _ List.mem_cons_self)

/-- Weights of the same text are added up, and none is lost. -/
theorem mass_merge : mass (merge outcomes).entries = mass outcomes := by
  have hfold (table : Table ℚ) :
      mass (outcomes.foldl addTo table).entries = mass table.entries + mass outcomes := by
    induction outcomes generalizing table with
    | nil => simp
    | cons outcome rest ih =>
      obtain ⟨text, weight⟩ := outcome
      have hadd : mass (addTo table (text, weight)).entries = mass table.entries + weight := by
        simp only [addTo, Table.put, Table.get?, mass_putEntry]
        ring
      rw [List.foldl_cons, ih, hadd, mass_cons, add_assoc]
  rw [merge_eq_foldl, hfold]
  exact zero_add _

theorem merge_nonneg (h : ∀ outcome ∈ outcomes, 0 ≤ outcome.2) :
    ∀ outcome ∈ (merge outcomes).entries, 0 ≤ outcome.2 := by
  have hfold (table : Table ℚ) (ht : ∀ entry ∈ table.entries, 0 ≤ entry.2) :
      ∀ entry ∈ (outcomes.foldl addTo table).entries, 0 ≤ entry.2 := by
    induction outcomes generalizing table with
    | nil => exact ht
    | cons outcome rest ih =>
      obtain ⟨hfirst, hrest⟩ := List.forall_mem_cons.1 h
      refine ih hrest _ ?_
      intro entry hm
      rcases Table.mem_putEntry hm with rfl | hm
      · exact add_nonneg (getD_lookup_nonneg ht) hfirst
      · exact ht entry hm
  rw [merge_eq_foldl]
  exact hfold ∅ fun _ hm => nomatch hm

/-- No text is listed twice. -/
theorem nodup_merge : (merge outcomes).names.Nodup := by
  have hfold (table : Table ℚ) (ht : table.names.Nodup) :
      (outcomes.foldl addTo table).names.Nodup := by
    induction outcomes generalizing table with
    | nil => exact ht
    | cons outcome rest ih =>
      refine ih _ ?_
      rw [addTo, Table.names_put]
      split
      · exact ht
      · rename_i hnew
        rw [← List.concat_eq_append]
        exact ht.concat hnew
  rw [merge_eq_foldl]
  exact hfold ∅ List.nodup_nil

theorem Found.Splits.merge {found : Found ℚ} (h : found.Splits weight) :
    Found.Splits { found with outcomes := (merge found.outcomes).entries } weight where
  nonneg := merge_nonneg h.nonneg
  mass_le := mass_merge.trans_le h.mass_le
  mass_eq ht := mass_merge.trans (h.mass_eq ht)

/-- A report is a distribution, or what a cap has left of one: chances that are not negative and add
up to one, or to no more. Ranges that can be computed are all that a report needs. -/
theorem reported_splits {store : Store} (ha : store.Accepted) (hf : store.HasFiniteWeights)
    {name : String} (hname : store.hasName name = true) (limit : Bound) (cap : ℕ)
    (openRangesInfinite mergeOutcomes : Bool) :
    (store.RangesComputed → ∃ report,
      reported (.exact store limit (.ofInt cap) openRangesInfinite) mergeOutcomes name
        = .ok report) ∧
      ∀ report, reported (.exact store limit (.ofInt cap) openRangesInfinite) mergeOutcomes name
          = .ok report →
        (∀ outcome ∈ report.outcomes, 0 ≤ outcome.2) ∧
        (report.outcomes.map Prod.snd).sum ≤ 1 ∧
        (¬report.IsTruncated → (report.outcomes.map Prod.snd).sum = 1) ∧
        (mergeOutcomes = true → (report.outcomes.map Prod.fst).Nodup) := by
  have hregistered : (!store.hasName name) = false := by simp [hname]
  simp only [reported, reportedShown, Setting.exact, hregistered]
  constructor
  · intro hr
    have hshown (count : ℕ) : (Cap.whole cap).shownOf count ≤ count := by
      rw [Cap.shownOf_whole]
      exact min_le_right cap count
    obtain ⟨found, hfound⟩ :
        Ends (foundShown (.exact store limit (.ofInt cap) openRangesInfinite) name name) :=
      foundShown_ends rfl hshown hr name name
    exact ⟨_, bind_eq_ok.2 ⟨found, hfound, rfl⟩⟩
  · intro report hreport
    obtain ⟨found, hfound, hreport⟩ := bind_eq_ok.1 hreport
    obtain rfl := pure_eq_ok.1 hreport
    have hsplits : found.Splits 1 := foundShown_splits rfl rfl ha hf name name found hfound
    cases mergeOutcomes with
    | false =>
      exact ⟨hsplits.nonneg, hsplits.mass_le, hsplits.mass_eq, fun h => absurd h Bool.false_ne_true⟩
    | true =>
      have hmerged := hsplits.merge
      exact ⟨hmerged.nonneg, hmerged.mass_le, hmerged.mass_eq, fun _ => nodup_merge⟩

/-- Rules that refer to themselves, to nothing, to a generator and to a range. -/
def mixedStore : Store where
  entries := [
    { name := "a", rule := .static { values := ["%a%%w%", "%missing%", "%t%"] } },
    { name := "w", rule := .weighted { values := ["%f%", "%r%"], weights := [
      .ofQuotient false 1 4, .ofQuotient false 3 4] } },
    { name := "f", rule := .function { answer := fun _ => .values [], calls := 0 } },
    { name := "r", rule := .range { low := 0, high := 2, step := some 1, kind := .integer } },
    { name := "t", rule := .template {
      template := Segment.tokenText "v", choices := [(.text "v", ["x", "%w%"])] } }]

theorem mixedStore_accepted : mixedStore.Accepted := by
  have hopen : tokenNames (Segment.tokenText "v") = ["v"] := by
    rw [tokenNames, Segment.split_tokenText (by decide) (by decide)]
    rfl
  have hrange : (Rule.range { low := 0, high := 2, step := some 1, kind := .integer }).Accepted := by
    refine ⟨trivial, trivial, rfl, ?_⟩
    rintro step ⟨⟩
    rfl
  have hweighted : (Rule.weighted { values := ["%f%", "%r%"], weights := [
      .ofQuotient false 1 4, .ofQuotient false 3 4] }).Accepted := by
    refine ⟨by decide, rfl, ?_, rfl⟩
    intro weight hm
    simp only [List.mem_cons, List.not_mem_nil, or_false] at hm
    rcases hm with rfl | rfl <;> exact ⟨Double.toRat_ofQuotient_nonneg, rfl⟩
  have htemplate : (Rule.template {
      template := Segment.tokenText "v", choices := [(.text "v", ["x", "%w%"])] }).Accepted := by
    refine ⟨by decide, ?_⟩
    intro name hm
    simp only [Rule.Template.openNames, hopen] at hm
    obtain rfl : name = "v" := by simpa using (List.mem_filter.1 hm).1
    exact ⟨["x", "%w%"], rfl, by decide⟩
  simp only [Store.Accepted, mixedStore, List.forall_mem_cons]
  exact ⟨⟨by decide, trivial⟩, ⟨by decide, hweighted⟩, ⟨by decide, trivial⟩, ⟨by decide, hrange⟩,
    ⟨by decide, htemplate⟩, fun _ h => absurd h List.not_mem_nil⟩

theorem mixedStore_hasFiniteWeights : mixedStore.HasFiniteWeights := by
  have hweights : ∀ weight ∈ [Double.ofQuotient false 1 4, .ofQuotient false 3 4],
      weight.isFinite = true := by decide
  simp only [Store.HasFiniteWeights, mixedStore, List.forall_mem_cons]
  exact ⟨trivial, hweights, trivial, trivial, trivial, fun _ h => absurd h List.not_mem_nil⟩

theorem mixedStore_rangesComputed : mixedStore.RangesComputed := by
  intro name range hr
  obtain ⟨entry, hm, -, he⟩ := Store.exists_entry_of_rule? hr
  simp only [mixedStore, List.mem_cons, List.not_mem_nil, or_false] at hm
  rcases hm with rfl | rfl | rfl | rfl | rfl <;> cases he
  refine ⟨3, rfl, ?_⟩
  intro index hindex
  obtain rfl | rfl | rfl : index = 0 ∨ index = 1 ∨ index = 2 := by omega
  · exact ⟨"0", by decide +kernel⟩
  · exact ⟨"1", by decide⟩
  · exact ⟨"2", rfl⟩

theorem mixedStore_reported :
    ∃ report, reported (.exact mixedStore 3 (.ofInt 4) true) true "a" = .ok report ∧
      (∀ outcome ∈ report.outcomes, 0 ≤ outcome.2) ∧
      (report.outcomes.map Prod.snd).sum ≤ 1 ∧
      (¬report.IsTruncated → (report.outcomes.map Prod.snd).sum = 1) ∧
      (report.outcomes.map Prod.fst).Nodup := by
  have hname : mixedStore.hasName "a" = true := rfl
  obtain ⟨hends, hsplits⟩ := reported_splits mixedStore_accepted mixedStore_hasFiniteWeights hname
    3 4 true true
  obtain ⟨report, hreport⟩ := hends mixedStore_rangesComputed
  obtain ⟨hnonneg, hle, heq, hnodup⟩ := hsplits report hreport
  exact ⟨report, hreport, hnonneg, hle, heq, hnodup rfl⟩

end TextGrammar.Distribution
