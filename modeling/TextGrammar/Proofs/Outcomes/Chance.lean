import Mathlib.Algebra.BigOperators.Ring.List
import TextGrammar.Generator.Running
import TextGrammar.Proofs.Expansion.Chain
import TextGrammar.Proofs.Outcomes.Product
import TextGrammar.Proofs.Outcomes.Uncut
import TextGrammar.Proofs.Reference
import TextGrammar.Proofs.Token

/-! The weights of a walk are the chances of the expansion, token by token. -/
namespace TextGrammar

/-- A rule whose values have chances that add up to one. -/
def Rule.HasChances : Rule → Prop
  | .static _ | .template _ => True
  | .weighted rule => (rule.weights.map Double.toRat).sum = 1
  | .range rule => rule.step.isSome
  | _ => False

/-- The texts that a rule can produce. -/
def Rule.likelyTexts : Rule → List String
  | .weighted rule =>
    ((rule.values.zip rule.weights).filter fun value => 0 < value.2.toRat).map Prod.fst
  | rule => rule.texts

/-- How likely an expansion ends in a text. -/
def Told.chance (tree : Told) (text : String) : ℚ :=
  tree.mean fun result =>
    match result.1 with
    | .ok found => if found = text then 1 else 0
    | .error _ => 0

namespace Distribution

/-- The sum of a value over outcomes, as much as they weigh. -/
def expect (outcomes : List (String × ℚ)) (value : String → ℚ) : ℚ :=
  (outcomes.map fun (text, weight) => weight * value text).sum

variable {outcomes left right : List (String × ℚ)} {value : String → ℚ}

@[simp] theorem expect_nil : expect [] value = 0 := rfl

@[simp] theorem expect_cons {text : String} {weight : ℚ} :
    expect ((text, weight) :: outcomes) value = weight * value text + expect outcomes value := by
  simp [expect]

theorem expect_append : expect (left ++ right) value = expect left value + expect right value := by
  simp [expect]

theorem expect_map (f : String → String) :
    expect (outcomes.map fun (text, weight) => (f text, weight)) value
      = expect outcomes fun text => value (f text) := by
  simp [expect, Function.comp_def]

theorem expect_pairs {join : String → String → String} :
    expect (pairs join left right) value
      = expect left fun a => expect right fun b => value (join a b) := by
  induction left with
  | nil => rfl
  | cons outcome left ih =>
    obtain ⟨a, p⟩ := outcome
    rw [pairs_cons, expect_append, ih, expect_cons]
    congr 1
    simp only [expect, List.map_map]
    rw [← List.sum_map_mul_left]
    congr 1
    refine List.map_congr_left fun outcome _ => ?_
    exact mul_assoc p outcome.2 _

theorem expect_eq_zero (h : ∀ outcome ∈ outcomes, outcome.2 = 0) : expect outcomes value = 0 := by
  apply List.sum_eq_zero
  intro term hterm
  obtain ⟨⟨text, weight⟩, hm, rfl⟩ := List.mem_map.1 hterm
  have hzero : weight = 0 := h _ hm
  simp [hzero]

theorem expect_congr {value' : String → ℚ}
    (h : ∀ outcome ∈ outcomes, value outcome.1 = value' outcome.1) :
    expect outcomes value = expect outcomes value' := by
  simp only [expect]
  congr 1
  refine List.map_congr_left fun outcome hm => ?_
  rw [h outcome hm]

/-- The weight of a text in the merged outcomes. -/
theorem getD_merge (text : String) :
    ((merge outcomes).get? text).getD 0 = expect outcomes fun t => if t = text then 1 else 0 := by
  have hfold (table : Table ℚ) : ((outcomes.foldl addTo table).get? text).getD 0
      = (table.get? text).getD 0 + expect outcomes fun t => if t = text then 1 else 0 := by
    induction outcomes generalizing table with
    | nil => simp
    | cons outcome rest ih =>
      obtain ⟨t, weight⟩ := outcome
      rw [List.foldl_cons, ih, expect_cons, addTo, Table.get?_put]
      by_cases he : text = t
      · simp [he, add_assoc]
      · simp [he, Ne.symm he]
  rw [merge_eq_foldl, hfold]
  exact zero_add _

/-- A tree whose mean does not depend on the context: any value of its text has the given mean, as
long as the rules stay as they are. -/
def Foretells (store : Store) (mean : (String → ℚ) → ℚ) (tree : Scene → Told) : Prop :=
  ∀ ⦃value seen scene⦄, scene.store = store →
    (∀ text scene', scene'.store = store → seen (.ok text, scene') = value text) →
    (tree scene).mean seen = mean value

variable {setting : Setting ℚ} {store : Store} {nested : String → Walk (Found ℚ)}
  {inner : String → Scene → Told}

theorem Found.expect_times {join : String → String → String} {left right : Found ℚ} :
    expect (left.times none join right).outcomes value
      = expect left.outcomes fun a => expect right.outcomes fun b => value (join a b) := by
  rw [← expect_pairs, times_none]

/-- A token that the walk follows to what the expansion draws for it. -/
def TokenForetold (store : Store) (nested : String → Walk (Found ℚ))
    (inner : String → Scene → Told) (name : String) : Prop :=
  isReplay name = false ∧
    ∀ right, nested name = .ok right →
      Foretells store (expect right.outcomes) (Scene.askToken inner name)

theorem askSegments_literal_foretells {text : String} {rest : List Segment}
    {mean : (String → ℚ) → ℚ} (h : Foretells store mean (Scene.askSegments inner rest)) :
    Foretells store (fun value => mean fun tail => value (text ++ tail))
      (Scene.askSegments inner (.literal text :: rest)) := by
  intro value seen scene hs hseen
  rw [Scene.askSegments, Choices.mean_bind]
  apply h hs
  intro tail scene' hs'
  exact hseen (text ++ tail) scene' hs'

theorem askSegments_token_foretells {name : String} {rest : List Segment}
    {token mean : (String → ℚ) → ℚ} (htoken : Foretells store token (Scene.askToken inner name))
    (h : Foretells store mean (Scene.askSegments inner rest)) :
    Foretells store (fun value => token fun head => mean fun tail => value (head ++ tail))
      (Scene.askSegments inner (.token name :: rest)) := by
  intro value seen scene hs hseen
  rw [Scene.askSegments, Choices.mean_bind]
  apply htoken hs
  intro head scene' hs'
  dsimp only
  rw [Choices.mean_bind]
  apply h hs'
  intro tail scene'' hs''
  exact hseen (head ++ tail) scene'' hs''

/-- Every head is found with every tail, so the mean over both is the mean over the heads of the
mean over the tails. -/
theorem segmentsFound_foretells {segments : List Segment}
    (hn : ∀ name, .token name ∈ segments → TokenForetold store nested inner name)
    {found result : Found ℚ}
    (hf : segmentsFound (setting.withCap none) nested found segments = .ok result) :
    ∃ mean, Foretells store mean (Scene.askSegments inner segments) ∧
      ∀ value, expect result.outcomes value
        = expect found.outcomes fun head => mean fun tail => value (head ++ tail) := by
  induction segments generalizing found with
  | nil =>
    cases hf
    refine ⟨fun value => value "", ?_, ?_⟩
    · intro value seen scene hs hseen
      exact hseen "" scene hs
    · intro value
      simp
  | cons segment rest ih =>
    have hrest := fun name hm => hn name (List.mem_cons_of_mem segment hm)
    cases segment with
    | literal text =>
      obtain ⟨mean, hmean, hvalue⟩ := ih hrest hf
      refine ⟨_, askSegments_literal_foretells hmean, fun value => ?_⟩
      rw [hvalue]
      refine (expect_map fun head => head ++ text).trans ?_
      simp only [String.append_assoc]
    | token name =>
      obtain ⟨hreplay, hright⟩ := hn name List.mem_cons_self
      simp only [segmentsFound, hreplay, Bool.false_eq_true, if_false] at hf
      obtain ⟨right, hr, hf⟩ := bind_eq_ok.1 hf
      obtain ⟨mean, hmean, hvalue⟩ := ih hrest hf
      refine ⟨_, askSegments_token_foretells (hright right hr) hmean, fun value => ?_⟩
      rw [hvalue, withCap_cap, Found.expect_times]
      simp only [String.append_assoc]

/-- What weighs nothing at the start weighs nothing in the end. -/
theorem segmentsFound_zero {segments : List Segment} {found result : Found ℚ}
    (hf : segmentsFound (setting.withCap none) nested found segments = .ok result)
    (h : ∀ outcome ∈ found.outcomes, outcome.2 = 0) :
    ∀ outcome ∈ result.outcomes, outcome.2 = 0 := by
  induction segments generalizing found with
  | nil =>
    cases hf
    exact h
  | cons segment rest ih =>
    have hmap (text : String) :
        ∀ outcome ∈ found.outcomes.map fun (o, p) => (o ++ text, p), outcome.2 = 0 := by
      intro outcome hm
      obtain ⟨before, hb, rfl⟩ := List.mem_map.1 hm
      exact h before hb
    cases segment with
    | literal text => exact ih hf (hmap text)
    | token name =>
      simp only [segmentsFound] at hf
      split at hf
      · exact ih hf (hmap _)
      · obtain ⟨right, -, hf⟩ := bind_eq_ok.1 hf
        apply ih hf
        simp only [withCap_cap, Found.times_none, pairs]
        intro outcome hm
        obtain ⟨⟨a, p⟩, ha, hm⟩ := List.mem_flatMap.1 hm
        obtain ⟨⟨b, q⟩, -, rfl⟩ := List.mem_map.1 hm
        have hzero : p = 0 := h _ ha
        simp [hzero]

/-- Texts one after the other: their means add up, each as much as the text weighs. -/
theorem textsFound_expect {texts : List (String × ℚ)} {likely : String → ℚ}
    (ht : ∀ text weight found, (text, weight) ∈ texts →
      textFound (setting.withCap none) nested text weight = .ok found →
      expect found.outcomes value = weight * likely text)
    {result : Found ℚ}
    (hf : textsFound (setting.withCap none) nested none texts = .ok result) :
    expect result.outcomes value = expect texts likely := by
  induction texts generalizing result with
  | nil =>
    cases hf
    rfl
  | cons entry rest ih =>
    obtain ⟨text, weight⟩ := entry
    obtain ⟨-, first, others, hfirst, hothers, rfl⟩ :=
      (textsFound_cons_eq_ok (Option.some_ne_none 0).symm).1 hf
    have hrest := ih (fun text weight found hm => ht text weight found (List.mem_cons_of_mem _ hm))
      hothers
    rw [expect_cons, ← ht text weight first List.mem_cons_self hfirst, ← hrest]
    exact expect_append

/-- Filling a template by the walk is filling it by draws. -/
theorem templateTexts_expect {rule : Rule.Template} (names : List String) {found : Found ℚ}
    (seen : Reply → ℚ) :
    (expect (templateTexts (setting.withCap none) rule found names).outcomes fun text =>
        seen (.ok text))
      = expect found.outcomes fun text => (rule.ask names text).mean seen := by
  induction names generalizing found with
  | nil => rfl
  | cons name rest ih =>
    rw [templateTexts, ih, withCap_cap, Found.expect_times]
    apply expect_congr
    intro outcome _
    simp only [Rule.Template.ask, Choices.mean, Question.ideal, expect, evenly, List.map_map]
    rfl

/-- A text that the walk follows to what the expansion makes of it. -/
def TextForetold (setting : Setting ℚ) (store : Store) (nested : String → Walk (Found ℚ))
    (inner : String → Scene → Told) (text : String) : Prop :=
  ∀ weight found, textFound (setting.withCap none) nested text weight = .ok found →
    ∃ mean, Foretells store mean (inner text) ∧
      ∀ value, expect found.outcomes value = weight * mean value

/-- A finished text is filed under its name before anyone sees it. -/
def filed (name : String) (seen : Reply × Scene → ℚ) : Reply × Scene → ℚ
  | (.error failure, scene) => seen (.error failure, scene)
  | (.ok text, scene) => seen (.ok text, { scene with context := scene.context.put name text })

theorem askToken_foretells {name : String} {rule : Rule} {found : Found ℚ}
    (hreplay : isReplay name = false) (hr : store.rule? name = some rule)
    (h : ∀ (value likely : String → ℚ) (seen : Except Failure (Option String) × Rule → ℚ) scope,
      (∀ text mean, Foretells store mean (inner text) → likely text = mean value) →
      (∀ text, seen (.ok (some text), rule) = likely text) →
      seen (.ok none, rule) = value (Segment.tokenText name) →
      (rule.ask name scope).mean seen = expect found.outcomes value) :
    Foretells store (expect found.outcomes) (Scene.askToken inner name) := by
  intro value seen scene hs hseen
  have hput : scene.store.put name rule = store := by rw [hs, Store.put_of_rule? hr]
  have hrule : scene.store.rule? name = some rule := by rw [hs, hr]
  simp only [Scene.askToken, hreplay, Bool.false_eq_true, if_false, hrule]
  rw [Choices.mean_bind]
  apply h value fun text =>
    (inner text { store, context := scene.context.put name text }).mean
      (filed name seen)
  · intro text mean hmean
    apply hmean rfl
    intro tail scene' hs'
    exact hseen tail _ hs'
  · intro text
    dsimp only
    rw [Choices.mean_bind, hput]
    congr 1
    funext result
    obtain ⟨reply, scene'⟩ := result
    cases reply <;> rfl
  · exact hseen _ _ hput

theorem textFound_of_notMem {text : String} (h : '%' ∉ text.toList) {weight : ℚ} :
    ∃ found, textFound (setting.withCap none) nested text weight = .ok found ∧
      found.outcomes = [(text, weight)] := by
  rw [textFound, Segment.split_of_notMem h]
  split
  · rename_i hempty
    have htext : text = "" := by simpa using hempty
    subst htext
    exact ⟨_, rfl, rfl⟩
  · exact ⟨_, rfl, by simp⟩

theorem rangeFound_expect {rule : Rule.Range} {shown : String} (hs : rule.step.isSome)
    (seen : Reply → ℚ)
    (hl : ∀ text ∈ rule.texts, seen (.ok text) = value text) {found : Found ℚ}
    (hf : rangeFound (setting.withCap none) shown rule = .ok found) :
    ((Question.number rule).ideal.map fun (reply, chance) => chance * seen reply).sum
      = expect found.outcomes value := by
  obtain ⟨step, hstep⟩ := Option.isSome_iff_exists.1 hs
  have hopen : ¬(rule.step.isNone && (setting.withCap none).openRangesInfinite) = true := by
    simp [hstep]
  obtain ⟨count, hcount, -, texts, htexts, rfl⟩ := (rangeFound_eq_ok hopen).1 hf
  change nthTexts rule count = _ at htexts
  have hmem : ∀ text ∈ texts, text ∈ rule.texts := by
    intro text ht
    obtain ⟨index, hi, hn⟩ := (mapM_eq_ok htexts).2 text ht
    exact Rule.Range.nth_mem_texts hcount (List.mem_range.1 hi) hn
  let term (result : Except NumberFault String) : ℚ :=
    1 / (count : ℚ) * seen (result.mapError .number)
  calc ((Question.number rule).ideal.map fun (reply, chance) => chance * seen reply).sum
      = (((List.range count).map fun (index : ℕ) => rule.nth (.whole index)).map term).sum := by
        simp only [Question.ideal, hstep, hcount, List.map_map]
        rfl
    _ = ((texts.map Except.ok).map term).sum := by rw [map_eq_of_mapM htexts]
    _ = (texts.map fun text => 1 / (count : ℚ) * seen (.ok text)).sum := by
        rw [List.map_map]
        rfl
    _ = (texts.map fun text => 1 / (count : ℚ) * value text).sum := by
        congr 1
        refine List.map_congr_left fun text ht => ?_
        rw [hl text (hmem text ht)]
    _ = expect (texts.map fun text => (text, 1 / (count : ℚ))) value := by
        rw [expect, List.map_map]
        rfl

theorem weightedValues_eq (hw : setting.ofWeight = Double.toRat) {rule : Rule.Weighted}
    (hsum : (rule.weights.map Double.toRat).sum = 1) :
    weightedValues (setting.withCap none) rule.values rule.weights
      = (rule.values.zip rule.weights).map fun (value, weight) => (value, weight.toRat) := by
  have hweight : (setting.withCap none).ofWeight = Double.toRat := hw
  have htotal : (rule.weights.map Double.toRat).foldl (· + ·) 0 = 1 := by
    rw [← List.sum_eq_foldl, hsum]
  simp only [weightedValues, hweight, htotal, div_one]
  rw [List.zip_map_right, List.map_map]
  rfl

theorem likely_of_mem_evenly {rule : Rule.Static} {text : String} {weight : ℚ}
    (hm : (text, weight) ∈ evenly 1 rule.values) :
    weight = 0 ∨ text ∈ (Rule.static rule).likelyTexts := by
  obtain ⟨value, hvalue, he⟩ := List.mem_map.1 hm
  cases he
  exact Or.inr hvalue

theorem likely_of_mem_weighted {rule : Rule.Weighted} (ha : (Rule.weighted rule).Accepted)
    {text : String} {weight : ℚ}
    (hm : (text, weight) ∈ (rule.values.zip rule.weights).map fun (value, weight) =>
      (value, weight.toRat)) : weight = 0 ∨ text ∈ (Rule.weighted rule).likelyTexts := by
  obtain ⟨⟨value, double⟩, hvalue, he⟩ := List.mem_map.1 hm
  cases he
  rcases (ha.2.2.1 double (List.of_mem_zip hvalue).2).1.eq_or_lt with hzero | hpositive
  · exact Or.inl hzero.symm
  · refine Or.inr (List.mem_map.2 ⟨_, List.mem_filter.2 ⟨hvalue, ?_⟩, rfl⟩)
    simpa using hpositive

theorem likely_of_mem_templateTexts {rule : Rule.Template} {text : String} {weight : ℚ}
    (hm : (text, weight) ∈ (templateTexts (setting.withCap none) rule
      { outcomes := [(rule.template, 1)] } rule.openNames).outcomes) :
    weight = 0 ∨ text ∈ (Rule.template rule).likelyTexts := by
  have hfilling := List.mem_map_of_mem (f := Prod.fst) hm
  rw [map_fst_templateTexts, List.map_singleton, List.flatMap_singleton] at hfilling
  exact Or.inr hfilling

/-- Texts that are foretold are followed to their ends, and what weighs nothing does not count. -/
theorem textsFound_foretold {rule : Rule} {texts : List (String × ℚ)} {likely : String → ℚ}
    (ht : ∀ text ∈ rule.likelyTexts, TextForetold setting store nested inner text)
    (htexts : ∀ {text weight}, (text, weight) ∈ texts → weight = 0 ∨ text ∈ rule.likelyTexts)
    (hl : ∀ text mean, Foretells store mean (inner text) → likely text = mean value)
    {result : Found ℚ}
    (hf : textsFound (setting.withCap none) nested none texts = .ok result) :
    expect result.outcomes value = expect texts likely := by
  refine textsFound_expect ?_ hf
  intro text weight first hm hfirst
  rcases htexts hm with rfl | hlikely
  · rw [zero_mul]
    exact expect_eq_zero (segmentsFound_zero hfirst (by simp))
  · obtain ⟨mean, hmean, hvalue⟩ := ht text hlikely weight first hfirst
    rw [hl text mean hmean, hvalue]

theorem askAmong_mean {rule : Rule} {values : List String} (h : ¬values.isEmpty)
    {likely : String → ℚ} {seen : Except Failure (Option String) × Rule → ℚ}
    (hsome : ∀ text, seen (.ok (some text), rule) = likely text) :
    (askAmong rule values).mean seen = expect (evenly 1 values) likely := by
  rw [askAmong, if_neg h]
  simp only [Choices.mean, Question.ideal, expect, evenly, List.map_map]
  congr 1
  refine List.map_congr_left fun text _ => ?_
  exact congrArg _ (hsome text)

theorem askWeighted_mean {rule : Rule.Weighted} {name : String} {scope : Scope}
    {likely : String → ℚ} {seen : Except Failure (Option String) × Rule → ℚ}
    (hsome : ∀ text, seen (.ok (some text), .weighted rule) = likely text) :
    ((Rule.weighted rule).ask name scope).mean seen
      = expect ((rule.values.zip rule.weights).map fun (value, weight) => (value, weight.toRat))
          likely := by
  simp only [Rule.ask, Choices.mean, Question.ideal, expect, List.map_map]
  congr 1
  refine List.map_congr_left fun entry _ => ?_
  exact congrArg _ (hsome entry.1)

theorem askTemplate_mean {rule : Rule.Template} {name : String} {scope : Scope}
    {likely : String → ℚ} {seen : Except Failure (Option String) × Rule → ℚ}
    (hsome : ∀ text, seen (.ok (some text), .template rule) = likely text) :
    ((Rule.template rule).ask name scope).mean seen
      = expect (templateTexts (setting.withCap none) rule { outcomes := [(rule.template, 1)] }
          rule.openNames).outcomes likely := by
  let filled : Found ℚ := templateTexts (setting.withCap none) rule
    { outcomes := [(rule.template, 1)] } rule.openNames
  have hfill : (expect filled.outcomes fun text => seen (.ok (some text), .template rule))
      = expect [(rule.template, 1)] fun text => (rule.ask rule.openNames text).mean fun reply =>
          seen (reply.map some, .template rule) :=
    templateTexts_expect rule.openNames fun reply => seen (reply.map some, .template rule)
  rw [expect_cons, expect_nil, add_zero, one_mul] at hfill
  calc ((Rule.template rule).ask name scope).mean seen
      = (rule.ask rule.openNames rule.template).mean fun reply =>
          seen (reply.map some, .template rule) := Choices.mean_bind _ _ _
    _ = expect filled.outcomes fun text => seen (.ok (some text), .template rule) := hfill.symm
    _ = expect filled.outcomes likely := expect_congr fun outcome _ => hsome outcome.1

/-- The values of a range are followed to themselves. -/
theorem likely_of_range {rule : Rule.Range} {text : String} (hm : text ∈ rule.texts)
    (ht : TextForetold setting store nested inner text) {likely : String → ℚ}
    (hl : ∀ text mean, Foretells store mean (inner text) → likely text = mean value) :
    likely text = value text := by
  have halone : ∃ alone, textFound (setting.withCap none) nested text 1 = .ok alone ∧
      alone.outcomes = [(text, 1)] := textFound_of_notMem (Rule.Range.percent_notMem_texts hm)
  obtain ⟨alone, halone, houtcomes⟩ := halone
  obtain ⟨mean, hmean, hexpect⟩ := ht 1 alone halone
  have hone := hexpect value
  rw [houtcomes, expect_cons, expect_nil, add_zero, one_mul, one_mul] at hone
  rw [hone, hl text mean hmean]

/-- Drawing from a rule is choosing among the texts that the walk follows. -/
theorem ask_mean (hw : setting.ofWeight = Double.toRat) {rule : Rule} (ha : rule.Accepted)
    (hc : rule.HasChances) {name : String} {found : Found ℚ}
    (hf : ruleFound (setting.withCap none) nested name rule = .ok found)
    (ht : ∀ text ∈ rule.likelyTexts, TextForetold setting store nested inner text)
    {likely : String → ℚ} {seen : Except Failure (Option String) × Rule → ℚ} {scope : Scope}
    (hl : ∀ text mean, Foretells store mean (inner text) → likely text = mean value)
    (hsome : ∀ text, seen (.ok (some text), rule) = likely text)
    (hnone : seen (.ok none, rule) = value (Segment.tokenText name)) :
    (rule.ask name scope).mean seen = expect found.outcomes value := by
  cases rule with
  | function rule => exact hc.elim
  | conditional rule => exact hc.elim
  | sequential rule => exact hc.elim
  | static rule =>
    simp only [ruleFound] at hf
    simp only [Rule.ask]
    split at hf
    · rename_i hempty
      rw [if_pos hempty]
      cases hf
      simp [Choices.mean, hnone]
    · rename_i hempty
      rw [if_neg hempty, askAmong_mean hempty hsome]
      exact (textsFound_foretold ht likely_of_mem_evenly hl hf).symm
  | weighted rule =>
    simp only [ruleFound] at hf
    rw [weightedValues_eq hw hc] at hf
    rw [askWeighted_mean hsome]
    exact (textsFound_foretold ht (likely_of_mem_weighted ha) hl hf).symm
  | template rule =>
    obtain ⟨others, hothers, hf⟩ := bind_eq_ok.1 hf
    obtain rfl := pure_eq_ok.1 hf
    rw [askTemplate_mean hsome]
    exact (textsFound_foretold ht likely_of_mem_templateTexts hl hothers).symm
  | range rule =>
    refine rangeFound_expect hc (fun reply => seen (reply.map some, .range rule)) ?_ hf
    intro text htext
    exact (hsome text).trans (likely_of_range htext (ht text htext) hl)

/-- What the names below a name have to be like for its chances to be those of its outcomes. -/
structure Fathomed (store : Store) (name : String) : Prop where
  rules : ∀ other, store.Reaches Rule.likelyTexts name other →
    ∃ rule, store.rule? other = some rule ∧ rule.HasChances
  noReplays : ∀ other rule text token, store.Reaches Rule.likelyTexts name other →
    store.rule? other = some rule → text ∈ rule.likelyTexts →
    .token token ∈ Segment.split text → isReplay token = false

theorem Fathomed.of_refers {name other : String} (h : Fathomed store name)
    (hr : store.Refers Rule.likelyTexts name other) : Fathomed store other where
  rules last hlast := h.rules last (hlast.head hr)
  noReplays last rule text token hlast := h.noReplays last rule text token (hlast.head hr)

theorem textForetold_of_tokens {text : String} {limit : ℤ} {room : ℕ}
    (h : ∀ name, .token name ∈ Segment.split text →
      TokenForetold store nested (Scene.askWithin limit room) name) :
    TextForetold setting store nested (Scene.askWithin limit (room + 1)) text := by
  intro weight found hf
  obtain ⟨mean, hmean, hvalue⟩ := segmentsFound_foretells h hf
  refine ⟨mean, hmean, ?_⟩
  intro value
  rw [hvalue, expect_cons, expect_nil, add_zero]
  simp only [String.empty_append]

/-- Deep enough, the walk and the expansion follow a name to the same end. -/
theorem foundWithin_foretells (hw : setting.ofWeight = Double.toRat)
    (ha : setting.store.Accepted) {depth : ℕ} {name : String} (hreplay : isReplay name = false)
    (hf : Fathomed setting.store name)
    (hnest : setting.store.NestsWithin Rule.likelyTexts depth name) {visited : List String}
    (hv : ∀ first ∈ visited,
      Relation.TransGen (setting.store.Refers Rule.likelyTexts) first name)
    {places room : ℕ} (hp : depth ≤ places) (hroom : depth ≤ room) (limit : ℤ) {right : Found ℚ}
    (hr : foundWithin (setting.withCap none) places visited name = .ok right) :
    Foretells setting.store (expect right.outcomes)
      (Scene.askToken (Scene.askWithin limit room) name) := by
  induction depth generalizing name visited places room right with
  | zero =>
    obtain ⟨rule, hrule, -⟩ := hf.rules name .refl
    rw [hnest] at hrule
    cases hrule
  | succ depth ih =>
    obtain ⟨places, rfl⟩ := Nat.exists_eq_add_of_lt hp
    obtain ⟨room, rfl⟩ := Nat.exists_eq_add_of_lt hroom
    obtain ⟨rule, hrule, hc⟩ := hf.rules name .refl
    have hnew : name ∉ visited := fun hm => hnest.irrefl (hv name hm)
    simp only [foundWithin, nameFound, if_neg hnew, withCap_store, hrule] at hr
    apply askToken_foretells hreplay hrule
    intro value likely seen scope hl hsome hnone
    refine ask_mean hw (Store.accepted_of_rule? ha hrule) hc hr ?_ hl hsome hnone
    intro text htext
    apply textForetold_of_tokens
    intro other hm
    have hother := hf.noReplays name rule text other .refl hrule htext hm
    have hrefers : setting.store.Refers Rule.likelyTexts name other :=
      ⟨rule, hrule, text, htext, hm, hother⟩
    refine ⟨hother, fun right hright => ?_⟩
    refine ih hother (hf.of_refers hrefers) (hnest other hrefers) ?_ (Nat.le_add_right _ _)
      (Nat.le_add_right _ _) hright
    intro first hfirst
    rcases List.mem_cons.1 hfirst with rfl | hfirst
    · exact .single hrefers
    · exact (hv first hfirst).tail hrefers

/-- The walk of a report with exact weights. -/
def Setting.exact (store : Store) (limit cap : Bound) (openRangesInfinite : Bool) : Setting ℚ :=
  { store, limit, cap := some cap, openRangesInfinite, ofWeight := Double.toRat }

/-- How likely a token is expanded to a text, from a cleared context. -/
theorem chance_askExpansion {name : String} (hne : name ≠ "") (hpercent : '%' ∉ name.toList)
    {limit : ℤ} {stackRoom room : ℕ} (hroom : min limit.toNat stackRoom = room + 1)
    {mean : (String → ℚ) → ℚ}
    (h : Foretells store mean (Scene.askToken (Scene.askWithin limit room) name)) {scene : Scene}
    (hs : scene.store = store) (text : String) :
    (Scene.askExpansion stackRoom limit false (Segment.tokenText name) scene : Told).chance text
      = mean fun t => if t = text then 1 else 0 := by
  simp only [Told.chance, Scene.askExpansion, hroom, Scene.askWithin,
    Segment.split_tokenText hne hpercent, Scene.askSegments, Choices.mean_bind,
    Bool.false_eq_true, if_false]
  have hcleared : ({ scene with context := ∅ } : Scene).store = store := hs
  apply h hcleared
  intro found scene' _
  simp [Choices.bind, Choices.mean, Except.map, Except.mapError]

/-- Where rules have chances, and names do not nest too deep for the limits and the stack, a report
that leaves nothing out lists each text with the chance that the token of the name is expanded to it.
The tree that the chance is taken over is the expansion, if the random source answers. -/
theorem reported_eq_chance {limit cap : Bound} {expansionLimit : ℤ} {stackRoom : ℕ}
    {openRangesInfinite : Bool} {name : String} (ha : store.Accepted) (hpercent : '%' ∉ name.toList)
    (hreplay : isReplay name = false) (hf : Fathomed store name)
    (hchains : ∀ names, List.IsChain (store.Refers Rule.likelyTexts) (name :: names) →
      (names.length : ℤ) < limit.value ∧ (names.length : ℤ) + 1 < expansionLimit ∧
        names.length + 1 < stackRoom)
    {report : Found ℚ}
    (hreport : reported (.exact store limit cap openRangesInfinite) true name = .ok report)
    (ht : ¬report.IsTruncated) {scene : Scene} (hs : scene.store = store) :
    Scene.Tells (Scene.askExpansion stackRoom expansionLimit false (Segment.tokenText name))
        (Engine.expand stackRoom expansionLimit false (Segment.tokenText name)) ∧
      ∀ text, (report.outcomes.lookup text).getD 0 =
        (Scene.askExpansion stackRoom expansionLimit false (Segment.tokenText name) scene :
          Told).chance text := by
  refine ⟨Scene.askExpansion_tells _ _ _ _, fun text => ?_⟩
  obtain ⟨rule, hrule, -⟩ := hf.rules name .refl
  obtain ⟨room, hroom⟩ : ∃ room, min expansionLimit.toNat stackRoom = room + 1 := by
    have hsingle := hchains [] (List.isChain_singleton name)
    simp only [List.length_nil, Nat.cast_zero, zero_add] at hsingle
    exact ⟨min expansionLimit.toNat stackRoom - 1, by omega⟩
  have hnest : store.NestsWithin Rule.likelyTexts (min limit.value.toNat room) name := by
    apply Store.nestsWithin_of_chains
    intro names hnames
    have := hchains names hnames
    omega
  simp only [reported, reportedShown] at hreport
  split at hreport
  · cases hreport
  · obtain ⟨found, hfound, hreport⟩ := bind_eq_ok.1 hreport
    obtain rfl := pure_eq_ok.1 hreport
    have hall := foundShown_uncut hfound ht
    rw [foundShown_eq_foundWithin] at hall
    have hforetells := foundWithin_foretells rfl ha hreplay hf hnest (by simp)
      (Nat.min_le_left _ _) (Nat.min_le_right _ _) expansionLimit hall
    rw [chance_askExpansion (Store.ne_empty_of_rule? ha hrule) hpercent hroom hforetells hs text]
    exact getD_merge text

theorem nestedStore_reaches {name other : String}
    (h : nestedStore.Reaches Rule.likelyTexts name other) : other = name ∨ other = "b" := by
  cases h with
  | refl => exact Or.inl rfl
  | tail _ hlast => exact Or.inr (nestedStore_refers (fun _ => rfl) hlast).2

theorem nestedStore_fathomed : Fathomed nestedStore "a" where
  rules := by
    intro other h
    rcases nestedStore_reaches h with rfl | rfl
    · exact ⟨_, nestedStore_rule?_a, trivial⟩
    · exact ⟨_, nestedStore_rule?_b, trivial⟩
  noReplays := by
    intro other rule text token _ hr ht hm
    obtain ⟨-, rfl⟩ := nestedStore_token (fun _ => rfl) hr ht hm
    decide

theorem nestedStore_chance :
    Scene.Tells (Scene.askExpansion 3 100 false (Segment.tokenText "a"))
        (Engine.expand 3 100 false (Segment.tokenText "a")) ∧
      ∀ text, ((merge [("x", (1 : ℚ) / (2 : ℕ)), ("y", 1 / (2 : ℕ) * (1 / (2 : ℕ))),
          ("z", 1 / (2 : ℕ) * (1 / (2 : ℕ)))]).entries.lookup text).getD 0
        = (Scene.askExpansion 3 100 false (Segment.tokenText "a") ⟨nestedStore, ∅⟩ : Told).chance
          text := by
  have hchains : ∀ names, List.IsChain (nestedStore.Refers Rule.likelyTexts) ("a" :: names) →
      (names.length : ℤ) < (5 : Bound).value ∧ (names.length : ℤ) + 1 < 100 ∧
        names.length + 1 < 3 := by
    intro names hnames
    have hlen := nestedStore_chain (fun _ => rfl) hnames
    have hfive : (5 : Bound).value = 5 := rfl
    omega
  have hname : nestedStore.hasName "a" = true := rfl
  have hreport : reported (.exact nestedStore 5 100 true) true "a" = .ok { outcomes :=
      (merge [("x", (1 : ℚ) / (2 : ℕ)), ("y", 1 / (2 : ℕ) * (1 / (2 : ℕ))),
        ("z", 1 / (2 : ℕ) * (1 / (2 : ℕ)))]).entries } := by
    simp only [reported, reportedShown, Setting.exact, hname,
      nestedStore_found (Or.inr rfl)]
    rfl
  exact reported_eq_chance nestedStore_accepted (by decide) (by decide) nestedStore_fathomed hchains
    hreport leavesOut_nil rfl

theorem chainStore_fathomed {count place : ℕ} (h : place < count) :
    Fathomed (chainStore count) place.repr where
  rules := by
    intro other hreaches
    obtain ⟨last, hlast, rfl⟩ := exists_place_of_reaches (fun _ => rfl) h hreaches
    exact ⟨_, chainStore_rule?_eq_some_iff.2 ⟨hlast, rfl⟩, trivial⟩
  noReplays := by
    intro other rule text token hreaches hrule htext htoken
    obtain ⟨last, hlast, rfl⟩ := exists_place_of_reaches (fun _ => rfl) h hreaches
    obtain ⟨-, rfl⟩ := chainStore_rule?_eq_some_iff.1 hrule
    obtain rfl := List.mem_singleton.1 htext
    obtain ⟨-, rfl⟩ := token_chainValue_iff.1 htoken
    exact isReplay_repr

/-- If the limit leaves room for the whole chain, its last text is reported as certain. -/
theorem chainStore_reported {count : ℕ} {limit : Bound} (hcount : 0 < count)
    (hlimit : (count : ℤ) ≤ limit.value) {openRangesInfinite : Bool} :
    reported (.exact (chainStore count) limit 1000 openRangesInfinite) true (0 : ℕ).repr =
      .ok { outcomes := [("x", 1)] } := by
  let setting := Setting.exact (chainStore count) limit 1000 openRangesInfinite
  have hname : setting.store.hasName (0 : ℕ).repr = true :=
    Store.exists_rule?_iff.1 ⟨_, chainStore_rule?_eq_some_iff.2 ⟨hcount, rfl⟩⟩
  have hplaces : count - 1 < setting.limit.value.toNat := by
    change count - 1 < limit.value.toNat
    omega
  have hfound := @foundWithin_chain count 0 (count - 1) setting rfl rfl (by omega) _ hplaces [] (by simp)
  have hmerge : (merge [("x", (1 : ℚ))]).entries = [("x", 1)] := by
    rw [merge_eq_foldl]
    simp only [List.foldl, addTo]
    exact congrArg (fun weight => [("x", weight)]) (zero_add 1)
  change reported setting true _ = _
  simp only [reported, reportedShown, hname, foundShown_eq_foundWithin, hfound, Bool.not_true,
    Bool.false_eq_true, if_false, if_true]
  exact congrArg (fun outcomes => (Except.ok { outcomes } : Walk (Found ℚ))) hmerge

/-- If the stack has no room for the whole chain, its expansion comes to no text at all. -/
theorem chainStore_chance {count stackRoom : ℕ} (h : stackRoom ≤ count) (limit : ℤ) (text : String) :
    (Scene.askExpansion stackRoom limit false (Segment.tokenText (0 : ℕ).repr)
      ⟨chainStore count, ∅⟩ : Told).chance text = 0 := by
  have hroom : 0 + min limit.toNat stackRoom ≤ count := by omega
  have hmean := @mean_askWithin_chain count 0 limit _ hroom ⟨chainStore count, ∅⟩ rfl
  simp only [Told.chance, Scene.askExpansion, Choices.mean_bind, Bool.false_eq_true, if_false]
  refine hmean ?_
  intro failure scene
  rfl

/-- A chain of 340 rules, below both limits but not within the stack, is reported to end in a text that
its expansion never comes to. -/
theorem reported_ne_chance :
    (chainStore 340).Accepted ∧ '%' ∉ "0".toList ∧ isReplay "0" = false ∧
      Fathomed (chainStore 340) "0" ∧
      (∀ names, List.IsChain ((chainStore 340).Refers Rule.likelyTexts) ("0" :: names) →
        (names.length : ℤ) < (1000 : Bound).value ∧ (names.length : ℤ) + 1 < 1000) ∧
      reported (.exact (chainStore 340) 1000 1000 true) true "0" = .ok { outcomes := [("x", 1)] } ∧
      ¬({ outcomes := [("x", 1)] } : Found ℚ).IsTruncated ∧
      Scene.Tells (Scene.askExpansion Generator.startingRoom 1000 false (Segment.tokenText "0"))
        (Engine.expand Generator.startingRoom 1000 false (Segment.tokenText "0")) ∧
      (Scene.askExpansion Generator.startingRoom 1000 false (Segment.tokenText "0")
        ⟨chainStore 340, ∅⟩ : Told).chance "x" = 0 := by
  have hname : "0" = (0 : ℕ).repr := rfl
  have hlimit : (1000 : Bound).value = 1000 := rfl
  refine ⟨chainStore_accepted, by decide, by decide, ?_⟩
  rw [hname]
  refine ⟨chainStore_fathomed (by decide), ?_, chainStore_reported (by decide) (by decide),
    leavesOut_nil, Scene.askExpansion_tells _ _ _ _, chainStore_chance (by decide) 1000 "x"⟩
  intro names hnames
  have hlength := lt_of_isChain (fun _ => rfl) (by decide) hnames
  omega

end Distribution

end TextGrammar
