import TextGrammar.Proofs.Rule.Range

/-! The texts that a rule can produce, known without a draw. -/
namespace TextGrammar

/-- The fillings of a text, one open name after the other. -/
def Rule.Template.fillings (rule : Rule.Template) : List String → String → List String
  | [], text => [text]
  | name :: rest, text =>
    ((rule.values? name).getD []).flatMap fun value =>
      rule.fillings rest (fillToken name value text)

/-- The steps of a range. A step that cannot be computed leaves an empty place. -/
def Rule.Range.texts (rule : Rule.Range) : List String :=
  match rule.size with
  | .ok count =>
    (List.range count).map fun (index : ℕ) => (rule.nth (.whole index)).toOption.getD ""
  | .error _ => []

/-- All texts that a rule lists, in order; what a generator will answer is not listed. -/
def Rule.texts : Rule → List String
  | .function _ => []
  | .conditional rule => rule.branches.flatMap Branch.values
  | .range rule => rule.texts
  | .template rule => rule.fillings rule.openNames rule.template
  | .static { values } | .weighted { values, .. } | .sequential { values, .. } => values

/-- A rule that produces nothing but what it lists, and something every time; templates aside. -/
def Rule.IsListed : Rule → Prop
  | .static rule => rule.values ≠ []
  | .range rule => rule.step.isSome
  | .function _ | .template _ => False
  | _ => True

/-- A rule that produces nothing but what it lists; a template lists its fillings. -/
def Rule.DrawsTexts : Rule → Prop
  | .template _ => True
  | rule => rule.IsListed

theorem Rule.IsListed.drawsTexts {rule : Rule} (h : rule.IsListed) : rule.DrawsTexts := by
  cases rule with
  | template rule => trivial
  | _ => exact h

/-- Rules that draw from values which they hold. -/
def Rule.HoldsValues : Rule → Prop
  | .function _ | .range _ | .template _ => False
  | _ => True

@[simp] theorem Rule.texts_outline {rule : Rule} : rule.outline.texts = rule.texts := by
  cases rule with
  | conditional rule => simp [outline, texts, List.flatMap_map]
  | _ => rfl

@[simp] theorem Rule.drawsTexts_outline {rule : Rule} :
    rule.outline.DrawsTexts ↔ rule.DrawsTexts := by
  cases rule <;> exact Iff.rfl

@[simp] theorem Rule.holdsValues_outline {rule : Rule} :
    rule.outline.HoldsValues ↔ rule.HoldsValues := by
  cases rule <;> exact Iff.rfl

theorem Rule.accepted_outline {rule : Rule} (h : rule.Accepted) : rule.outline.Accepted := by
  cases rule with
  | conditional rule =>
    obtain ⟨hb, hv, hcount⟩ := h
    refine ⟨by simpa [outline] using hb, by simpa [outline] using hv, ?_⟩
    have hkeep : Branch.isOtherwise ∘ Branch.outline = Branch.isOtherwise := by
      funext branch
      cases branch <;> rfl
    simpa [outline, List.filter_map, hkeep] using hcount
  | sequential rule => exact ⟨h.1, Nat.zero_le _⟩
  | _ => exact h

theorem Source.mem_of_choose {α : Type} {values : List α} {source : Source} {value : α}
    (h : (source.choose values).1 = .ok value) : value ∈ values := by
  simp only [choose] at h
  split at h
  · cases h
  · split at h
    · cases h
    · split at h
      · rename_i hget
        cases h
        exact List.mem_of_getElem? hget
      · cases h

theorem Source.mem_of_pick {α : Type} {x : Double} {bounds : List (α × Double)} {value : α}
    (h : pick x bounds = some value) : value ∈ bounds.map Prod.fst := by
  fun_induction pick x bounds with
  | case1 => cases h
  | case2 value bound => simp_all
  | case3 value bound rest _ hle => simp_all
  | case4 value bound rest _ hle ih => exact List.mem_cons_of_mem _ (ih h)

theorem Source.mem_of_chooseWeighted {α : Type} {values : List α} {bounds : List Double}
    {source : Source} {value : α} (h : (source.chooseWeighted values bounds).1 = .ok value) :
    value ∈ values := by
  simp only [chooseWeighted] at h
  split at h
  · cases h
  · split at h
    · cases h
    · split at h
      · rename_i hpick
        cases h
        obtain ⟨⟨value', bound⟩, hmem, rfl⟩ := List.mem_map.1 (mem_of_pick hpick)
        exact (List.of_mem_zip hmem).1
      · cases h

theorem mem_of_selectBranch {name : String} {scope : Scope} {fallback : Option (List String)}
    {branches : List Branch} {values : List String}
    (h : selectBranch name scope fallback branches = .ok values) :
    fallback = some values ∨ ∃ branch ∈ branches, branch.values = values := by
  fun_induction selectBranch name scope fallback branches with
  | case1 => simp_all
  | case2 => cases h
  | case3 _ listed rest ih =>
    rcases ih h with he | ⟨branch, hb, he⟩
    · exact Or.inr ⟨_, List.mem_cons_self, Option.some.inj he⟩
    · exact Or.inr ⟨branch, List.mem_cons_of_mem _ hb, he⟩
  | case4 => cases h
  | case5 => exact Or.inr ⟨_, List.mem_cons_self, Except.ok.inj h⟩
  | case6 _ _ _ _ _ ih =>
    rcases ih h with he | ⟨branch, hb, he⟩
    · exact Or.inl he
    · exact Or.inr ⟨branch, List.mem_cons_of_mem _ hb, he⟩

/-- The values of a branch, whichever it is, are among those of the rule. -/
theorem mem_texts_of_branch {name : String} {scope : Scope} {rule : Rule.Conditional}
    {values : List String} (h : selectBranch name scope none rule.branches = .ok values)
    {value : String} (hv : value ∈ values) : value ∈ (Rule.conditional rule).texts := by
  rcases mem_of_selectBranch h with he | ⟨branch, hb, rfl⟩
  · cases he
  · exact List.mem_flatMap.2 ⟨branch, hb, hv⟩

theorem Rule.Range.nth_mem_texts {rule : Rule.Range} {count index : ℕ} {text : String}
    (hs : rule.size = .ok count) (hi : index < count)
    (ht : rule.nth (.whole index) = .ok text) : text ∈ rule.texts := by
  simp only [texts, hs, List.mem_map, List.mem_range]
  exact ⟨index, hi, by simp [ht, Except.toOption]⟩

theorem Rule.Range.length_texts {rule : Rule.Range} {count : ℕ} (hs : rule.size = .ok count) :
    rule.texts.length = count := by
  simp [texts, hs]

/-- The values of a range write no tokens. -/
theorem Rule.Range.percent_notMem_texts {rule : Rule.Range} {text : String}
    (h : text ∈ rule.texts) : '%' ∉ text.toList := by
  simp only [texts] at h
  split at h
  · obtain ⟨index, -, rfl⟩ := List.mem_map.1 h
    cases hn : rule.nth (.whole index) with
    | error fault => simp [Except.toOption]
    | ok text => exact percent_notMem_nth hn
  · cases h

theorem chosen_eq_ok {ρ : Type} {rule : ρ} {values : List String} {source : Source}
    {drawn : Option String} (h : (chosen rule values source).1 = .ok drawn) :
    ∃ value ∈ values, drawn = some value := by
  obtain ⟨value, hvalue, rfl⟩ := map_eq_ok.1 h
  exact ⟨value, Source.mem_of_choose hvalue, rfl⟩

theorem Rule.Conditional.mem_texts_of_draw {rule : Rule.Conditional} {name : String} {scope : Scope}
    {source : Source} {drawn : Option String} (h : (rule.draw name scope source).1 = .ok drawn) :
    ∃ value ∈ (Rule.conditional rule).texts, drawn = some value := by
  simp only [draw] at h
  split at h
  · cases h
  · rename_i values hselected
    obtain ⟨value, hvalue, rfl⟩ := chosen_eq_ok h
    exact ⟨value, mem_texts_of_branch hselected hvalue, rfl⟩

theorem Rule.Sequential.mem_values_of_draw {rule : Rule.Sequential} {source : Source}
    {drawn : Option String} (h : (rule.draw source).1 = .ok drawn) :
    ∃ value ∈ rule.values, drawn = some value := by
  simp only [draw] at h
  split at h
  · split at h
    · rename_i hlast
      cases h
      exact ⟨_, List.mem_of_getLast? hlast, rfl⟩
    · cases h
  · split at h
    · rename_i hget
      cases h
      exact ⟨_, List.mem_of_getElem? hget, rfl⟩
    · cases h

theorem Rule.Weighted.mem_values_of_draw {rule : Rule.Weighted} {source : Source}
    {drawn : Option String} (h : (rule.draw source).1 = .ok drawn) :
    ∃ value ∈ rule.values, drawn = some value := by
  obtain ⟨value, hvalue, rfl⟩ := map_eq_ok.1 h
  exact ⟨value, Source.mem_of_chooseWeighted hvalue, rfl⟩

/-- What is drawn from such a rule is one of its values; only a static rule may have none. -/
theorem Rule.HoldsValues.mem_texts_of_draw {rule : Rule} (hv : rule.HoldsValues) {name : String}
    {scope : Scope} {source : Source} {drawn : Option String}
    (h : (rule.draw name scope source).1 = .ok drawn) :
    (∃ value ∈ rule.texts, drawn = some value) ∨ drawn = none ∧ rule = .static { values := [] } := by
  cases rule with
  | function rule => exact hv.elim
  | range rule => exact hv.elim
  | template rule => exact hv.elim
  | conditional rule => exact .inl (Rule.Conditional.mem_texts_of_draw h)
  | sequential rule => exact .inl (Rule.Sequential.mem_values_of_draw h)
  | weighted rule => exact .inl (Rule.Weighted.mem_values_of_draw h)
  | static rule =>
    obtain ⟨values⟩ := rule
    simp only [draw, Rule.Static.draw, Draw.map] at h
    split at h
    · rename_i hempty
      cases h
      obtain rfl : values = [] := List.isEmpty_iff.1 hempty
      exact .inr ⟨rfl, rfl⟩
    · exact .inl (chosen_eq_ok h)

/-- A template is filled in one of the listed ways. -/
theorem Rule.Template.mem_fillings_of_fill {rule : Rule.Template} {names : List String}
    {text filled : String} {source : Source} (h : (rule.fill names text source).1 = .ok filled) :
    filled ∈ rule.fillings names text := by
  induction names generalizing text source with
  | nil =>
    cases h
    exact List.mem_singleton_self _
  | cons name rest ih =>
    simp only [fill] at h
    rcases hchoose : source.choose ((rule.values? name).getD []) with ⟨result, after⟩
    rw [hchoose] at h
    cases result with
    | error failure => cases h
    | ok value =>
      have hvalue : (source.choose ((rule.values? name).getD [])).1 = .ok value :=
        congrArg Prod.fst hchoose
      exact List.mem_flatMap.2 ⟨value, Source.mem_of_choose hvalue, ih h⟩

/-- What is drawn from a rule is one of its texts. -/
theorem Rule.exists_mem_texts_of_draw {rule : Rule} {name : String} {scope : Scope}
    {source : Source} {drawn : Option String} (hl : rule.DrawsTexts) (ha : rule.outline.Accepted)
    (h : (rule.draw name scope source).1 = .ok drawn) :
    ∃ value ∈ rule.texts, drawn = some value := by
  have hheld (hv : rule.HoldsValues) : ∃ value ∈ rule.texts, drawn = some value := by
    rcases hv.mem_texts_of_draw h with hmem | ⟨-, rfl⟩
    · exact hmem
    · exact absurd rfl hl
  cases rule with
  | function rule => exact hl.elim
  | template rule =>
    have hfill : (rule.fill rule.openNames rule.template source).1.map some = .ok drawn := h
    obtain ⟨text, htext, rfl⟩ := map_eq_ok.1 hfill
    exact ⟨text, Rule.Template.mem_fillings_of_fill htext, rfl⟩
  | range rule =>
    obtain ⟨step, hstep⟩ := Option.isSome_iff_exists.1 hl
    simp only [draw] at h
    cases hd : (rule.draw source).1 with
    | error fault =>
      rw [hd] at h
      cases h
    | ok text =>
      rw [hd] at h
      cases h
      obtain ⟨count, hc, index, hi, ht⟩ := Rule.Range.exists_nth_of_draw ha hstep hd
      exact ⟨text, Rule.Range.nth_mem_texts hc hi ht, rfl⟩
  | _ => exact hheld trivial

/-- A draw under a name that ends: one of the texts of its rule, or nothing if there are none. -/
def Store.Offers (store : Store) (name : String) : Option String → Prop
  | some value => ∃ rule, store.rule? name = some rule ∧ value ∈ rule.texts
  | none => ∀ rule, store.rule? name = some rule → rule.texts = []

/-- Draws from rules of one outline give values of the same texts. -/
theorem Store.offers_of_draw {store store' : Store} {name : String}
    (hv : ∀ rule, store.rule? name = some rule → rule.HoldsValues)
    (hs : store'.outline = store.outline) {scope : Scope} {source : Source} {drawn : Option String}
    (h : (store'.draw name scope source).1 = .ok drawn) : store.Offers name drawn := by
  have hrule := @Store.rule?_of_outline _ _ name hs
  simp only [Store.draw, Store.drawShown] at h
  cases hr' : store'.rule? name with
  | none =>
    rw [hr'] at h hrule
    cases h
    intro rule hr
    rw [hr] at hrule
    cases hrule
  | some rule' =>
    rw [hr'] at h hrule
    obtain ⟨rule, hr, houtline⟩ := Option.map_eq_some_iff.1 hrule.symm
    have htexts : rule'.texts = rule.texts := by
      rw [← Rule.texts_outline, ← houtline, Rule.texts_outline]
    have hheld : rule'.HoldsValues := by
      rw [← Rule.holdsValues_outline, ← houtline, Rule.holdsValues_outline]
      exact hv rule hr
    rcases hheld.mem_texts_of_draw h with ⟨value, hmem, rfl⟩ | ⟨rfl, rfl⟩
    · exact ⟨rule, hr, htexts ▸ hmem⟩
    · intro other hother
      obtain rfl : rule = other := Option.some.inj (hr.symm.trans hother)
      exact htexts.symm

end TextGrammar
