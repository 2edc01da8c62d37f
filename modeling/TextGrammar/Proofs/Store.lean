import Mathlib.Tactic.Common
import TextGrammar.Store

/-! What a store gives under a name, and what draws leave of it: all but the course of a rule. -/
namespace TextGrammar

/-- A branch without its test. -/
def Branch.outline : Branch → Branch
  | given _ values => given (fun _ => .ok true) values
  | otherwise values => otherwise values

/-- A rule at its start, without its tests. -/
def Rule.outline : Rule → Rule
  | function rule => function { rule with calls := 0 }
  | conditional rule => conditional { branches := rule.branches.map Branch.outline }
  | sequential rule => sequential rule.reset
  | rule => rule

@[simp] theorem Branch.values_outline {branch : Branch} :
    branch.outline.values = branch.values := by
  cases branch <;> rfl

@[simp] theorem Rule.kind_outline {rule : Rule} : rule.outline.kind = rule.kind := by
  cases rule <;> rfl

/-- A rule at its start. What its generator has been through is the generator's own. -/
def Rule.restarted : Rule → Rule
  | function rule => function { rule with calls := 0 }
  | sequential rule => sequential rule.reset
  | rule => rule

theorem Rule.kind_restarted {rule : Rule} : rule.restarted.kind = rule.kind := by
  cases rule <;> rfl

theorem Rule.kind_eq_of_restarted {rule rule' : Rule} (h : rule'.restarted = rule.restarted) :
    rule'.kind = rule.kind := by
  rw [← kind_restarted, h, kind_restarted]

theorem Rule.outline_restarted {rule : Rule} : rule.restarted.outline = rule.outline := by
  cases rule <;> rfl

theorem Rule.restarted_draw {rule : Rule} (name : String) (scope : Scope) (source : Source) :
    (rule.draw name scope source).2.1.restarted = rule.restarted := by
  cases rule with
  | function rule =>
    simp only [Rule.draw, Rule.Function.draw, Draw.map]
    split
    · rfl
    · rfl
    · split <;> rfl
  | conditional rule =>
    simp only [Rule.draw, Rule.Conditional.draw, Draw.map]
    split <;> rfl
  | sequential rule =>
    simp only [Rule.draw, Rule.Sequential.draw, Draw.map]
    split
    · split <;> rfl
    · split <;> rfl
  | static rule =>
    simp only [Rule.draw, Rule.Static.draw, Draw.map]
    split <;> rfl
  | range rule => rfl
  | template rule => rfl
  | weighted rule => rfl

def Entry.outline (entry : Entry) : Entry := { entry with rule := entry.rule.outline }

def Store.outline (store : Store) : Store := { entries := store.entries.map Entry.outline }

def Entry.restarted (entry : Entry) : Entry := { entry with rule := entry.rule.restarted }

/-- The same rules under the same names in the same order, each at its start. -/
def Store.restarted (store : Store) : Store := { entries := store.entries.map Entry.restarted }

/-- No rule keeps count of its draws. -/
def Store.IsSettled (store : Store) : Prop :=
  ∀ entry ∈ store.entries, entry.rule.kind ≠ .function ∧ entry.rule.kind ≠ .sequential

theorem Rule.restarted_of_kind {rule : Rule}
    (h : rule.kind ≠ .function ∧ rule.kind ≠ .sequential) : rule.restarted = rule := by
  cases rule with
  | function rule => exact absurd rfl h.1
  | sequential rule => exact absurd rfl h.2
  | _ => rfl

/-- A draw leaves a rule without a course as it is. -/
theorem Rule.draw_of_kind {rule : Rule} (h : rule.kind ≠ .function ∧ rule.kind ≠ .sequential)
    (name : String) (scope : Scope) (source : Source) :
    (rule.draw name scope source).2.1 = rule := by
  have hafter := rule.restarted_draw name scope source
  have hkind := Rule.kind_eq_of_restarted hafter
  rwa [restarted_of_kind h, restarted_of_kind (hkind ▸ h)] at hafter

/-- No other rule has a place to move on from, so what holds of every generator and goes on to hold
of sequences goes on to hold of every rule. -/
theorem Rule.preserved_draw {holds : Rule → Prop} (hfunction : ∀ rule, holds (.function rule))
    (hsequential : ∀ rule source, holds (.sequential rule) →
      holds (.sequential (rule.draw source).2.1))
    {rule : Rule} (name : String) (scope : Scope) (source : Source) (h : holds rule) :
    holds (rule.draw name scope source).2.1 := by
  cases rule with
  | sequential rule => exact hsequential rule source h
  | function rule => exact hfunction _
  | _ =>
    rw [Rule.draw_of_kind ⟨by simp [kind], by simp [kind]⟩]
    exact h

namespace Store

variable {store store' : Store} {name : String} {rule : Rule}

theorem rule?_outline : store.outline.rule? name = (store.rule? name).map Rule.outline := by
  have hnamed : store.outline.entriesNamed name = (store.entriesNamed name).map Entry.outline := by
    simp only [entriesNamed, outline, List.filter_map]
    rfl
  have hfind (kind : RuleKind) : (store.outline.entriesNamed name).find? (·.rule.kind = kind)
      = ((store.entriesNamed name).find? (·.rule.kind = kind)).map Entry.outline := by
    rw [hnamed, List.find?_map]
    simp only [Function.comp_def, Entry.outline, Rule.kind_outline]
  have hentry : store.outline.entry? name = (store.entry? name).map Entry.outline := by
    simp only [hfind, entry?]
    rw [List.map_findSome?]
    rfl
  rw [rule?, hentry, rule?, Option.map_map, Option.map_map]
  rfl

/-- Stores of one outline have the same names, and rules of one outline under them. -/
theorem rule?_of_outline (h : store'.outline = store.outline) :
    (store'.rule? name).map Rule.outline = (store.rule? name).map Rule.outline := by
  rw [← rule?_outline, h, rule?_outline]

theorem exists_entry_of_rule? (h : store.rule? name = some rule) :
    ∃ entry ∈ store.entries, entry.name = name ∧ entry.rule = rule := by
  simp only [rule?, entry?, Option.map_eq_some_iff] at h
  obtain ⟨entry, he, rfl⟩ := h
  obtain ⟨kind, -, hk⟩ := List.exists_of_findSome?_eq_some he
  obtain ⟨hmem, hname⟩ := List.mem_filter.1 (List.mem_of_find?_eq_some hk)
  exact ⟨entry, hmem, by simpa using hname, rfl⟩

/-- A name that is registered at all resolves to a rule. -/
theorem exists_rule?_iff : (∃ rule, store.rule? name = some rule) ↔ store.hasName name = true := by
  constructor
  · rintro ⟨rule, h⟩
    obtain ⟨entry, hmem, hname, -⟩ := exists_entry_of_rule? h
    exact List.any_eq_true.2 ⟨entry, hmem, by simpa using hname⟩
  · intro h
    obtain ⟨entry, hmem, hname⟩ := List.any_eq_true.1 h
    have hentry : entry ∈ store.entriesNamed name := List.mem_filter.2 ⟨hmem, hname⟩
    cases hr : store.rule? name with
    | some rule => exact ⟨rule, rfl⟩
    | none =>
      simp only [rule?, entry?, Option.map_eq_none_iff, List.findSome?_eq_none_iff] at hr
      have hnone := List.find?_eq_none.1 (hr entry.rule.kind (RuleKind.mem_all _)) entry hentry
      simp at hnone

theorem rule?_eq_none_iff : store.rule? name = none ↔ store.hasName name = false := by
  rw [Option.eq_none_iff_forall_ne_some, ← Bool.not_eq_true, ← exists_rule?_iff, not_exists]

theorem get?_of_rule? (h : store.rule? name = some rule) :
    ∃ entry, store.entries.find? (fun entry => entry.name = name && entry.rule.kind = rule.kind)
      = some entry ∧ entry.rule = rule := by
  simp only [rule?, entry?, Option.map_eq_some_iff] at h
  obtain ⟨entry, he, rfl⟩ := h
  obtain ⟨kind, -, hk⟩ := List.exists_of_findSome?_eq_some he
  have hkind : entry.rule.kind = kind := by simpa using List.find?_some hk
  refine ⟨entry, ?_, rfl⟩
  rw [← hk, entriesNamed, List.find?_filter, hkind]
  simp [Bool.decide_and]

/-- A put that keeps what `f` sees of an entry keeps what it sees of all. -/
theorem map_putEntry {β : Type} (f : Entry → β) {added entry : Entry} {entries : List Entry}
    (h : entries.find? (fun entry => entry.name = added.name && entry.rule.kind = added.rule.kind)
      = some entry)
    (hf : f { entry with rule := added.rule } = f entry) :
    (putEntry added entries).map f = entries.map f := by
  induction entries with
  | nil => cases h
  | cons first rest ih =>
    simp only [putEntry]
    split
    · rename_i hfirst
      rw [List.find?_cons_of_pos (by simpa using hfirst)] at h
      cases h
      rw [List.map_cons, hf, List.map_cons]
    · rename_i hfirst
      rw [List.find?_cons_of_neg (by simpa using hfirst)] at h
      rw [List.map_cons, ih h, List.map_cons]

theorem put_of_rule? (h : store.rule? name = some rule) : store.put name rule = store := by
  obtain ⟨entry, hfind, hrule⟩ := get?_of_rule? h
  have hmap : (putEntry { name, rule } store.entries).map id = store.entries.map id :=
    map_putEntry id hfind (by simp [← hrule])
  rw [List.map_id, List.map_id] at hmap
  rw [put, hmap]

theorem restarted_put {rule' : Rule} (h : store.rule? name = some rule)
    (hr : rule'.restarted = rule.restarted) : (store.put name rule').restarted = store.restarted := by
  obtain ⟨entry, hfind, hrule⟩ := get?_of_rule? h
  rw [← Rule.kind_eq_of_restarted hr] at hfind
  have hmap : (putEntry { name, rule := rule' } store.entries).map Entry.restarted
      = store.entries.map Entry.restarted :=
    map_putEntry Entry.restarted hfind (by simp [Entry.restarted, hr, hrule])
  rw [restarted, put, hmap, restarted]

/-- A draw changes no rule but for the place it is at. -/
theorem restarted_drawShown (shown name : String) (scope : Scope) (source : Source) :
    (store.drawShown shown name scope source).2.1.restarted = store.restarted := by
  simp only [drawShown]
  split
  · rfl
  · rename_i rule hrule
    exact restarted_put hrule (Rule.restarted_draw shown scope source)

theorem outline_restarted : store.restarted.outline = store.outline := by
  have hentry (entry : Entry) : entry.restarted.outline = entry.outline := by
    simp [Entry.outline, Entry.restarted, Rule.outline_restarted]
  simp [outline, restarted, Function.comp_def, hentry]

theorem outline_draw (scope : Scope) (source : Source) :
    (store.draw name scope source).2.1.outline = store.outline := by
  rw [draw, ← outline_restarted, restarted_drawShown, outline_restarted]

theorem get?_cons (entry : Entry) (entries : List Entry) (name : String) (kind : RuleKind) :
    (⟨entry :: entries⟩ : Store).get? name kind =
      if entry.name = name ∧ entry.rule.kind = kind then some entry.rule
      else (⟨entries⟩ : Store).get? name kind := by
  simp only [get?]
  split
  · rename_i hentry
    rw [List.find?_cons_of_pos (by simpa using hentry)]
    rfl
  · rename_i hentry
    rw [List.find?_cons_of_neg (by simpa using hentry)]

/-- The rule that is drawn from is the one of its kind under the name. -/
theorem rule?_of_kind? {kind : RuleKind} (h : store.kind? name = some kind) :
    store.rule? name = store.get? name kind := by
  obtain ⟨rule, hrule, rfl⟩ := Option.map_eq_some_iff.1 h
  obtain ⟨entry, hfind, rfl⟩ := get?_of_rule? hrule
  rw [hrule, get?, hfind]
  rfl

/-- A put changes what is found under the name and kind of its entry, and nothing else. -/
theorem get?_putEntry (store : Store) (added : Entry) (name : String) (kind : RuleKind) :
    (⟨putEntry added store.entries⟩ : Store).get? name kind =
      if added.name = name ∧ added.rule.kind = kind then some added.rule
      else store.get? name kind := by
  obtain ⟨entries⟩ := store
  induction entries with
  | nil => exact get?_cons added [] name kind
  | cons first rest ih =>
    simp only [putEntry]
    split
    · rename_i hfirst
      simp only [get?_cons, hfirst.1, hfirst.2]
      split
      · rfl
      · rfl
    · rename_i hfirst
      rw [get?_cons, get?_cons, ih]
      split
      · rename_i hfound
        rw [if_neg fun hadded => hfirst ⟨hfound.1.trans hadded.1.symm, hfound.2.trans hadded.2.symm⟩]
      · rfl

/-- What is left of the entries still gives what it gave, if all of that name and kind are left. -/
theorem get?_filter {keeps : Entry → Bool} {kind : RuleKind} (store : Store)
    (h : ∀ entry : Entry, entry.name = name → entry.rule.kind = kind → keeps entry = true) :
    (⟨store.entries.filter keeps⟩ : Store).get? name kind = store.get? name kind := by
  obtain ⟨entries⟩ := store
  induction entries with
  | nil => rfl
  | cons first rest ih =>
    cases hfirst : keeps first with
    | true =>
      rw [List.filter_cons_of_pos hfirst, get?_cons, get?_cons]
      exact congrArg _ ih
    | false =>
      rw [List.filter_cons_of_neg (by simp [hfirst]), get?_cons, if_neg]
      · exact ih
      · rintro ⟨hname, hkind⟩
        rw [h first hname hkind] at hfirst
        cases hfirst

theorem IsSettled.restarted (h : store.IsSettled) : store.restarted = store := by
  have hentries : store.entries.map Entry.restarted = store.entries.map id := by
    refine List.map_congr_left fun entry hentry => ?_
    simp only [Entry.restarted, Rule.restarted_of_kind (h entry hentry), id]
  rw [List.map_id] at hentries
  rw [Store.restarted, hentries]

theorem IsSettled.of_restarted (h : store.restarted.IsSettled) : store.IsSettled := by
  intro entry hentry
  have hkind := h entry.restarted (List.mem_map_of_mem hentry)
  simpa only [Entry.restarted, Rule.kind_restarted] using hkind

/-- Draws have nothing to move on in rules without a course. -/
theorem eq_of_restarted (h : store'.restarted = store.restarted) (hsettled : store.IsSettled) :
    store' = store := by
  rw [hsettled.restarted] at h
  have hafter : store'.IsSettled := IsSettled.of_restarted (h ▸ hsettled)
  rw [← hafter.restarted, h]

theorem isSettled_empty : (∅ : Store).IsSettled := by
  intro entry hentry
  exact absurd hentry List.not_mem_nil

/-- An entry after a put has the rule that was put under its name, or was there before. -/
theorem mem_putEntry {added entry : Entry} {entries : List Entry}
    (h : entry ∈ putEntry added entries) :
    entry.name = added.name ∧ entry.rule = added.rule ∨ entry ∈ entries := by
  induction entries with
  | nil =>
    obtain rfl := List.mem_singleton.1 h
    exact .inl ⟨rfl, rfl⟩
  | cons first rest ih =>
    simp only [putEntry] at h
    split at h
    · rename_i hfirst
      rcases List.mem_cons.1 h with rfl | hrest
      · exact .inl ⟨hfirst.1, rfl⟩
      · exact .inr (List.mem_cons_of_mem _ hrest)
    · rcases List.mem_cons.1 h with rfl | hrest
      · exact .inr List.mem_cons_self
      · exact (ih hrest).imp_right (List.mem_cons_of_mem _)

/-- Registration puts a rule under a name that is not empty, and leaves the others. -/
theorem mem_register {shown : Datum} {shadowing : Option Shadowing} {entry : Entry}
    (h : store.register shown rule = .ok (store', shadowing)) (hentry : entry ∈ store'.entries) :
    entry.name ≠ "" ∧ entry.rule = rule ∨ entry ∈ store.entries := by
  simp only [register] at h
  split at h
  · cases h
  · split at h
    · cases h
    · rename_i hne
      cases h
      refine (mem_putEntry hentry).imp_left ?_
      rintro ⟨hname, hrule⟩
      exact ⟨by simpa [hname] using hne, hrule⟩

theorem IsSettled.register {shown : Datum} {shadowing : Option Shadowing}
    (hsettled : store.IsSettled) (hrule : rule.kind ≠ .function ∧ rule.kind ≠ .sequential)
    (h : store.register shown rule = .ok (store', shadowing)) : store'.IsSettled := by
  intro entry hentry
  rcases mem_register h hentry with ⟨-, heq⟩ | hmem
  · rw [heq]
    exact hrule
  · exact hsettled entry hmem

end Store

end TextGrammar
