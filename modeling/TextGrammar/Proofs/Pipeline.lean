import TextGrammar.Modifier
import TextGrammar.Proofs.Number.Order
import TextGrammar.Proofs.Result

/-! The order of modifiers after any changes: by priority, and then by the slots of their names. -/
namespace TextGrammar

section Sorting

variable {α β : Type} [LinearOrder β] {key : α → β} {items : List α}

/-- Items in the order of their keys, from the greatest on. -/
def sortedByKey (key : α → β) (items : List α) : List α :=
  items.mergeSort fun a b => decide (key b ≤ key a)

theorem trans_key (a b c : α) (hab : decide (key b ≤ key a) = true)
    (hbc : decide (key c ≤ key b) = true) : decide (key c ≤ key a) = true :=
  decide_eq_true ((of_decide_eq_true hbc).trans (of_decide_eq_true hab))

theorem total_key (a b : α) : (decide (key b ≤ key a) || decide (key a ≤ key b)) = true := by
  rcases le_total (key b) (key a) with h | h
  · simp [h]
  · simp [h]

theorem pairwise_sortedByKey : (sortedByKey key items).Pairwise fun a b => key b ≤ key a :=
  (List.pairwise_mergeSort trans_key total_key items).imp of_decide_eq_true

/-- The items of one key stay in the order in which they were. -/
theorem filter_sortedByKey (value : β) :
    (sortedByKey key items).filter (key · = value) = items.filter (key · = value) := by
  have hkeys (a : α) (ha : a ∈ items.filter (key · = value)) : key a = value := by
    simpa using (List.mem_filter.1 ha).2
  have hequal : (items.filter (key · = value)).Pairwise fun a b => decide (key b ≤ key a) = true :=
    List.pairwise_of_forall_mem_list fun a ha b hb =>
      decide_eq_true ((hkeys b hb).trans (hkeys a ha).symm).le
  have hsub : (items.filter (key · = value)).Sublist (sortedByKey key items) :=
    List.sublist_mergeSort trans_key total_key hequal List.filter_sublist
  have hfiltered := hsub.filter (key · = value)
  rw [List.filter_filter] at hfiltered
  simp only [Bool.and_self] at hfiltered
  have hperm := (List.mergeSort_perm items fun a b => decide (key b ≤ key a)).filter (key · = value)
  exact (hfiltered.eq_of_length hperm.symm.length_eq).symm

theorem sublist_of_sublist_sortedByKey {a b : α} (h : [a, b].Sublist (sortedByKey key items))
    (hkey : key a = key b) : [a, b].Sublist items := by
  have hsub := h.filter (key · = key b)
  rw [filter_sortedByKey] at hsub
  simp only [List.filter_cons, hkey, decide_true] at hsub
  exact hsub.trans List.filter_sublist

theorem mergeSort_congr {le other : α → α → Bool}
    (h : ∀ a ∈ items, ∀ b ∈ items, le a b = other a b) :
    items.mergeSort le = items.mergeSort other := by
  simpa using List.map_mergeSort (f := id) (r := le) (s := other) h

/-- What was in order before the sort is so wherever the keys do not decide. -/
theorem pairwise_sortedByKey_of_pairwise {before : α → α → Prop} (h : items.Pairwise before) :
    (sortedByKey key items).Pairwise fun a b => key b < key a ∨ key a = key b ∧ before a b := by
  refine List.pairwise_iff_forall_sublist.2 fun {a b} hsub => ?_
  have hle : key b ≤ key a := List.pairwise_iff_forall_sublist.1 pairwise_sortedByKey hsub
  rcases hle.lt_or_eq with hlt | heq
  · exact .inl hlt
  · have hbefore := List.pairwise_iff_forall_sublist.1 h
      (sublist_of_sublist_sortedByKey hsub heq.symm)
    exact .inr ⟨heq.symm, hbefore⟩

end Sorting

namespace Pipeline

/-- What a call does to a pipeline. -/
inductive Change where
  | put (modifier : Modifier)
  | drop (name : String)
  | clear

/-- Changes, from the latest on. -/
abbrev History := List Change

def change (pipeline : Pipeline) : Change → Pipeline
  | .put modifier => pipeline.add modifier
  | .drop name => pipeline.erase name
  | .clear => ∅

/-- A pipeline after changes, the first one first. -/
def changeAll (pipeline : Pipeline) (changes : List Change) : Pipeline := changes.foldl change pipeline

theorem changeAll_append (pipeline : Pipeline) (first rest : List Change) :
    pipeline.changeAll (first ++ rest) = (pipeline.changeAll first).changeAll rest :=
  List.foldl_append

namespace History

/-- The modifier put last under a name, unless it was dropped since. -/
def latest? (name : String) : History → Option Modifier
  | [] => none
  | .put modifier :: earlier =>
    if modifier.name = name then some modifier else latest? name earlier
  | .drop dropped :: earlier => if dropped = name then none else latest? name earlier
  | .clear :: _ => none

/-- The moment at which a name was first put since it was last absent. A put under a name that is
there changes no slot. -/
def slot? (name : String) : History → Option Nat
  | [] => none
  | .put modifier :: earlier =>
    (slot? name earlier).or (if modifier.name = name then some earlier.length else none)
  | .drop dropped :: earlier => if dropped = name then none else slot? name earlier
  | .clear :: _ => none

/-- Both names have slots, the first the earlier one. -/
def IsBefore (history : History) (first second : String) : Prop :=
  ∃ i j, history.slot? first = some i ∧ history.slot? second = some j ∧ i < j

/-- Higher priorities first, and the earlier slot where they are the same. -/
def Precedes (history : History) (first second : Modifier) : Prop :=
  second.priority.extended < first.priority.extended ∨
    first.priority.extended = second.priority.extended ∧ history.IsBefore first.name second.name

variable {history : History} {name first second : String}

/-- A name has a slot while there is a modifier under it. -/
theorem isSome_slot? (history : History) (name : String) :
    (history.slot? name).isSome = (history.latest? name).isSome := by
  induction history with
  | nil => rfl
  | cons latest earlier ih =>
    cases latest with
    | put modifier =>
      simp only [slot?, latest?]
      split
      · cases slot? name earlier <;> rfl
      · simpa using ih
    | drop dropped =>
      simp only [slot?, latest?]
      split
      · rfl
      · exact ih
    | clear => rfl

theorem mem_of_latest? {modifier : Modifier} (h : history.latest? name = some modifier) :
    .put modifier ∈ history := by
  induction history with
  | nil => cases h
  | cons latest earlier ih =>
    cases latest with
    | put other =>
      rw [latest?] at h
      split at h
      · cases h
        exact List.mem_cons_self
      · exact List.mem_cons_of_mem _ (ih h)
    | drop dropped =>
      rw [latest?] at h
      split at h
      · cases h
      · exact List.mem_cons_of_mem _ (ih h)
    | clear => cases h

theorem slot?_lt_length {i : Nat} (h : history.slot? name = some i) : i < history.length := by
  induction history with
  | nil => cases h
  | cons latest earlier ih =>
    rw [List.length_cons]
    cases latest with
    | put modifier =>
      rw [slot?, Option.or_eq_some_iff] at h
      rcases h with h | ⟨-, h⟩
      · exact Nat.lt_succ_of_lt (ih h)
      · split at h
        · cases h
          exact Nat.lt_succ_self _
        · cases h
    | drop dropped =>
      rw [slot?] at h
      split at h
      · cases h
      · exact Nat.lt_succ_of_lt (ih h)
    | clear => cases h

theorem IsBefore.ne (h : history.IsBefore first second) : first ≠ second := by
  rintro rfl
  obtain ⟨i, j, hi, hj, hlt⟩ := h
  cases hi.symm.trans hj
  exact hlt.false

/-- A put leaves the slots that there are. -/
theorem slot?_put {i : Nat} (h : history.slot? name = some i) (modifier : Modifier) :
    slot? name (.put modifier :: history) = some i := by
  rw [slot?, h]
  rfl

theorem IsBefore.put (h : history.IsBefore first second) (modifier : Modifier) :
    IsBefore (.put modifier :: history) first second := by
  obtain ⟨i, j, hi, hj, hlt⟩ := h
  exact ⟨i, j, slot?_put hi modifier, slot?_put hj modifier, hlt⟩

/-- The slot of a name that was absent is the last one. -/
theorem IsBefore.of_new {modifier : Modifier} (hfirst : (history.latest? first).isSome)
    (hnew : history.latest? modifier.name = none) :
    IsBefore (.put modifier :: history) first modifier.name := by
  rw [← isSome_slot?] at hfirst
  obtain ⟨i, hi⟩ := Option.isSome_iff_exists.1 hfirst
  have hnone : history.slot? modifier.name = none := by
    rw [← Option.not_isSome_iff_eq_none, isSome_slot?, hnew]
    exact Bool.false_ne_true
  refine ⟨i, history.length, slot?_put hi modifier, ?_, slot?_lt_length hi⟩
  rw [slot?, hnone, if_pos rfl]
  rfl

theorem IsBefore.drop (h : history.IsBefore first second) {dropped : String}
    (hfirst : first ≠ dropped) (hsecond : second ≠ dropped) :
    IsBefore (.drop dropped :: history) first second := by
  obtain ⟨i, j, hi, hj, hlt⟩ := h
  refine ⟨i, j, ?_, ?_, hlt⟩
  · rw [slot?, if_neg hfirst.symm, hi]
  · rw [slot?, if_neg hsecond.symm, hj]

end History

/-- A table that has what a history left, in the order of the slots. -/
structure Remembers (pipeline : Pipeline) (history : History) : Prop where
  latest (name : String) : pipeline.modifiers.get? name = history.latest? name
  named : ∀ entry ∈ pipeline.modifiers.entries, entry.2.name = entry.1
  slots : pipeline.modifiers.names.Pairwise history.IsBefore

section Remembers

variable {pipeline : Pipeline} {history : History}

theorem Remembers.isSome_latest? (h : pipeline.Remembers history) {name : String} :
    (history.latest? name).isSome = true ↔ name ∈ pipeline.modifiers.names := by
  rw [← h.latest, Table.isSome_get?_iff]

theorem Remembers.put (h : pipeline.Remembers history) (modifier : Modifier) :
    (pipeline.add modifier).Remembers (.put modifier :: history) where
  latest name := by
    simp only [add, Table.get?_put, h.latest, History.latest?, eq_comm]
  named entry hentry := by
    rcases Table.mem_put hentry with rfl | hold
    · rfl
    · exact h.named entry hold
  slots := by
    have hslots := h.slots.imp fun hbefore => History.IsBefore.put hbefore modifier
    rw [add, Table.names_put]
    split
    · exact hslots
    · rename_i hnew
      refine List.pairwise_append.2 ⟨hslots, List.pairwise_singleton _ _, ?_⟩
      intro name hname other hother
      obtain rfl := List.mem_singleton.1 hother
      refine .of_new (h.isSome_latest?.2 hname) ?_
      rwa [← h.isSome_latest?, Option.not_isSome_iff_eq_none] at hnew

theorem Remembers.drop (h : pipeline.Remembers history) (dropped : String) :
    (pipeline.erase dropped).Remembers (.drop dropped :: history) where
  latest name := by
    simp only [erase, Table.get?_erase, h.latest, History.latest?, eq_comm]
  named entry hentry := h.named entry (List.mem_filter.1 hentry).1
  slots := by
    rw [erase, Table.names_erase]
    refine (h.slots.filter _).imp_of_mem fun {first second} hfirst hsecond hbefore => ?_
    have hfirst : first ≠ dropped := by simpa using (List.mem_filter.1 hfirst).2
    have hsecond : second ≠ dropped := by simpa using (List.mem_filter.1 hsecond).2
    exact hbefore.drop hfirst hsecond

theorem remembers_empty (h : ∀ name, history.latest? name = none) : Remembers ∅ history where
  latest name := (h name).symm
  named _ hentry := nomatch hentry
  slots := .nil

theorem Remembers.change (h : pipeline.Remembers history) (change : Change) :
    (pipeline.change change).Remembers (change :: history) := by
  cases change with
  | put modifier => exact h.put modifier
  | drop dropped => exact h.drop dropped
  | clear => exact remembers_empty fun _ => rfl

theorem Remembers.changeAll (h : pipeline.Remembers history) (changes : List Change) :
    (pipeline.changeAll changes).Remembers (changes.reverse ++ history) := by
  induction changes generalizing pipeline history with
  | nil => exact h
  | cons first rest ih =>
    rw [List.reverse_cons, List.append_assoc]
    exact ih (h.change first)

/-- The modifiers in the order of their places. -/
def registered (pipeline : Pipeline) : List Modifier := pipeline.modifiers.entries.map Prod.snd

theorem Remembers.names (h : pipeline.Remembers history) :
    pipeline.registered.map (·.name) = pipeline.modifiers.names := by
  rw [registered, List.map_map]
  exact List.map_congr_left h.named

theorem Remembers.mem_registered (h : pipeline.Remembers history) {modifier : Modifier} :
    modifier ∈ pipeline.registered ↔ history.latest? modifier.name = some modifier := by
  rw [← h.latest, Table.get?_eq_some_iff (h.slots.imp History.IsBefore.ne), registered, List.mem_map]
  constructor
  · rintro ⟨⟨name, value⟩, hentry, rfl⟩
    rwa [h.named _ hentry]
  · exact fun hentry => ⟨_, hentry, rfl⟩

theorem Remembers.pairwise_registered (h : pipeline.Remembers history) :
    pipeline.registered.Pairwise fun first second => history.IsBefore first.name second.name := by
  have hslots := h.slots
  rwa [← h.names, List.pairwise_map] at hslots

theorem ordered_eq_sortedByKey
    (h : ∀ modifier ∈ pipeline.registered, modifier.priority.isNan = false) :
    pipeline.ordered = sortedByKey (·.priority.extended) pipeline.registered := by
  have hall : pipeline.registered.any (·.priority.isNan) = false := by
    simpa [List.any_eq_false] using h
  have hle (first : Modifier) (hfirst : first ∈ pipeline.registered) (second : Modifier)
      (hsecond : second ∈ pipeline.registered) : (!first.priority.lt second.priority) =
        decide (second.priority.extended ≤ first.priority.extended) := by
    have hlt := Amount.lt_iff_extended_lt (h first hfirst) (h second hsecond)
    by_cases hless : first.priority.lt second.priority = true
    · simp [hless, hlt.1 hless]
    · simp [hless, not_lt.1 (hless ∘ hlt.2)]
  have hordered : pipeline.ordered =
      pipeline.registered.mergeSort fun first second => !first.priority.lt second.priority := by
    rw [registered] at hall ⊢
    rw [ordered, hall]
    rfl
  rw [hordered]
  exact mergeSort_congr hle

variable (hnumbers : ∀ name modifier, history.latest? name = some modifier →
  modifier.priority.isNan = false)

include hnumbers

theorem Remembers.ordered_eq (h : pipeline.Remembers history) :
    pipeline.ordered = sortedByKey (·.priority.extended) pipeline.registered :=
  ordered_eq_sortedByKey fun _ hmodifier => hnumbers _ _ (h.mem_registered.1 hmodifier)

theorem Remembers.perm_ordered (h : pipeline.Remembers history) :
    pipeline.ordered.Perm pipeline.registered := by
  rw [h.ordered_eq hnumbers]
  exact List.mergeSort_perm _ _

theorem Remembers.mem_ordered (h : pipeline.Remembers history) {modifier : Modifier} :
    modifier ∈ pipeline.ordered ↔ history.latest? modifier.name = some modifier :=
  (h.perm_ordered hnumbers).mem_iff.trans h.mem_registered

theorem Remembers.nodup_ordered (h : pipeline.Remembers history) :
    (pipeline.ordered.map (·.name)).Nodup := by
  have hnodup := h.slots.imp History.IsBefore.ne
  rw [← h.names] at hnodup
  exact (((h.perm_ordered hnumbers).map _).nodup_iff).2 hnodup

theorem Remembers.pairwise_ordered (h : pipeline.Remembers history) :
    pipeline.ordered.Pairwise history.Precedes := by
  rw [h.ordered_eq hnumbers]
  exact pairwise_sortedByKey_of_pairwise h.pairwise_registered

end Remembers

/-- What becomes of a text when modifiers are run on it, each once: every condition is asked about
what the modifiers before it left, and where it does not hold the text is passed on as it is. The
first failure ends it. -/
inductive Passes (background : Background) : List Modifier → Value → Except Failure Value → Prop where
  | done (text : Value) : Passes background [] text (.ok text)
  | skipped {modifier : Modifier} {rest : List Modifier} {text : Value}
      {result : Except Failure Value} :
    modifier.condition text background = .ok false → Passes background rest text result →
      Passes background (modifier :: rest) text result
  | changed {modifier : Modifier} {rest : List Modifier} {text next : Value}
      {result : Except Failure Value} :
    modifier.condition text background = .ok true →
      modifier.transform text background = .ok next → Passes background rest next result →
        Passes background (modifier :: rest) text result
  | conditionFailed {modifier : Modifier} {rest : List Modifier} {text : Value} {failure : Failure} :
    modifier.condition text background = .error failure →
      Passes background (modifier :: rest) text (.error failure)
  | transformFailed {modifier : Modifier} {rest : List Modifier} {text : Value} {failure : Failure} :
    modifier.condition text background = .ok true →
      modifier.transform text background = .error failure →
        Passes background (modifier :: rest) text (.error failure)

section Passes

variable {background : Background} {modifiers : List Modifier} {text : Value}
  {result other : Except Failure Value}

theorem passes_foldlM (modifiers : List Modifier) (text : Value) : Passes background modifiers text
    (modifiers.foldlM (fun text modifier => modifier.apply background text) text) := by
  induction modifiers generalizing text with
  | nil => exact .done text
  | cons modifier rest ih =>
    rw [List.foldlM_cons, Modifier.apply]
    rcases hcondition : modifier.condition text background with failure | _ | _
    · exact .conditionFailed hcondition
    · exact .skipped hcondition (ih text)
    · rcases htransform : modifier.transform text background with failure | next
      · simpa [htransform] using .transformFailed hcondition htransform
      · simpa [htransform] using .changed hcondition htransform (ih next)

/-- There is one result. -/
theorem Passes.unique (h : Passes background modifiers text result)
    (hother : Passes background modifiers text other) : result = other := by
  induction h with
  | done =>
    cases hother
    rfl
  | skipped hcondition _ ih =>
    cases hother with
    | skipped _ hrest => exact ih hrest
    | _ => simp_all
  | changed hcondition htransform _ ih =>
    cases hother with
    | changed _ hnext hrest =>
      cases htransform.symm.trans hnext
      exact ih hrest
    | _ => simp_all
  | conditionFailed hcondition => cases hother <;> simp_all
  | transformFailed hcondition htransform => cases hother <;> simp_all

theorem apply_eq_iff (pipeline : Pipeline) : pipeline.apply background text = result ↔
    Passes background pipeline.ordered text result := by
  constructor
  · rintro rfl
    exact passes_foldlM _ _
  · exact (passes_foldlM _ _).unique

end Passes

end Pipeline

end TextGrammar
