import Mathlib.Data.List.Chain
import Mathlib.Data.List.Perm.Subperm
import Mathlib.Data.Nat.SuccPred
import Mathlib.Logic.Relation
import TextGrammar.Proofs.Rule.Texts

/-! Which names a rule asks for, and how deep names nest below each other. -/
namespace TextGrammar.Store

variable {store : Store} {texts : Rule → List String} {name other : String}

/-- A text of the rule under a name has a token for another name. Replays ask for nothing. -/
def Refers (store : Store) (texts : Rule → List String) (name other : String) : Prop :=
  ∃ rule, store.rule? name = some rule ∧
    ∃ text ∈ texts rule, .token other ∈ Segment.split text ∧ isReplay other = false

/-- One name leads to another over any number of rules. -/
def Reaches (store : Store) (texts : Rule → List String) : String → String → Prop :=
  Relation.ReflTransGen (store.Refers texts)

/-- No rule that a name leads to leads back to itself. -/
def NoCircle (store : Store) (texts : Rule → List String) (name : String) : Prop :=
  ∀ other, store.Reaches texts name other → ¬Relation.TransGen (store.Refers texts) other other

/-- So many rules, one below the other, are all there are below a name. -/
def NestsWithin (store : Store) (texts : Rule → List String) : ℕ → String → Prop
  | 0, name => store.rule? name = none
  | depth + 1, name => ∀ other, store.Refers texts name other → NestsWithin store texts depth other

section Mono

variable {texts' : Rule → List String} (hsub : ∀ rule, texts rule ⊆ texts' rule)
include hsub

theorem Refers.mono (h : store.Refers texts name other) : store.Refers texts' name other := by
  obtain ⟨rule, hrule, text, htext, htoken⟩ := h
  exact ⟨rule, hrule, text, hsub rule htext, htoken⟩

theorem Reaches.mono (h : store.Reaches texts name other) : store.Reaches texts' name other :=
  Relation.ReflTransGen.mono (fun _ _ => Refers.mono hsub) name other h

theorem NoCircle.mono (h : store.NoCircle texts' name) : store.NoCircle texts name := by
  intro other hreaches hcircle
  apply h other (hreaches.mono hsub)
  exact Relation.TransGen.mono (fun _ _ => Refers.mono hsub) other other hcircle

end Mono

theorem not_refers_of_none (h : store.rule? name = none) : ¬store.Refers texts name other := by
  rintro ⟨rule, hrule, -⟩
  rw [h] at hrule
  cases hrule

theorem hasName_of_refers (h : store.Refers texts name other) : store.hasName name = true := by
  obtain ⟨rule, hrule, -⟩ := h
  exact exists_rule?_iff.1 ⟨rule, hrule⟩

theorem NestsWithin.succ {depth : ℕ} (h : store.NestsWithin texts depth name) :
    store.NestsWithin texts (depth + 1) name := by
  induction depth generalizing name with
  | zero =>
    intro other hother
    exact absurd hother (not_refers_of_none h)
  | succ depth ih =>
    intro other hother
    exact ih (h other hother)

theorem NestsWithin.mono {depth depth' : ℕ} (h : store.NestsWithin texts depth name)
    (hle : depth ≤ depth') : store.NestsWithin texts depth' name := by
  induction hle with
  | refl => exact h
  | step _ ih => exact ih.succ

/-- Names that nest do not lead back to themselves. -/
theorem NestsWithin.irrefl {depth : ℕ} (h : store.NestsWithin texts depth name) :
    ¬Relation.TransGen (store.Refers texts) name name := by
  induction depth generalizing name with
  | zero =>
    intro hcircle
    obtain ⟨other, hother, -⟩ := Relation.TransGen.head'_iff.1 hcircle
    exact not_refers_of_none h hother
  | succ depth ih =>
    intro hcircle
    obtain ⟨other, hother, hback⟩ := Relation.TransGen.head'_iff.1 hcircle
    exact ih (h other hother) (Relation.TransGen.tail' hback hother)

/-- Names of rules, each of which asks for the next one. -/
structure IsRuleChain (store : Store) (texts : Rule → List String) (names : List String) :
    Prop where
  refers : names.IsChain (store.Refers texts)
  registered : ∀ name ∈ names, store.hasName name = true

theorem isRuleChain_nil : store.IsRuleChain texts [] := ⟨List.isChain_nil, by simp⟩

theorem isRuleChain_cons_cons {names : List String} :
    store.IsRuleChain texts (name :: other :: names) ↔
      store.Refers texts name other ∧ store.IsRuleChain texts (other :: names) := by
  constructor
  · rintro ⟨hrefers, hregistered⟩
    obtain ⟨hfirst, hrest⟩ := List.isChain_cons_cons.1 hrefers
    exact ⟨hfirst, hrest, fun next hnext => hregistered next (List.mem_cons_of_mem _ hnext)⟩
  · rintro ⟨hfirst, hrest, hregistered⟩
    refine ⟨List.isChain_cons_cons.2 ⟨hfirst, hrest⟩, ?_⟩
    intro next hnext
    rcases List.mem_cons.1 hnext with rfl | hnext
    · exact hasName_of_refers hfirst
    · exact hregistered next hnext

/-- Depth is the length of the longest chain of rules. -/
theorem nestsWithin_iff_chains {depth : ℕ} :
    store.NestsWithin texts depth name ↔
      ∀ names, store.IsRuleChain texts (name :: names) → names.length < depth := by
  induction depth generalizing name with
  | zero =>
    rw [NestsWithin, rule?_eq_none_iff, ← Bool.not_eq_true]
    constructor
    · intro hname names hchain
      exact absurd (hchain.registered name List.mem_cons_self) hname
    · intro h hname
      have hsingle : store.IsRuleChain texts [name] :=
        ⟨List.isChain_singleton name, by simpa using hname⟩
      exact absurd (h [] hsingle) (Nat.not_lt_zero _)
  | succ depth ih =>
    constructor
    · intro h names hchain
      cases names with
      | nil => exact Nat.succ_pos depth
      | cons other rest =>
        obtain ⟨hrefers, hrest⟩ := isRuleChain_cons_cons.1 hchain
        exact Nat.succ_lt_succ (ih.1 (h other hrefers) rest hrest)
    · intro h other hrefers
      refine ih.2 fun names hchain => ?_
      exact Nat.lt_of_succ_lt_succ (h (other :: names) (isRuleChain_cons_cons.2 ⟨hrefers, hchain⟩))

theorem nestsWithin_of_chains {depth : ℕ}
    (h : ∀ names, List.IsChain (store.Refers texts) (name :: names) → names.length < depth) :
    store.NestsWithin texts depth name :=
  nestsWithin_iff_chains.2 fun names hchain => h names hchain.refers

theorem mem_names_of_hasName (h : store.hasName name = true) : name ∈ store.names := by
  obtain ⟨entry, hmem, hname⟩ := List.any_eq_true.1 h
  rw [names, List.mem_eraseDups, List.mem_flatMap]
  refine ⟨entry.rule.kind, RuleKind.mem_all _, List.mem_map.2 ⟨entry, ?_, by simpa using hname⟩⟩
  exact List.mem_filter.2 ⟨hmem, by simp⟩

/-- A path of different names, and room for all names of the store that are not on it. -/
structure IsPath (store : Store) (room : ℕ) (path : List String) : Prop where
  nodup : path.Nodup
  registered : ∀ name ∈ path, store.hasName name = true
  room : store.names.length < room + path.length

section Paths

variable {room : ℕ} {path : List String}

theorem isPath_nil (hroom : store.names.length < room) : store.IsPath room [] where
  nodup := List.nodup_nil
  registered := by simp
  room := hroom

theorem not_isPath_zero : ¬ store.IsPath 0 path := by
  intro h
  have hsub : path ⊆ store.names := fun name hname => mem_names_of_hasName (h.registered name hname)
  have hle := (List.Nodup.subperm h.nodup hsub).length_le
  have hlt := h.room
  omega

theorem IsPath.cons (h : store.IsPath (room + 1) path) (hnew : name ∉ path)
    (hname : store.hasName name = true) : store.IsPath room (name :: path) where
  nodup := List.nodup_cons.2 ⟨hnew, h.nodup⟩
  registered := by
    intro other hother
    rcases List.mem_cons.1 hother with rfl | hother
    · exact hname
    · exact h.registered other hother
  room := by
    have hroom := h.room
    rw [List.length_cons]
    omega

/-- A path of names that all lead to a name leaves room for the other names only. -/
theorem IsPath.nestsWithin (hpath : store.IsPath (room + 1) path)
    (hleads : ∀ first ∈ path, Relation.TransGen (store.Refers texts) first name)
    (hcircle : store.NoCircle texts name) : store.NestsWithin texts room name := by
  have hnew : name ∉ path := fun hmem => hcircle name .refl (hleads name hmem)
  induction room generalizing path name with
  | zero =>
    rw [NestsWithin, rule?_eq_none_iff, ← Bool.not_eq_true]
    intro hname
    exact not_isPath_zero (hpath.cons hnew hname)
  | succ room ih =>
    intro other hother
    have hleads' : ∀ first ∈ name :: path, Relation.TransGen (store.Refers texts) first other := by
      intro first hfirst
      rcases List.mem_cons.1 hfirst with rfl | hfirst
      · exact .single hother
      · exact (hleads first hfirst).tail hother
    have hcircle' : store.NoCircle texts other := fun last hlast => hcircle last (hlast.head hother)
    exact ih (hpath.cons hnew (hasName_of_refers hother)) hleads' hcircle'
      fun hmem => hcircle' other .refl (hleads' other hmem)

theorem nestsWithin_of_noCircle (h : store.NoCircle texts name) :
    store.NestsWithin texts store.names.length name :=
  (isPath_nil (Nat.lt_succ_self _)).nestsWithin (by simp) h

end Paths

/-- A text asks for a name if it has a token for it that is no replay. -/
def Asks (text name : String) : Prop := .token name ∈ Segment.split text ∧ isReplay name = false

/-- A chain of rules whose first one the text asks for. -/
def IsChainFrom (store : Store) (texts : Rule → List String) (text : String) (names : List String) :
    Prop :=
  store.IsRuleChain texts names ∧ ∀ name ∈ names.head?, Asks text name

/-- How long the chains of rules from a text are. -/
def chainLengths (store : Store) (texts : Rule → List String) (text : String) : Set ℕ :=
  { length | ∃ names, store.IsChainFrom texts text names ∧ names.length = length }

/-- The rules of a text nest within a depth if no chain from the text is longer. -/
theorem nestsWithin_of_chainLengths {text : String} {depth : ℕ}
    (h : ∀ length ∈ store.chainLengths texts text, length ≤ depth) (hasks : Asks text name) :
    store.NestsWithin texts depth name := by
  refine nestsWithin_iff_chains.2 fun names hchain => ?_
  have hmem : (name :: names).length ∈ store.chainLengths texts text := by
    refine ⟨name :: names, ⟨hchain, ?_⟩, rfl⟩
    rintro first ⟨⟩
    exact hasks
  exact h _ hmem

/-- Without circles some chain from a text is the longest. -/
theorem exists_longest_chain {text : String}
    (h : ∀ name, Asks text name → store.NoCircle texts name) :
    ∃ longest, IsGreatest (store.chainLengths texts text) longest := by
  refine BddAbove.exists_isGreatest_of_nonempty ⟨store.names.length, ?_⟩
    ⟨0, [], ⟨isRuleChain_nil, ?_⟩, rfl⟩
  · rintro length ⟨names, ⟨hchain, hfirst⟩, rfl⟩
    cases names with
    | nil => exact Nat.zero_le _
    | cons name rest =>
      have hnest := nestsWithin_of_noCircle (h name (hfirst name rfl))
      exact nestsWithin_iff_chains.1 hnest rest hchain
  · simp

end TextGrammar.Store

namespace TextGrammar

variable {texts : Rule → List String} {name other : String}

theorem nestedStore_token (hs : ∀ rule, texts (.static rule) = rule.values) {rule : Rule}
    {text token : String} (hr : nestedStore.rule? name = some rule) (ht : text ∈ texts rule)
    (hm : .token token ∈ Segment.split text) : name = "a" ∧ token = "b" := by
  obtain ⟨entry, he, rfl, rfl⟩ := Store.exists_entry_of_rule? hr
  simp only [nestedStore, List.mem_cons, List.not_mem_nil, or_false] at he
  obtain ⟨hx, hb, hy, hz⟩ := nestedStore_split
  rcases he with rfl | rfl
  · simp only [hs, List.mem_cons, List.not_mem_nil, or_false] at ht
    rcases ht with rfl | rfl
    · simp [hx] at hm
    · simpa [hb] using hm
  · simp only [hs, List.mem_cons, List.not_mem_nil, or_false] at ht
    rcases ht with rfl | rfl
    · simp [hy] at hm
    · simp [hz] at hm

theorem nestedStore_refers (hs : ∀ rule, texts (.static rule) = rule.values)
    (h : nestedStore.Refers texts name other) : name = "a" ∧ other = "b" := by
  obtain ⟨rule, hr, text, ht, hm, -⟩ := h
  exact nestedStore_token hs hr ht hm

theorem nestedStore_noCircle (hs : ∀ rule, texts (.static rule) = rule.values) :
    nestedStore.NoCircle texts name := by
  intro other _ hcircle
  obtain ⟨first, hfirst, -⟩ := Relation.TransGen.head'_iff.1 hcircle
  obtain ⟨last, -, hlast⟩ := Relation.TransGen.tail'_iff.1 hcircle
  have ha := (nestedStore_refers hs hfirst).1
  have hb := (nestedStore_refers hs hlast).2
  rw [ha] at hb
  exact absurd hb (by decide)

theorem nestedStore_chain (hs : ∀ rule, texts (.static rule) = rule.values) {names : List String}
    (h : List.IsChain (nestedStore.Refers texts) (name :: names)) : names.length ≤ 1 := by
  cases names with
  | nil => exact Nat.zero_le 1
  | cons second rest =>
    obtain ⟨hfirst, hrest⟩ := List.isChain_cons_cons.1 h
    cases rest with
    | nil => exact le_rfl
    | cons third rest =>
      obtain ⟨hsecond, -⟩ := List.isChain_cons_cons.1 hrest
      have hb := (nestedStore_refers hs hfirst).2
      rw [(nestedStore_refers hs hsecond).1] at hb
      exact absurd hb (by decide)

end TextGrammar
