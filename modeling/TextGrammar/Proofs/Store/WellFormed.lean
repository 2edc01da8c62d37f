import Mathlib.Data.List.Nodup
import TextGrammar.Proofs.Reference
import TextGrammar.Proofs.Rule.WellFormed

/-! What every store can be relied on for: tables and questions about names agree. -/
namespace TextGrammar

/-- What tells entries apart. -/
def Entry.key (entry : Entry) : String × RuleKind := (entry.name, entry.rule.kind)

structure Store.WellFormed (store : Store) : Prop where
  rules : ∀ entry ∈ store.entries, entry.name ≠ "" ∧ entry.rule.WellFormed
  keys : (store.entries.map Entry.key).Nodup

namespace Store

variable {store store' : Store} {name shown : String} {rule : Rule} {scope : Scope}
  {source : Source}

theorem wellFormed_empty : (∅ : Store).WellFormed where
  rules _ hentry := absurd hentry List.not_mem_nil
  keys := List.nodup_nil

/-- A put replaces the entry of its key, or adds the key at the end. -/
theorem map_key_putEntry (added : Entry) (entries : List Entry) :
    (putEntry added entries).map Entry.key = entries.map Entry.key ∨
      added.key ∉ entries.map Entry.key ∧
        (putEntry added entries).map Entry.key = entries.map Entry.key ++ [added.key] := by
  induction entries with
  | nil => exact .inr ⟨List.not_mem_nil, rfl⟩
  | cons first rest ih =>
    simp only [putEntry]
    split
    · rename_i hfirst
      refine .inl ?_
      simp [Entry.key, hfirst.2]
    · rename_i hfirst
      have hne : added.key ≠ first.key := by
        intro heq
        obtain ⟨hname, hkind⟩ := Prod.ext_iff.1 heq
        exact hfirst ⟨hname.symm, hkind.symm⟩
      rcases ih with hsame | ⟨hnew, hadded⟩
      · exact .inl (by rw [List.map_cons, hsame, List.map_cons])
      · refine .inr ⟨?_, by rw [List.map_cons, hadded, List.map_cons, List.cons_append]⟩
        rw [List.map_cons, List.mem_cons, not_or]
        exact ⟨hne, hnew⟩

theorem WellFormed.putEntry (h : store.WellFormed) {added : Entry} (hname : added.name ≠ "")
    (hrule : added.rule.WellFormed) :
    (⟨Store.putEntry added store.entries⟩ : Store).WellFormed where
  rules entry hentry := by
    rcases mem_putEntry hentry with ⟨hsame, heq⟩ | hmem
    · rw [hsame, heq]
      exact ⟨hname, hrule⟩
    · exact h.rules entry hmem
  keys := by
    rcases map_key_putEntry added store.entries with hsame | ⟨hnew, hadded⟩
    · simpa only [hsame] using h.keys
    · simp only [hadded]
      exact List.nodup_append.2 ⟨h.keys, List.nodup_singleton _, by
        rintro key hkey _ hadded rfl
        exact hnew (List.mem_singleton.1 hadded ▸ hkey)⟩

theorem WellFormed.filter (h : store.WellFormed) (keep : Entry → Bool) :
    (⟨store.entries.filter keep⟩ : Store).WellFormed where
  rules entry hentry := h.rules entry (List.mem_filter.1 hentry).1
  keys := h.keys.sublist (List.filter_sublist.map _)

theorem WellFormed.register {given : Datum} {shadowing : Option Shadowing} (h : store.WellFormed)
    (hrule : rule.WellFormed) (hregister : store.register given rule = .ok (store', shadowing)) :
    store'.WellFormed := by
  simp only [Store.register] at hregister
  split at hregister
  · cases hregister
  · split at hregister
    · cases hregister
    · rename_i hne
      cases hregister
      exact h.putEntry (by simpa using hne) hrule

theorem WellFormed.drawShown (h : store.WellFormed) :
    (store.drawShown shown name scope source).2.1.WellFormed := by
  simp only [Store.drawShown]
  split
  · exact h
  · rename_i rule hrule
    obtain ⟨entry, hmem, rfl, rfl⟩ := exists_entry_of_rule? hrule
    obtain ⟨hname, hformed⟩ := h.rules entry hmem
    exact h.putEntry hname (Rule.wellFormed_draw shown scope source hformed)

theorem WellFormed.restart (h : store.WellFormed) (hrestart : store.restart? name = some store') :
    store'.WellFormed := by
  simp only [restart?, get?] at hrestart
  split at hrestart
  · rename_i rule hget
    cases hrestart
    obtain ⟨entry, hfind, hrule⟩ := Option.map_eq_some_iff.1 hget
    have hname : entry.name = name := by
      have hkey := List.find?_some hfind
      simp at hkey
      exact hkey.1
    obtain ⟨hne, hformed⟩ := h.rules entry (List.mem_of_find?_eq_some hfind)
    rw [hrule] at hformed
    exact h.putEntry (hname ▸ hne) (Rule.wellFormed_reset hformed)
  · cases hrestart

/-- What a store has at the start and keeps, whichever well-formed rules are registered, entries
removed, values drawn and sequences restarted. -/
structure IsInvariant (holds : Store → Prop) : Prop where
  empty : holds ∅
  register {store store' : Store} {given : Datum} {rule : Rule} {shadowing : Option Shadowing} :
    holds store → rule.WellFormed → store.register given rule = .ok (store', shadowing) →
      holds store'
  filter {store : Store} (keep : Entry → Bool) : holds store → holds ⟨store.entries.filter keep⟩
  drawShown (store : Store) (shown name : String) (scope : Scope) (source : Source) :
    holds store → holds (store.drawShown shown name scope source).2.1
  restart {store store' : Store} {name : String} :
    holds store → store.restart? name = some store' → holds store'

theorem wellFormed_isInvariant : IsInvariant WellFormed where
  empty := wellFormed_empty
  register h hrule hregister := h.register hrule hregister
  filter keep h := h.filter keep
  drawShown _ _ _ _ _ h := h.drawShown
  restart h hrestart := h.restart hrestart

theorem nodup_eraseDups : (names : List String) → names.eraseDups.Nodup
  | [] => List.nodup_nil
  | name :: rest => by
    rw [List.eraseDups_cons, List.nodup_cons]
    exact ⟨by simp [List.mem_eraseDups], nodup_eraseDups _⟩
termination_by names => names.length
decreasing_by exact Nat.lt_succ_of_le (List.length_filter_le _ _)

theorem mem_names_iff : name ∈ store.names ↔ store.hasName name = true := by
  refine ⟨fun hmem => ?_, mem_names_of_hasName⟩
  rw [names, List.mem_eraseDups, List.mem_flatMap] at hmem
  obtain ⟨kind, -, hmem⟩ := hmem
  obtain ⟨entry, htable, rfl⟩ := List.mem_map.1 hmem
  exact List.any_eq_true.2 ⟨entry, (List.mem_filter.1 htable).1, by simp⟩

theorem isSome_kind?_iff : (store.kind? name).isSome = true ↔ store.hasName name = true := by
  rw [kind?, Option.isSome_map, Option.isSome_iff_exists]
  exact exists_rule?_iff

/-- Each entry is in the table of its kind and in no other one. -/
theorem size_eq_sum_counts : store.size = (store.counts.map Prod.snd).sum := by
  have hentry (entry : Entry) : (RuleKind.all.map fun kind =>
      if entry.rule.kind = kind then 1 else 0).sum = 1 := by
    cases entry.rule <;> rfl
  have hcounts (entries : List Entry) : entries.length =
      (RuleKind.all.map fun kind => (entries.filter (·.rule.kind = kind)).length).sum := by
    induction entries with
    | nil => rfl
    | cons entry rest ih =>
      have hsplit (kind : RuleKind) : ((entry :: rest).filter (·.rule.kind = kind)).length =
          (if entry.rule.kind = kind then 1 else 0) +
            (rest.filter (·.rule.kind = kind)).length := by
        by_cases hkind : entry.rule.kind = kind
        · simp [hkind, Nat.add_comm]
        · simp [hkind]
      simp only [hsplit, List.sum_map_add, hentry, List.length_cons, ih, Nat.add_comm]
  simpa [size, counts, table, Function.comp_def] using hcounts store.entries

/-- Each table has rules of its own kind only, under names that are not empty and differ, and the
questions about names and numbers agree. -/
structure IsConsistent (store : Store) : Prop where
  tables (kind : RuleKind) : ∀ entry ∈ store.table kind,
    entry.rule.kind = kind ∧ entry.name ≠ "" ∧ entry.rule.WellFormed
  keys (kind : RuleKind) : ((store.table kind).map (·.name)).Nodup
  names : store.names.Nodup
  registered (name : String) : (store.hasName name = true ↔ name ∈ store.names) ∧
    (store.hasName name = true ↔ (store.kind? name).isSome = true)
  size : store.size = (store.counts.map Prod.snd).sum

theorem WellFormed.isConsistent (h : store.WellFormed) : store.IsConsistent where
  tables kind entry hentry := by
    obtain ⟨hmem, hkind⟩ := List.mem_filter.1 hentry
    exact ⟨by simpa using hkind, h.rules entry hmem⟩
  keys kind := by
    have hkeys : ((store.table kind).map Entry.key).Nodup :=
      h.keys.sublist (List.filter_sublist.map _)
    have hsame : (store.table kind).map Entry.key =
        ((store.table kind).map (·.name)).map fun name => (name, kind) := by
      rw [List.map_map]
      refine List.map_congr_left fun entry hentry => ?_
      have hkind : entry.rule.kind = kind := by simpa using (List.mem_filter.1 hentry).2
      simp [Entry.key, hkind]
    rw [hsame] at hkeys
    exact hkeys.of_map
  names := nodup_eraseDups _
  registered name := ⟨mem_names_iff.symm, isSome_kind?_iff.symm⟩
  size := size_eq_sum_counts

/-- A test of a conditional rule raises the failure. -/
def TestRaises (store : Store) (failure : Failure) : Prop :=
  ∃ entry ∈ store.entries, ∃ rule, entry.rule = .conditional rule ∧
    ∃ test values scope, .given test values ∈ rule.branches ∧ test scope = .error failure

/-- A result that is no place looked for outside of a list, unless a test raises that. -/
def KeepsToLists {α : Type} (store : Store) (result : Except Failure α) : Prop :=
  FailsOnly (fun failure => failure.isListFault = true → store.TestRaises failure) result

theorem WellFormed.keepsToLists_drawShown (h : store.WellFormed) :
    store.KeepsToLists (store.drawShown shown name scope source).1 := by
  intro failure hdraw hfault
  simp only [Store.drawShown] at hdraw
  split at hdraw
  · cases hdraw
  · rename_i rule hrule
    obtain ⟨entry, hmem, rfl, rfl⟩ := exists_entry_of_rule? hrule
    rcases Rule.draw_eq_error hdraw with ⟨hnot, -⟩ | ⟨fault, rfl⟩ | hraises
    · exact absurd (h.rules entry hmem).2 hnot
    · cases hfault
    · cases hkind : entry.rule with
      | function rule =>
        rw [hkind] at hraises
        obtain ⟨message, rfl⟩ := hraises
        cases hfault
      | conditional rule =>
        rw [hkind] at hraises
        rcases hraises with rfl | ⟨test, values, hbranch, hraised⟩
        · cases hfault
        · exact ⟨entry, hmem, rule, hkind, test, values, scope, hbranch, hraised⟩
      | _ =>
        rw [hkind] at hraises
        exact hraises.elim

/-- Tests have no course: a store that differs in the course of its rules has the same ones. -/
theorem testRaises_of_restarted (h : store'.restarted = store.restarted) {failure : Failure}
    (hraises : store'.TestRaises failure) : store.TestRaises failure := by
  obtain ⟨entry, hmem, rule, hrule, htest⟩ := hraises
  have hentries : store'.entries.map Entry.restarted = store.entries.map Entry.restarted :=
    congrArg Store.entries h
  have hrestarted : entry.restarted ∈ store.entries.map Entry.restarted :=
    hentries ▸ List.mem_map_of_mem hmem
  obtain ⟨other, hother, hsame⟩ := List.mem_map.1 hrestarted
  have hrules : other.rule.restarted = entry.rule.restarted := congrArg Entry.rule hsame
  refine ⟨other, hother, rule, ?_, htest⟩
  rw [hrule] at hrules
  cases hkind : other.rule with
  | conditional rule' =>
    rw [hkind] at hrules
    exact hrules
  | _ =>
    rw [hkind] at hrules
    cases hrules

end Store

end TextGrammar
