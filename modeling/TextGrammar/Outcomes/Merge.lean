import Std.Data.HashMap
import TextGrammar.Table

/-! Weights of the same text made one, with a search that takes no longer for more of them. -/
namespace TextGrammar.Distribution

variable {W : Type} [Zero W] [Add W]

/-- Sums by text, and the texts, the last one first. -/
structure Merging (W : Type) where
  sums : Std.HashMap String W
  texts : List String

namespace Merging

def add (merging : Merging W) (outcome : String × W) : Merging W :=
  match merging.sums[outcome.1]? with
  | some sum => { merging with sums := merging.sums.insert outcome.1 (sum + outcome.2) }
  | none =>
    { sums := merging.sums.insert outcome.1 (0 + outcome.2)
      texts := outcome.1 :: merging.texts }

def table (merging : Merging W) : Table W :=
  ⟨merging.texts.reverse.map fun text => (text, merging.sums.getD text 0)⟩

/-- The sums are those of the texts, and no text is listed twice. -/
structure Matches (merging : Merging W) : Prop where
  nodup : merging.texts.Nodup
  mem_iff : ∀ text, text ∈ merging.texts ↔ text ∈ merging.sums

end Merging

/-- One weight for each text, the sum of its weights from left to right, in the place of the first
of them. -/
def merge (outcomes : List (String × W)) : Table W :=
  (outcomes.foldl Merging.add ⟨∅, []⟩).table

/-- Adds a weight to the one that a table has for a text. -/
def addTo (merged : Table W) (outcome : String × W) : Table W :=
  merged.put outcome.1 ((merged.get? outcome.1).getD 0 + outcome.2)

omit [Zero W] [Add W] in
theorem lookup_map (texts : List String) (f : String → W) (text : String) :
    (texts.map fun t => (t, f t)).lookup text = if text ∈ texts then some (f text) else none := by
  induction texts with
  | nil => rfl
  | cons first rest ih =>
    by_cases h : text = first
    · simp [h]
    · simp [List.lookup_cons, beq_eq_false_iff_ne.2 h, ih, h]

omit [Zero W] [Add W] in
theorem putEntry_map_of_mem (texts : List String) (f : String → W) (text : String) (weight : W)
    (hn : texts.Nodup) (hm : text ∈ texts) :
    Table.putEntry text weight (texts.map fun t => (t, f t))
      = texts.map fun t => (t, if t = text then weight else f t) := by
  induction texts with
  | nil => cases hm
  | cons first rest ih =>
    obtain ⟨hf, hr⟩ := List.nodup_cons.1 hn
    by_cases h : first = text
    · subst h
      have ht : ∀ t ∈ rest, t ≠ first := fun t ht e => hf (e ▸ ht)
      simp +contextual [Table.putEntry, ht]
    · have hm' : text ∈ rest := (List.mem_cons.1 hm).resolve_left fun e => h e.symm
      simp [Table.putEntry, h, ih hr hm']

omit [Zero W] [Add W] in
theorem putEntry_map_of_not_mem (texts : List String) (f : String → W) (text : String)
    (weight : W) (hm : text ∉ texts) :
    Table.putEntry text weight (texts.map fun t => (t, f t))
      = (texts.map fun t => (t, f t)) ++ [(text, weight)] := by
  induction texts with
  | nil => rfl
  | cons first rest ih =>
    have h : first ≠ text := fun e => hm (e ▸ List.mem_cons_self)
    simp [Table.putEntry, h, ih fun e => hm (List.mem_cons_of_mem _ e)]

namespace Merging

theorem matches_add {merging : Merging W} (h : merging.Matches) (outcome : String × W) :
    (merging.add outcome).Matches := by
  unfold add
  split
  · rename_i sum hs
    have hm : outcome.1 ∈ merging.sums := by
      rw [Std.HashMap.mem_iff_isSome_getElem?, hs]
      rfl
    refine ⟨h.nodup, fun text => ?_⟩
    rw [Std.HashMap.mem_insert, h.mem_iff]
    by_cases ht : outcome.1 = text
    · simp [← ht, hm]
    · simp [ht]
  · rename_i hs
    have hm : outcome.1 ∉ merging.sums := by simpa using hs
    refine ⟨List.nodup_cons.2 ⟨fun e => hm ((h.mem_iff _).1 e), h.nodup⟩, fun text => ?_⟩
    rw [Std.HashMap.mem_insert, List.mem_cons, h.mem_iff, beq_iff_eq]
    exact or_congr_left eq_comm

theorem table_add {merging : Merging W} (h : merging.Matches) (outcome : String × W) :
    (merging.add outcome).table = addTo merging.table outcome := by
  have hl : merging.table.get? outcome.1 = merging.sums[outcome.1]? := by
    rw [table, Table.get?, lookup_map]
    split
    · rename_i hm
      rw [List.mem_reverse, h.mem_iff] at hm
      rw [Std.HashMap.getD_eq_getD_getElem?, Std.HashMap.getElem?_eq_some_getElem hm]
      rfl
    · rename_i hm
      rw [List.mem_reverse, h.mem_iff] at hm
      exact (Std.HashMap.getElem?_eq_none hm).symm
  rw [addTo, hl]
  unfold add
  split
  · rename_i sum hs
    have hm : outcome.1 ∈ merging.texts.reverse := by
      rw [List.mem_reverse, h.mem_iff, Std.HashMap.mem_iff_isSome_getElem?, hs]
      rfl
    have hn : merging.texts.reverse.Nodup := List.pairwise_reverse.2 (h.nodup.imp Ne.symm)
    rw [hs, table, table, Table.put, putEntry_map_of_mem _ _ _ _ hn hm]
    congr 1
    refine List.map_congr_left fun text _ => ?_
    rw [Std.HashMap.getD_insert]
    by_cases ht : outcome.1 = text
    · simp [ht]
    · simp [ht, Ne.symm ht]
  · rename_i hs
    have hm : outcome.1 ∉ merging.texts := fun e => by
      rw [h.mem_iff, Std.HashMap.mem_iff_isSome_getElem?, hs] at e
      cases e
    rw [hs, table, table, Table.put,
      putEntry_map_of_not_mem _ _ _ _ (by simpa using hm)]
    congr 1
    simp only [List.reverse_cons, List.map_append, List.map_cons, List.map_nil]
    congr 1
    · refine List.map_congr_left fun text ht => ?_
      have hne : outcome.1 ≠ text := fun e => hm (e ▸ List.mem_reverse.1 ht)
      simp [Std.HashMap.getD_insert, hne]
    · simp

theorem table_foldl {merging : Merging W} (h : merging.Matches) (outcomes : List (String × W)) :
    (outcomes.foldl add merging).table = outcomes.foldl addTo merging.table := by
  induction outcomes generalizing merging with
  | nil => rfl
  | cons outcome rest ih =>
    rw [List.foldl_cons, List.foldl_cons, ih (matches_add h outcome), table_add h]

end Merging

theorem merge_eq_foldl (outcomes : List (String × W)) :
    merge outcomes = outcomes.foldl addTo ∅ := by
  have h : Merging.Matches (W := W) ⟨∅, []⟩ := ⟨List.nodup_nil, by simp⟩
  exact Merging.table_foldl h outcomes

end TextGrammar.Distribution
