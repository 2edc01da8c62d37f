/-! Tables from names to values, in the order in which the names were first put. -/
namespace TextGrammar

structure Table (α : Type) where
  entries : List (String × α)

namespace Table

variable {α : Type}

def empty : Table α := ⟨[]⟩

instance : EmptyCollection (Table α) := ⟨empty⟩
instance : Inhabited (Table α) := ⟨empty⟩

def names (t : Table α) : List String := t.entries.map Prod.fst

def size (t : Table α) : Nat := t.entries.length

def get? (t : Table α) (name : String) : Option α := t.entries.lookup name

def has (t : Table α) (name : String) : Bool := t.names.contains name

/-- Replaces the value under the name in its place, or adds the name at the end. -/
def putEntry (name : String) (value : α) : List (String × α) → List (String × α)
  | [] => [(name, value)]
  | entry :: rest =>
    if entry.1 = name then (name, value) :: rest else entry :: putEntry name value rest

def put (t : Table α) (name : String) (value : α) : Table α := ⟨putEntry name value t.entries⟩

def erase (t : Table α) (name : String) : Table α := ⟨t.entries.filter (·.1 ≠ name)⟩

/-- A later entry of the same name replaces the value and keeps the place. -/
def ofList (entries : List (String × α)) : Table α :=
  entries.foldl (fun t entry => t.put entry.1 entry.2) empty

theorem get?_put (t : Table α) (name : String) (value : α) (other : String) :
    (t.put name value).get? other = if other = name then some value else t.get? other := by
  obtain ⟨entries⟩ := t
  simp only [get?, put]
  induction entries with
  | nil =>
    by_cases h : other = name
    · simp [putEntry, h]
    · simp [putEntry, List.lookup_cons, h, beq_eq_false_iff_ne.2 h]
  | cons entry rest ih =>
    obtain ⟨first, old⟩ := entry
    by_cases h : first = name
    · subst h
      by_cases ho : other = first
      · simp [putEntry, ho]
      · simp [putEntry, List.lookup_cons, ho, beq_eq_false_iff_ne.2 ho]
    · by_cases ho : other = first
      · subst ho
        simp [putEntry, h]
      · have hb : (other == first) = false := beq_eq_false_iff_ne.2 ho
        simpa [putEntry, List.lookup_cons, h, hb] using ih

theorem names_put (t : Table α) (name : String) (value : α) :
    (t.put name value).names = if name ∈ t.names then t.names else t.names ++ [name] := by
  obtain ⟨entries⟩ := t
  simp only [names, put]
  induction entries with
  | nil => simp [putEntry]
  | cons entry rest ih =>
    by_cases h : entry.1 = name
    · subst h
      simp [putEntry]
    · have h' : name ≠ entry.1 := fun e => h e.symm
      by_cases hm : name ∈ rest.map Prod.fst <;> simp_all [putEntry]

theorem mem_names_put {table : Table α} {name other : String} {value : α} :
    other ∈ (table.put name value).names ↔ other = name ∨ other ∈ table.names := by
  rw [names_put]
  split
  · rename_i hname
    constructor
    · exact .inr
    · rintro (rfl | hother)
      · exact hname
      · exact hother
  · rw [List.mem_append, List.mem_singleton, or_comm]

theorem mem_putEntry {name : String} {value : α} {entry : String × α} {entries : List (String × α)}
    (h : entry ∈ putEntry name value entries) : entry = (name, value) ∨ entry ∈ entries := by
  induction entries with
  | nil => exact .inl (List.mem_singleton.1 h)
  | cons first rest ih =>
    rw [putEntry] at h
    split at h
    · rcases List.mem_cons.1 h with rfl | hrest
      · exact .inl rfl
      · exact .inr (List.mem_cons_of_mem _ hrest)
    · rcases List.mem_cons.1 h with rfl | hrest
      · exact .inr List.mem_cons_self
      · exact (ih hrest).imp_right (List.mem_cons_of_mem _)

theorem mem_put {t : Table α} {name : String} {value : α} {entry : String × α}
    (h : entry ∈ (t.put name value).entries) : entry = (name, value) ∨ entry ∈ t.entries :=
  mem_putEntry h

theorem names_erase (t : Table α) (name : String) :
    (t.erase name).names = t.names.filter (· ≠ name) := by
  rw [names, names, erase, List.filter_map]
  rfl

theorem get?_erase (t : Table α) (name other : String) :
    (t.erase name).get? other = if other = name then none else t.get? other := by
  obtain ⟨entries⟩ := t
  simp only [get?, erase]
  induction entries with
  | nil => simp
  | cons entry rest ih =>
    obtain ⟨first, value⟩ := entry
    by_cases hfirst : first = name
    · subst hfirst
      by_cases hother : other = first
      · simpa [hother] using ih
      · simpa [List.lookup_cons, hother, beq_eq_false_iff_ne.2 hother] using ih
    · by_cases hother : other = first
      · subst hother
        simp [hfirst]
      · simpa [List.lookup_cons, hfirst, beq_eq_false_iff_ne.2 hother] using ih

theorem isSome_get?_iff {t : Table α} {name : String} :
    (t.get? name).isSome = true ↔ name ∈ t.names := by
  obtain ⟨entries⟩ := t
  simp only [get?, names]
  induction entries with
  | nil => simp
  | cons entry rest ih =>
    obtain ⟨first, value⟩ := entry
    by_cases hname : name = first
    · simp [hname]
    · simp [List.lookup_cons, hname, beq_eq_false_iff_ne.2 hname, ih]

/-- In a table that has each name once, an entry is what is found under its name. -/
theorem get?_eq_some_iff {t : Table α} {name : String} {value : α} (h : t.names.Nodup) :
    t.get? name = some value ↔ (name, value) ∈ t.entries := by
  obtain ⟨entries⟩ := t
  simp only [get?, names] at h ⊢
  induction entries with
  | nil => simp
  | cons entry rest ih =>
    obtain ⟨first, other⟩ := entry
    obtain ⟨hnew, hrest⟩ := List.nodup_cons.1 h
    by_cases hname : name = first
    · subst hname
      have hnone : (name, value) ∉ rest := fun hmem => hnew (List.mem_map.2 ⟨_, hmem, rfl⟩)
      simp [hnone, eq_comm]
    · simpa [List.lookup_cons, hname, beq_eq_false_iff_ne.2 hname] using ih hrest

end Table

end TextGrammar
