import TextGrammar.Proofs.Number.Amount
import TextGrammar.Proofs.Store
import TextGrammar.Proofs.Token

/-! What the definition of a rule promises to its later uses, and that a draw keeps it. -/
namespace TextGrammar

/-- The rules that a definition lets through, wherever they are in their course. -/
def Rule.Accepted : Rule → Prop
  | .function _ | .static _ => True
  | .conditional rule =>
    rule.branches ≠ [] ∧ (∀ branch ∈ rule.branches, branch.values ≠ []) ∧
      (rule.branches.filter Branch.isOtherwise).length ≤ 1
  | .sequential rule => rule.values ≠ [] ∧ rule.index ≤ rule.values.length
  | .range rule =>
    rule.low.IsNumber ∧ rule.high.IsNumber ∧ rule.high.le rule.low = false ∧
      ∀ step, rule.step = some step → step.le 0 = false
  | .template rule =>
    rule.template ≠ "" ∧
      ∀ name ∈ rule.openNames, ∃ values, rule.values? name = some values ∧ values ≠ []
  | .weighted rule =>
    rule.values ≠ [] ∧ rule.values.length = rule.weights.length ∧
      (∀ weight ∈ rule.weights, 0 ≤ weight.toRat ∧ weight.isNan = false) ∧
      checkTotal rule.weights = .ok ()

def Entry.Accepted (entry : Entry) : Prop := entry.name ≠ "" ∧ entry.rule.Accepted

/-- Registration takes no empty name, and rules as their definitions let them through. -/
def Store.Accepted (store : Store) : Prop := ∀ entry ∈ store.entries, entry.Accepted

theorem length_textItems {part : ValuePart} {items : List Datum} {values : List String}
    (h : textItems part items = .ok values) : values.length = items.length := by
  induction items generalizing values with
  | nil => cases h; rfl
  | cons item rest ih =>
    simp only [textItems] at h
    split at h
    · obtain ⟨others, ho, h⟩ := bind_eq_ok.1 h
      rw [← pure_eq_ok.1 h, List.length_cons, ih ho, List.length_cons]
    · cases h

theorem ne_nil_of_someValueTexts {part : ValuePart} {data : Datum} {values : List String}
    (h : someValueTexts part data = .ok values) : values ≠ [] := by
  cases hl : data.listItems? with
  | none => simp [someValueTexts, valueTexts, hl] at h
  | some items =>
    cases items with
    | nil => simp [someValueTexts, hl] at h
    | cons item rest =>
      simp only [someValueTexts, valueTexts, hl] at h
      intro he
      have hlen := length_textItems h
      simp [he] at hlen

theorem Rule.Sequential.accepted_of_define {values cycle : Datum} {rule : Rule.Sequential}
    (h : Rule.Sequential.define values cycle = .ok rule) : (Rule.sequential rule).Accepted := by
  obtain ⟨texts, ht, h⟩ := bind_eq_ok.1 h
  rw [← pure_eq_ok.1 h]
  exact ⟨ne_nil_of_someValueTexts ht, Nat.zero_le _⟩

theorem Branch.define_eq_ok {seen : Bool} {test values fallback : Datum} {branch : Branch}
    (h : Branch.define seen test values fallback = .ok branch) :
    branch.values ≠ [] ∧ (branch.isOtherwise = true → seen = false) := by
  simp only [Branch.define] at h
  split at h
  · cases h
  · split at h
    · cases h
    · obtain ⟨texts, ht, h⟩ := bind_eq_ok.1 h
      rw [← pure_eq_ok.1 h]
      exact ⟨ne_nil_of_someValueTexts ht, fun _ => by simp_all⟩
  · cases h
  · cases h
  · split at h
    · obtain ⟨texts, ht, h⟩ := bind_eq_ok.1 h
      rw [← pure_eq_ok.1 h]
      exact ⟨ne_nil_of_someValueTexts ht, fun he => by simp [Branch.isOtherwise] at he⟩
    · cases h
  · cases h

theorem Branch.ofDatum_eq_ok {seen : Bool} {item : Datum} {branch : Branch}
    (h : Branch.ofDatum seen item = .ok branch) :
    branch.values ≠ [] ∧ (branch.isOtherwise = true → seen = false) := by
  cases item with
  | mapping | branch => exact Branch.define_eq_ok h
  | _ => cases h

theorem branchList_eq_ok {seen : Bool} {items : List Datum} {branches : List Branch}
    (h : branchList seen items = .ok branches) :
    branches.length = items.length ∧ (∀ branch ∈ branches, branch.values ≠ []) ∧
      (branches.filter Branch.isOtherwise).length ≤ (if seen then 0 else 1) := by
  induction items generalizing seen branches with
  | nil => cases h; simp
  | cons item rest ih =>
    obtain ⟨branch, hb, h⟩ := bind_eq_ok.1 h
    obtain ⟨others, ho, h⟩ := bind_eq_ok.1 h
    rw [← pure_eq_ok.1 h]
    obtain ⟨hv, hs⟩ := Branch.ofDatum_eq_ok hb
    obtain ⟨hlen, hvs, hcount⟩ := ih ho
    refine ⟨by simp [hlen], by simpa using ⟨hv, hvs⟩, ?_⟩
    cases hw : branch.isOtherwise <;> simp_all

theorem Rule.Conditional.accepted_of_define {branches : Datum} {rule : Rule.Conditional}
    (h : Rule.Conditional.define branches = .ok rule) : (Rule.conditional rule).Accepted := by
  simp only [Rule.Conditional.define] at h
  split at h
  · cases h
  · cases h
  · rename_i items _ hne
    obtain ⟨list, hl, h⟩ := bind_eq_ok.1 h
    rw [← pure_eq_ok.1 h]
    obtain ⟨hlen, hv, hcount⟩ := branchList_eq_ok hl
    refine ⟨fun he => ?_, hv, hcount⟩
    have : items.length = 0 := by simpa [show list = [] from he] using hlen.symm
    simp_all

/-- A range has the numbers it was asked for, none of them found to be in the wrong order. -/
theorem Rule.Range.define_eq_ok {low high step kind : Datum} {rule : Rule.Range}
    (h : Rule.Range.define low high step kind = .ok rule) :
    low.plainAmount? = some rule.low ∧ high.plainAmount? = some rule.high ∧
      rule.high.le rule.low = false ∧
      ∀ amount, rule.step = some amount → step.plainAmount? = some amount ∧ amount.le 0 = false := by
  simp only [Rule.Range.define] at h
  split at h
  · rename_i lowAmount highAmount he
    obtain ⟨hlow, hhigh⟩ := Prod.mk.inj he
    split at h
    · cases h
    · rename_i hle
      have hle : highAmount.le lowAmount = false := by simpa using hle
      split at h
      · obtain ⟨_, hs, h⟩ := bind_eq_ok.1 h
        obtain rfl := pure_eq_ok.1 hs
        split at h
        · rw [← pure_eq_ok.1 h]
          exact ⟨hlow, hhigh, hle, fun _ he => nomatch he⟩
        · cases h
      · split at h
        · cases h
        · rename_i hstep
          obtain ⟨_, hs, h⟩ := bind_eq_ok.1 h
          obtain rfl := pure_eq_ok.1 hs
          split at h
          · rw [← pure_eq_ok.1 h]
            refine ⟨hlow, hhigh, hle, ?_⟩
            rintro amount he
            rw [← Option.some.inj he]
            exact ⟨rfl, by simpa using hstep⟩
          · cases h
      · cases h
  · cases h

theorem Rule.Range.accepted_of_define {low high step kind : Datum} {rule : Rule.Range}
    (hl : ∀ amount, low.plainAmount? = some amount → amount.IsNumber)
    (hh : ∀ amount, high.plainAmount? = some amount → amount.IsNumber)
    (h : Rule.Range.define low high step kind = .ok rule) : (Rule.range rule).Accepted := by
  obtain ⟨hlow, hhigh, hle, hstep⟩ := Rule.Range.define_eq_ok h
  exact ⟨hl _ hlow, hh _ hhigh, hle, fun step he => (hstep step he).2⟩

theorem Rule.Template.checkOpenNames_eq_ok {rule : Rule.Template} {names : List String}
    (h : rule.checkOpenNames names = .ok ()) :
    ∀ name ∈ names, ∃ values, rule.values? name = some values ∧ values ≠ [] := by
  induction names with
  | nil => simp
  | cons first rest ih =>
    simp only [Rule.Template.checkOpenNames] at h
    split at h
    · cases h
    · cases h
    · rename_i values hn hv
      intro name hname
      rcases List.mem_cons.1 hname with rfl | hrest
      · exact ⟨values, hv, hn⟩
      · exact ih h name hrest

theorem Rule.Template.accepted_of_define {template choices : Datum} {rule : Rule.Template}
    (h : Rule.Template.define template choices = .ok rule) : (Rule.template rule).Accepted := by
  simp only [Rule.Template.define] at h
  split at h
  · rename_i text ht
    split at h
    · cases h
    · rename_i hne
      split at h
      · rename_i members
        obtain ⟨filed, hf, h⟩ := bind_eq_ok.1 h
        obtain ⟨⟨⟩, hc, h⟩ := bind_eq_ok.1 h
        rw [← pure_eq_ok.1 h]
        exact ⟨by simpa using hne, Rule.Template.checkOpenNames_eq_ok hc⟩
      · cases h
  · cases h

theorem checkWeight_eq_ok {weight : Datum} {x : Double} (h : checkWeight weight = .ok x) :
    0 ≤ x.toRat ∧ x.isNan = false := by
  simp only [checkWeight] at h
  split at h
  · cases h
  · rename_i amount _
    split at h
    · cases h
    · rename_i hlt
      split at h
      · cases h
      · rename_i y hy
        split at h
        · cases h
        · rename_i hnan
          cases h
          have hpos := Amount.toRat_nonneg_of_not_lt_zero (by simpa using hlt)
          exact ⟨Amount.toRat_toDouble?_nonneg hpos hy, by simpa using hnan⟩

theorem Rule.Weighted.accepted_of_define {values weights : Datum} {rule : Rule.Weighted}
    (h : Rule.Weighted.define values weights = .ok rule) : (Rule.weighted rule).Accepted := by
  obtain ⟨texts, ht, h⟩ := bind_eq_ok.1 h
  dsimp only at h
  split at h
  · rename_i items hi
    split at h
    · cases h
    · rename_i hlen
      obtain ⟨numbers, hn, h⟩ := bind_eq_ok.1 h
      obtain ⟨⟨⟩, hc, h⟩ := bind_eq_ok.1 h
      rw [← pure_eq_ok.1 h]
      obtain ⟨hcount, hmem⟩ := mapM_eq_ok hn
      refine ⟨ne_nil_of_someValueTexts ht, by rw [hcount]; simpa using hlen, ?_, hc⟩
      intro x hx
      obtain ⟨datum, -, hd⟩ := hmem x hx
      exact checkWeight_eq_ok hd
  · cases h

theorem Rule.Sequential.accepted_draw {rule : Rule.Sequential} (source : Source)
    (h : (Rule.sequential rule).Accepted) : (Rule.sequential (rule.draw source).2.1).Accepted := by
  obtain ⟨hv, hi⟩ := h
  simp only [Rule.Sequential.draw]
  split
  · split <;> exact ⟨hv, hi⟩
  · rename_i hlast
    split
    · refine ⟨hv, ?_⟩
      change (if rule.index < rule.values.length then rule.index else 0) + 1 ≤ rule.values.length
      have := List.length_pos_iff.2 hv
      split <;> omega
    · refine ⟨hv, ?_⟩
      change (if rule.index < rule.values.length then rule.index else 0) ≤ rule.values.length
      split <;> omega

theorem Store.accepted_of_rule? {store : Store} {name : String} {rule : Rule} (h : store.Accepted)
    (hr : store.rule? name = some rule) : rule.Accepted := by
  obtain ⟨entry, hmem, -, rfl⟩ := Store.exists_entry_of_rule? hr
  exact (h entry hmem).2

theorem Store.ne_empty_of_rule? {store : Store} {name : String} {rule : Rule} (h : store.Accepted)
    (hr : store.rule? name = some rule) : name ≠ "" := by
  obtain ⟨entry, hmem, rfl, -⟩ := Store.exists_entry_of_rule? hr
  exact (h entry hmem).1

/-- A rule with a token for another one, each with two values. -/
def nestedStore : Store where
  entries := [
    { name := "a", rule := .static { values := ["x", "%b%"] } },
    { name := "b", rule := .static { values := ["y", "z"] } }]

theorem nestedStore_accepted : nestedStore.Accepted := by
  simp [Store.Accepted, Entry.Accepted, nestedStore, Rule.Accepted]

theorem nestedStore_rule?_a :
    nestedStore.rule? "a" = some (.static { values := ["x", "%b%"] }) := rfl

theorem nestedStore_rule?_b : nestedStore.rule? "b" = some (.static { values := ["y", "z"] }) := rfl

/-- The texts of the small store are a literal or a token each. -/
theorem nestedStore_split :
    Segment.split "x" = [.literal "x"] ∧ Segment.split "%b%" = [.token "b"] ∧
      Segment.split "y" = [.literal "y"] ∧ Segment.split "z" = [.literal "z"] :=
  ⟨Segment.split_of_notMem (by decide), @Segment.split_tokenText "b" (by decide) (by decide),
    Segment.split_of_notMem (by decide), Segment.split_of_notMem (by decide)⟩

end TextGrammar
