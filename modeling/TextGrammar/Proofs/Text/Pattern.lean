import Mathlib.Data.List.Chain
import TextGrammar.Text.Pattern

/-! Substitution as a relation: what is found is replaced as a whole, and the rest is kept. -/
namespace TextGrammar.Pattern

/-- What is found is at the start of the text and not empty. -/
def Fits (pattern : Pattern) : Prop :=
  ∀ before text new size, pattern before text = some (new, size) → 0 < size ∧ size ≤ text.length

/-- One pass over a text, after a character. -/
inductive Scan (pattern : Pattern) : Option Char → List Char → List Char → Prop where
  | done {before : Option Char} : Scan pattern before [] []
  | kept {before : Option Char} {c : Char} {text out : List Char} :
    pattern before (c :: text) = none → Scan pattern (some c) text out →
      Scan pattern before (c :: text) (c :: out)
  | replaced {before : Option Char} {found rest new out : List Char} :
    found ≠ [] → pattern before (found ++ rest) = some (new, found.length) →
      Scan pattern found.getLast? rest out → Scan pattern before (found ++ rest) (new ++ out)

variable {pattern : Pattern} {before : Option Char} {text out : List Char}

theorem substituteFrom_skip (c : Char) (skip : Nat) (text : List Char) :
    substituteFrom pattern (some c) skip text =
      substituteFrom pattern (c :: text.take skip).getLast? 0 (text.drop skip) := by
  induction skip generalizing c text with
  | zero => rfl
  | succ skip ih =>
    cases text with
    | nil => rfl
    | cons d text =>
      rw [substituteFrom, ih, List.take_succ_cons, List.drop_succ_cons, List.getLast?_cons_cons]

theorem scan_substituteFrom (hfits : pattern.Fits) (before : Option Char) (text : List Char) :
    Scan pattern before text (substituteFrom pattern before 0 text) := by
  induction hlength : text.length using Nat.strong_induction_on generalizing before text with
  | _ length ih =>
    cases text with
    | nil => exact .done
    | cons c text =>
      rw [substituteFrom]
      split
      · rename_i new size hfound
        obtain ⟨hpos, hsize⟩ := hfits _ _ _ _ hfound
        obtain ⟨skip, rfl⟩ := Nat.exists_eq_succ_of_ne_zero hpos.ne'
        have hskip : skip ≤ text.length := Nat.le_of_succ_le_succ hsize
        have hparts : c :: text = (c :: text.take skip) ++ text.drop skip := by
          rw [List.cons_append, List.take_append_drop]
        have hcount : (c :: text.take skip).length = skip + 1 := by
          rw [List.length_cons, List.length_take_of_le hskip]
        rw [Nat.succ_sub_one, substituteFrom_skip]
        have hrest := ih (text.drop skip).length
          (by rw [← hlength, List.length_drop, List.length_cons]; omega)
          (c :: text.take skip).getLast? (text.drop skip) rfl
        rw [hparts] at hfound ⊢
        exact .replaced (List.cons_ne_nil _ _) (by rw [hcount]; exact hfound) hrest
      · rename_i hnone
        refine .kept hnone (ih text.length ?_ (some c) text rfl)
        rw [← hlength, List.length_cons]
        exact Nat.lt_succ_self _

theorem scan_substitute (hfits : pattern.Fits) (text : List Char) :
    Scan pattern none text (pattern.substitute text) :=
  scan_substituteFrom hfits none text

/-- What replacements leave of the text, the whole pass leaves. -/
theorem Scan.filter_eq {keeps : Char → Bool} (h : Scan pattern before text out)
    (hnew : ∀ before found rest new, pattern before (found ++ rest) = some (new, found.length) →
      new.filter keeps = found.filter keeps) : out.filter keeps = text.filter keeps := by
  induction h with
  | done => rfl
  | kept _ _ ih => rw [List.filter_cons, List.filter_cons, ih]
  | replaced _ hfound _ ih =>
    rw [List.filter_append, List.filter_append, ih, hnew _ _ _ _ hfound]

/-- Wherever the one is found, the other is. -/
def Implies (pattern other : Pattern) : Prop :=
  ∀ before text, (pattern before text).isSome = true → (other before text).isSome = true

theorem Implies.occursAfter {other : Pattern} (h : pattern.Implies other)
    (hoccurs : pattern.occursAfter before text = true) : other.occursAfter before text = true := by
  induction text generalizing before with
  | nil => cases hoccurs
  | cons c text ih =>
    rw [Pattern.occursAfter, Bool.or_eq_true] at hoccurs ⊢
    exact hoccurs.imp (h _ _) ih

theorem Implies.occurs_eq_false {other : Pattern} (h : pattern.Implies other)
    (hoccurs : other.occurs text = false) : pattern.occurs text = false := by
  refine Bool.eq_false_iff.2 fun hpattern => ?_
  rw [occurs, h.occursAfter hpattern] at hoccurs
  cases hoccurs

/-- A pattern that takes two characters which may not stand side by side is nowhere in a text in which
none do. -/
theorem occursAfter_eq_false {good : Char → Char → Prop}
    (hpair : ∀ before text, (pattern before text).isSome = true →
      ∃ a b rest, text = a :: b :: rest ∧ ¬good a b) (h : text.IsChain good) :
    pattern.occursAfter before text = false := by
  induction text generalizing before with
  | nil => rfl
  | cons c text ih =>
    rw [occursAfter, ih h.tail, Bool.or_false, Bool.eq_false_iff]
    intro hsome
    obtain ⟨a, b, rest, heq, hbad⟩ := hpair _ _ hsome
    rw [heq] at h
    exact hbad (List.isChain_cons_cons.1 h).1

section Pairs

variable {first second : Char → Bool} {put : Char → Char → List Char} {found rest new : List Char}

/-- Two characters of certain kinds, and what is put in their place. -/
def pairPattern (first second : Char → Bool) (put : Char → Char → List Char) : Pattern
  | _, a :: b :: _ => if first a && second b then some (put a b, 2) else none
  | _, _ => none

theorem pairPattern_eq_some {size : Nat}
    (h : pairPattern first second put before text = some (new, size)) :
    ∃ a b rest, text = a :: b :: rest ∧ first a = true ∧ second b = true ∧ new = put a b ∧
      size = 2 := by
  unfold pairPattern at h
  split at h
  · rename_i a b rest
    split at h
    · rename_i hpair
      rw [Bool.and_eq_true] at hpair
      cases h
      exact ⟨a, b, rest, rfl, hpair.1, hpair.2, rfl, rfl⟩
    · cases h
  · cases h

theorem fits_pairPattern : (pairPattern first second put).Fits := by
  intro before text new size h
  obtain ⟨a, b, rest, rfl, -, -, -, rfl⟩ := pairPattern_eq_some h
  exact ⟨Nat.zero_lt_two, Nat.le_add_left _ _⟩

theorem pairPattern_found
    (h : pairPattern first second put before (found ++ rest) = some (new, found.length)) :
    ∃ a b, found = [a, b] ∧ first a = true ∧ second b = true ∧ new = put a b := by
  obtain ⟨a, b, others, heq, ha, hb, rfl, hsize⟩ := pairPattern_eq_some h
  obtain ⟨c, d, rfl⟩ := List.length_eq_two.1 hsize
  cases heq
  exact ⟨_, _, rfl, ha, hb, rfl⟩

theorem pairPattern_eq_none {a b : Char}
    (h : pairPattern first second put before (a :: b :: text) = none) (ha : first a = true) :
    second b = false := by
  refine Bool.eq_false_iff.2 fun hb => ?_
  simp [pairPattern, ha, hb] at h

theorem occurs_pairPattern (h : text.IsChain fun a b => first a = true → second b = false) :
    (pairPattern first second put).occurs text = false := by
  refine occursAfter_eq_false (fun before text hsome => ?_) h
  obtain ⟨⟨new, size⟩, hfound⟩ := Option.isSome_iff_exists.1 hsome
  obtain ⟨a, b, rest, rfl, ha, hb, -⟩ := pairPattern_eq_some hfound
  refine ⟨a, b, rest, rfl, fun hpair => ?_⟩
  rw [hpair ha] at hb
  cases hb

end Pairs

end TextGrammar.Pattern
