import Mathlib.Data.List.SplitBy
import TextGrammar.Proofs.Text.Classes
import TextGrammar.Proofs.Text.Pattern

/-! Texts as runs: words and the gaps between them, in turn. -/
namespace TextGrammar

/-- The longest stretches of word characters and of other characters, in their order. -/
def runs (text : List Char) : List (List Char) := text.splitBy fun a b => isWord a == isWord b

/-- A word, or a stretch in which no word character stands. -/
structure IsRun (word : Bool) (run : List Char) : Prop where
  nonempty : run ≠ []
  kind : ∀ c ∈ run, isWord c = word

/-- Words and gaps in turn. -/
inductive Alternates : Bool → List (List Char) → Prop where
  | nil {word : Bool} : Alternates word []
  | cons {word : Bool} {run : List Char} {rest : List (List Char)} :
    IsRun word run → Alternates (!word) rest → Alternates word (run :: rest)

variable {word : Bool} {run text : List Char} {rest all : List (List Char)} {before : Option Char}

/-- After a word, a gap and a word comes a gap. -/
theorem Alternates.drop_three {gap second : List Char}
    (h : Alternates word (run :: gap :: second :: rest)) : Alternates (!word) rest := by
  cases h with
  | cons _ h =>
    cases h with
    | cons _ h =>
      cases h with
      | cons _ h => rwa [Bool.not_not] at h

theorem Alternates.isWord_head? (h : Alternates word all) :
    ∀ c ∈ all.flatten.head?, isWord c = word := by
  intro c hc
  cases h with
  | nil => cases hc
  | cons hrun =>
    rw [List.flatten_cons, List.head?_append_of_ne_nil _ hrun.nonempty] at hc
    exact hrun.kind c (List.mem_of_mem_head? hc)

theorem Alternates.wordAhead_flatten (h : Alternates word (run :: rest)) :
    wordAhead (run :: rest).flatten = word := by
  cases h with
  | cons hrun _ =>
    obtain ⟨c, run, rfl⟩ := List.exists_cons_of_ne_nil hrun.nonempty
    exact hrun.kind c List.mem_cons_self

theorem IsRun.wordBefore_getLast? (h : IsRun word run) (hgap : (!word) = true) :
    wordBefore run.getLast? = false := by
  rw [List.getLast?_eq_some_getLast h.nonempty, wordBefore, h.kind _ (List.getLast_mem _)]
  exact Bool.not_eq_eq_eq_not.1 hgap

theorem wordAhead_eq_false_iff : wordAhead text = false ↔ ∀ c ∈ text.head?, isWord c = false := by
  cases text with
  | nil => simp [wordAhead, wordBefore]
  | cons c text => simp [wordAhead, wordBefore]

theorem flatten_runs (text : List Char) : (runs text).flatten = text := List.flatten_splitBy _ _

theorem IsRun.runs_eq (h : IsRun word run) : runs run = [run] := by
  refine List.splitBy_of_isChain h.nonempty (List.Pairwise.isChain ?_)
  refine List.pairwise_of_forall_mem_list fun a ha b hb => ?_
  rw [h.kind a ha, h.kind b hb, beq_self_eq_true]

theorem runs_append {front : List Char}
    (h : ∀ a ∈ front.getLast?, ∀ b ∈ text.head?, isWord a ≠ isWord b) :
    runs (front ++ text) = runs front ++ runs text :=
  List.splitBy_append fun a ha b hb => beq_eq_false_iff_ne.2 (h a ha b hb)

theorem IsRun.runs_append (h : IsRun word run) (hnext : ∀ c ∈ text.head?, isWord c = !word) :
    runs (run ++ text) = run :: runs text := by
  rw [TextGrammar.runs_append, h.runs_eq, List.singleton_append]
  intro a ha b hb
  rw [h.kind a (List.mem_of_mem_getLast? ha), hnext b hb]
  cases word <;> decide

/-- Words and gaps in turn are the runs of the text that they make up. -/
theorem Alternates.runs_flatten (h : Alternates word all) : runs all.flatten = all := by
  induction h with
  | nil => rfl
  | cons hrun hrest ih => rw [List.flatten_cons, hrun.runs_append hrest.isWord_head?, ih]

theorem isRun_of_isChain {c : Char}
    (h : (c :: run).IsChain fun a b => (isWord a == isWord b) = true) :
    IsRun (isWord c) (c :: run) := by
  refine ⟨List.cons_ne_nil _ _, fun d hd => ?_⟩
  have htrans : Trans (fun a b : Char => (isWord a == isWord b) = true)
      (fun a b => (isWord a == isWord b) = true) (fun a b => (isWord a == isWord b) = true) :=
    ⟨by grind⟩
  rcases List.mem_cons.1 hd with rfl | hd
  · rfl
  · have hpairs := List.isChain_iff_pairwise.1 h
    exact (beq_iff_eq.1 ((List.pairwise_cons.1 hpairs).1 d hd)).symm

theorem alternates_of_splitBy (hnil : [] ∉ all)
    (hsame : ∀ run ∈ all, run.IsChain fun a b => (isWord a == isWord b) = true)
    (hdiffer : all.IsChain fun run next => ∃ hrun hnext,
      (isWord (run.getLast hrun) == isWord (next.head hnext)) = false) :
    Alternates (wordAhead all.flatten) all := by
  induction all with
  | nil => exact .nil
  | cons run rest ih =>
    obtain ⟨hrun, hrest⟩ := List.forall_mem_cons.1 hsame
    obtain ⟨c, run, rfl⟩ :=
      List.exists_cons_of_ne_nil (ne_of_mem_of_not_mem List.mem_cons_self hnil)
    have hkind := isRun_of_isChain hrun
    change Alternates (isWord c) _
    refine .cons hkind ?_
    have hothers := ih (fun h => hnil (List.mem_cons_of_mem _ h)) hrest hdiffer.tail
    cases hothers with
    | nil => exact .nil
    | cons hnext hafter =>
      obtain ⟨hlast, hhead, hne⟩ := (List.isChain_cons_cons.1 hdiffer).1
      rw [hkind.kind _ (List.getLast_mem hlast), hnext.kind _ (List.head_mem hhead)] at hne
      rw [Bool.eq_not.2 (beq_eq_false_iff_ne.1 hne), Bool.not_not]
      exact .cons hnext hafter

theorem alternates_runs (text : List Char) : Alternates (wordAhead text) (runs text) := by
  have h := alternates_of_splitBy (List.nil_notMem_splitBy _ text)
    (fun _ => List.isChain_of_mem_splitBy)
    (List.isChain_getLast_head_splitBy (fun a b => isWord a == isWord b) text)
  rwa [List.flatten_splitBy] at h

section Stretch

variable {kind : Char → Bool} {rest : List Char}

theorem takeWhile_stretch (hrun : ∀ c ∈ run, kind c = true) (hrest : ∀ c ∈ rest.head?, kind c = false) :
    (run ++ rest).takeWhile kind = run := by
  rw [List.takeWhile_append_of_pos hrun]
  cases rest with
  | nil => exact List.append_nil run
  | cons c rest => simp [hrest c rfl]

theorem dropWhile_stretch (hrun : ∀ c ∈ run, kind c = true) (hrest : ∀ c ∈ rest.head?, kind c = false) :
    (run ++ rest).dropWhile kind = rest := by
  rw [List.dropWhile_append_of_pos hrun]
  cases rest with
  | nil => rfl
  | cons c rest => simp [hrest c rfl]

theorem exists_stretch (kind : Char → Bool) (text : List Char) :
    ∃ run rest, text = run ++ rest ∧ (∀ c ∈ run, kind c = true) ∧ ∀ c ∈ rest.head?, kind c = false := by
  refine ⟨text.takeWhile kind, text.dropWhile kind, List.takeWhile_append_dropWhile.symm,
    List.all_eq_true.1 List.all_takeWhile, fun c hc => ?_⟩
  have hhead := List.head?_dropWhile_not kind text
  rwa [Option.mem_def.1 hc] at hhead

end Stretch

namespace Pattern

variable {pattern : Pattern} {rest new : List Char}

/-- A pattern that is found at the start of words only. -/
def StartsWords (pattern : Pattern) : Prop :=
  ∀ before text, (pattern before text).isSome = true →
    wordBefore before = false ∧ wordAhead text = true

/-- Nothing is found within a run. -/
theorem StartsWords.eq_none_within {c d : Char} (hpattern : pattern.StartsWords)
    (hrun : IsRun word (c :: d :: run)) : pattern (some c) (d :: (run ++ rest)) = none := by
  have hc : isWord c = word := hrun.kind c List.mem_cons_self
  have hd : isWord d = word := hrun.kind d (List.mem_cons_of_mem _ List.mem_cons_self)
  rw [Option.eq_none_iff_forall_ne_some]
  intro found hfound
  obtain ⟨hbefore, hahead⟩ := hpattern (some c) (d :: (run ++ rest)) (by rw [hfound]; rfl)
  rw [wordBefore, hc] at hbefore
  rw [wordAhead, List.head?_cons, wordBefore, hd, hbefore] at hahead
  cases hahead

/-- Where nothing is found at the start of a run, nothing is found within it. -/
theorem substituteFrom_run (hpattern : pattern.StartsWords) (hrun : IsRun word run)
    (hnone : pattern before (run ++ rest) = none) :
    pattern.substituteFrom before 0 (run ++ rest) =
      run ++ pattern.substituteFrom run.getLast? 0 rest := by
  obtain ⟨c, run, rfl⟩ := List.exists_cons_of_ne_nil hrun.nonempty
  induction run generalizing before c with
  | nil =>
    rw [List.singleton_append] at hnone
    simp [substituteFrom, hnone]
  | cons d run ih =>
    have hwithin : pattern (some c) ((d :: run) ++ rest) = none := hpattern.eq_none_within hrun
    have hrest : IsRun word (d :: run) :=
      ⟨List.cons_ne_nil _ _, fun e he => hrun.kind e (List.mem_cons_of_mem _ he)⟩
    rw [List.cons_append, substituteFrom, ← List.cons_append, hnone]
    simp only
    rw [ih d hrest hwithin, List.getLast?_cons_cons]
    rfl

/-- Whether something is found in a run is decided at its start. -/
theorem occursAfter_run (hpattern : pattern.StartsWords) (hrun : IsRun word run) :
    pattern.occursAfter before (run ++ rest) =
      ((pattern before (run ++ rest)).isSome || pattern.occursAfter run.getLast? rest) := by
  obtain ⟨c, run, rfl⟩ := List.exists_cons_of_ne_nil hrun.nonempty
  rw [List.cons_append, occursAfter]
  congr 1
  induction run generalizing c with
  | nil => rfl
  | cons d run ih =>
    have hrest : IsRun word (d :: run) :=
      ⟨List.cons_ne_nil _ _, fun e he => hrun.kind e (List.mem_cons_of_mem _ he)⟩
    rw [List.cons_append, occursAfter, ih d hrest, List.getLast?_cons_cons,
      hpattern.eq_none_within hrun, Option.isSome_none, Bool.false_or]

/-- What is found is replaced as a whole, and the scan goes on after it. -/
theorem substituteFrom_found {found : List Char} (hfound : found ≠ [])
    (h : pattern before (found ++ rest) = some (new, found.length)) :
    pattern.substituteFrom before 0 (found ++ rest) =
      new ++ pattern.substituteFrom found.getLast? 0 rest := by
  obtain ⟨c, found, rfl⟩ := List.exists_cons_of_ne_nil hfound
  rw [List.cons_append, substituteFrom, ← List.cons_append, h]
  simp only [List.length_cons, Nat.add_sub_cancel]
  rw [substituteFrom_skip, List.take_left, List.drop_left]

end Pattern

end TextGrammar
