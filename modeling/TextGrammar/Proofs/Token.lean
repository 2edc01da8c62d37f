import Mathlib.Data.List.TakeWhile
import Mathlib.Tactic.Common
import TextGrammar.Token

/-! The scan of a literal and of a token. -/
namespace TextGrammar

namespace Segment

theorem scan_of_notMem {cs : List Char} (h : '%' ∉ cs) : scan cs = (cs, []) := by
  induction cs with
  | nil => rw [scan]
  | cons c rest ih =>
    obtain ⟨hc, hrest⟩ := not_or.1 (mt List.mem_cons.2 h)
    rw [scan, if_neg (Ne.symm hc), ih hrest]
    rfl

/-- Without a `%` there is no token. -/
theorem split_of_notMem {text : String} (h : '%' ∉ text.toList) :
    split text = if text.toList.isEmpty then [] else [literal text] := by
  rw [split, scan_of_notMem h]
  simp [close]

/-- A `%` that no other one follows is literal. -/
theorem scan_unclosed {rest : List Char} (h : '%' ∉ rest) : scan ('%' :: rest) = ('%' :: rest, []) := by
  have hdrop : rest.dropWhile (· ≠ '%') = [] := by
    refine List.dropWhile_eq_nil_iff.2 ?_
    intro c hc
    have hne : c ≠ '%' := fun he => h (he ▸ hc)
    simpa using hne
  rw [scan, if_pos rfl]
  split
  · rfl
  · rename_i hcons
    rw [hdrop] at hcons
    cases hcons

/-- A `%` that another one follows at once is literal, and that one may open a token. -/
theorem scan_doubled (rest : List Char) :
    scan ('%' :: '%' :: rest) = consLiteral '%' (scan ('%' :: rest)) := by
  have hdrop : ('%' :: rest).dropWhile (· ≠ '%') = '%' :: rest := by simp
  rw [scan, if_pos rfl]
  split
  · rename_i hnil
    rw [hdrop] at hnil
    cases hnil
  · simp

/-- What can stand between the `%` of a token. -/
def IsName (name : List Char) : Prop := name ≠ [] ∧ '%' ∉ name

/-- A token with this name, and the text behind it. -/
def opened (name rest : List Char) : List Char := '%' :: (name ++ '%' :: rest)

theorem scan_opened {name rest : List Char} (h : IsName name) :
    scan (opened name rest) = ([], token (String.ofList name) :: close (scan rest)) := by
  have hmem : ∀ c ∈ name, decide (c ≠ '%') = true := by
    intro c hc
    have hne : c ≠ '%' := fun he => h.2 (he ▸ hc)
    simpa using hne
  have hdrop : (name ++ '%' :: rest).dropWhile (· ≠ '%') = '%' :: rest := by
    rw [List.dropWhile_append_of_pos hmem]
    rfl
  have htake : (name ++ '%' :: rest).takeWhile (· ≠ '%') = name := by
    rw [List.takeWhile_append_of_pos hmem]
    simp
  rw [opened, scan, if_pos rfl]
  split
  · rename_i hnil
    rw [hdrop] at hnil
    cases hnil
  · rename_i c after hcons
    rw [hdrop] at hcons
    cases hcons
    rw [htake]
    simp [h.1]

theorem toList_tokenText_append (name : String) (rest : List Char) :
    (tokenText name).toList ++ rest = opened name.toList rest := by
  simp [tokenText, opened]

/-- A name without a `%` makes a token. -/
theorem split_tokenText {name : String} (hne : name ≠ "") (h : '%' ∉ name.toList) :
    split (tokenText name) = [token name] := by
  have hname : IsName name.toList := ⟨by simpa using hne, h⟩
  have htext : (tokenText name).toList = opened name.toList [] := by
    simpa using toList_tokenText_append name []
  rw [split, htext, scan_opened hname]
  simp [close, scan]

end Segment

theorem mem_tokenNames {text name : String} :
    name ∈ tokenNames text ↔ .token name ∈ Segment.split text := by
  rw [tokenNames, List.mem_eraseDups, List.mem_filterMap]
  constructor
  · rintro ⟨segment, hmem, hname⟩
    cases segment with
    | literal text => cases hname
    | token other =>
      cases hname
      exact hmem
  · intro hmem
    exact ⟨.token name, hmem, rfl⟩

end TextGrammar
