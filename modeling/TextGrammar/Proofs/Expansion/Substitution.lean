import TextGrammar.Proofs.Expansion.Steps
import TextGrammar.Proofs.Token.Canonical

/-! Expansion as substitution: each match is replaced by its value, and the rest is copied. -/
namespace TextGrammar

open Segment

/-- Asks for a value for each match, from left to right, and puts it in place of the match. -/
def substitute {m : Type → Type} [Monad m] (replace : String → m String) (found : List Match)
    (last : List Char) : m String := do
  let values ← found.mapM fun first => replace (String.ofList first.name)
  let filled := found.zipWith (fun first value => String.ofList first.before ++ value) values
  return String.join filled ++ String.ofList last

section Substitute

variable {m : Type → Type} [Monad m] [LawfulMonad m] (replace : String → m String)

theorem substitute_nil (last : List Char) :
    substitute replace [] last = pure (String.ofList last) := by
  simp [substitute]

theorem substitute_cons (first : Match) (found : List Match) (last : List Char) :
    substitute replace (first :: found) last = do
      let value ← replace (String.ofList first.name)
      let tail ← substitute replace found last
      return String.ofList first.before ++ (value ++ tail) := by
  simp [substitute, String.append_assoc]

end Substitute

namespace Engine

variable (inner : String → Engine → Expanded)

theorem expandSegments_close (before : List Char) (rest : List Segment) :
    computation (expandSegments inner (close (before, rest))) = do
      let tail ← computation (expandSegments inner rest)
      return String.ofList before ++ tail := by
  cases before with
  | nil => simp [close]
  | cons c before => exact expandSegments_literal inner rest _

theorem expandSegments_cut (found : List Match) (last : List Char) :
    computation (expandSegments inner (cut found last)) =
      substitute (fun name => computation (expandToken inner name)) found last := by
  induction found with
  | nil =>
    rw [cut, expandSegments_close, substitute_nil]
    funext engine
    simp [bind_apply, computation, expandSegments]
  | cons first found ih =>
    rw [cut, expandSegments_close, expandSegments_token, substitute_cons, ih]
    simp only [bind_assoc, pure_bind]

end Engine

/-- Splitting and writing are inverse to each other between the texts and the canonical lists. The
tokens of a text are the matches in it, which are there for every text and no others: they are the
names it asks for, and expansion replaces them in their order and copies what stands between. -/
theorem split_bijective_on_canonical :
    (∀ text, render (split text) = text ∧ Canonical (split text)) ∧
      (∀ segments, Canonical segments → split (render segments) = segments) ∧
      ∀ text : String, ∃ found last,
        Matches text.toList found last ∧
        (∀ others rest, Matches text.toList others rest → others = found ∧ rest = last) ∧
        split text = cut found last ∧
        (split text).filterMap tokenName? = found.map (fun first => String.ofList first.name) ∧
        tokenNames text = ((split text).filterMap tokenName?).eraseDups ∧
        ∀ (limit : Int) (room : ℕ),
          Engine.computation (Engine.expandWithin limit (room + 1) text) =
            substitute (fun name =>
              Engine.computation (Engine.expandToken (Engine.expandWithin limit room) name))
              found last := by
  refine ⟨?_, ?_, ?_⟩
  · intro text
    obtain ⟨found, last, hfound⟩ := exists_matches text.toList
    rw [split_of_matches hfound]
    exact ⟨String.toList_injective (toList_render_cut hfound), canonical_cut hfound⟩
  · intro segments h
    obtain ⟨found, last, hfound, hcut⟩ := h.exists_matches
    rw [split_of_matches hfound, hcut]
  · intro text
    obtain ⟨found, last, hfound⟩ := exists_matches text.toList
    have hsplit : split text = cut found last := split_of_matches hfound
    refine ⟨found, last, hfound, ?_, hsplit, ?_, rfl, ?_⟩
    · intro others rest hothers
      exact hothers.unique hfound
    · rw [hsplit, filterMap_tokenName?_cut]
    · intro limit room
      rw [← Engine.expandSegments_cut, ← hsplit]
      rfl

/-- Of two `%` in a row the second opens the token, and one at the end opens none. -/
theorem split_doubled_and_unclosed :
    Canonical [token "a", literal "b%", token "c", literal "%d"] ∧
      split "%a%b%%c%%d" = [token "a", literal "b%", token "c", literal "%d"] := by
  have hlast : Canonical [literal "%d"] :=
    .last (by decide) ⟨[], 1, ['d'], by decide, by decide, by decide⟩
  have hrest : Canonical [literal "b%", token "c", literal "%d"] :=
    .literal (by decide) ⟨['b'], 1, by decide, by decide⟩ ⟨by decide, by decide⟩ hlast
  have h : Canonical [token "a", literal "b%", token "c", literal "%d"] :=
    .token ⟨by decide, by decide⟩ hrest
  exact ⟨h, split_bijective_on_canonical.2.1 _ h⟩

end TextGrammar
