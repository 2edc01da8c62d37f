import Mathlib.Tactic.Common
import TextGrammar.Outcomes.Distribution
import TextGrammar.Proofs.Result

/-! Products of outcomes with and without a cap, which keeps the first of the pairs. -/
namespace TextGrammar.Distribution

variable {W : Type} [Mul W] {join : String → String → String} {room : ℕ}
  {left right left' right' : List (String × W)}

/-- Every left outcome with every right one, in order. -/
def pairs (join : String → String → String) (left right : List (String × W)) : List (String × W) :=
  left.flatMap fun (a, p) => right.map fun (b, q) => (join a b, p * q)

@[simp] theorem pairs_nil : pairs join [] right = [] := rfl

theorem pairs_cons (a : String) (p : W) :
    pairs join ((a, p) :: left) right
      = (right.map fun (b, q) => (join a b, p * q)) ++ pairs join left right := rfl

theorem pairs_append :
    pairs join (left ++ left') right = pairs join left right ++ pairs join left' right :=
  List.flatMap_append

theorem length_pairs : (pairs join left right).length = left.length * right.length := by
  induction left with
  | nil => simp
  | cons outcome left ih =>
    obtain ⟨a, p⟩ := outcome
    rw [pairs_cons, List.length_append, List.length_map, ih, List.length_cons, Nat.succ_mul,
      Nat.add_comm]

theorem product_none : product join right none left = (pairs join left right, false) := by
  induction left with
  | nil => rfl
  | cons outcome left ih =>
    obtain ⟨a, p⟩ := outcome
    simp [product, fit, Room.after, ih, pairs_cons]

/-- Without a cap, outcomes are multiplied in full. -/
theorem Found.times_none {left right : Found W} :
    left.times none join right = {
      outcomes := pairs join left.outcomes right.outcomes
      warnings := left.warnings ++ right.warnings } := by
  simp [times, Cap.room, product_none]

theorem Found.length_times {left right : Found W} :
    (left.times none join right).outcomes.length
      = left.outcomes.length * right.outcomes.length := by
  rw [← length_pairs, times_none]

theorem product_some : product join right (some room) left
    = ((pairs join left right).take room, decide (room < (pairs join left right).length)) := by
  induction left generalizing room with
  | nil => simp [product]
  | cons outcome left ih =>
    obtain ⟨a, p⟩ := outcome
    rw [pairs_cons]
    by_cases hr : room < right.length
    · have hlen : room < right.length + (pairs join left right).length := by omega
      rw [List.take_append_of_le_length (by simpa using Nat.le_of_lt hr)]
      simp [product, fit, hr, hlen]
    · have hle : right.length ≤ room := by omega
      have hlen : room - right.length < (pairs join left right).length
          ↔ room < right.length + (pairs join left right).length := by omega
      simp [product, fit, hr, Room.after, ih, hlen, List.take_append, List.take_of_length_le, hle]

/-- A product is all pairs, as far as there is room. -/
theorem product_eq_fit {room : Room} :
    product join right room left = fit room (pairs join left right) := by
  cases room with
  | none => exact product_none
  | some room => exact product_some

/-- The first pairs need no more than so many of the right outcomes, -/
theorem take_pairs_right (h : right'.take room = right.take room) :
    (pairs join left right').take room = (pairs join left right).take room := by
  rcases Nat.lt_or_ge right.length room with hr | hr
  · have he : right' = right := by
      rw [List.take_of_length_le (Nat.le_of_lt hr)] at h
      have hlen := congrArg List.length h
      rw [List.length_take] at hlen
      rwa [List.take_of_length_le (by omega)] at h
    rw [he]
  · have hr' : room ≤ right'.length := by
      have hlen := congrArg List.length h
      simp only [List.length_take] at hlen
      omega
    cases left with
    | nil => rfl
    | cons outcome left =>
      obtain ⟨a, p⟩ := outcome
      rw [pairs_cons, pairs_cons, List.take_append_of_le_length (by simpa using hr'),
        List.take_append_of_le_length (by simpa using hr), ← List.map_take, ← List.map_take, h]

/-- nor of the left ones, if there are right ones at all. -/
theorem take_pairs_left (hn : right ≠ []) (h : left'.take room = left.take room) :
    (pairs join left' right).take room = (pairs join left right).take room := by
  have htake (outcomes : List (String × W)) :
      (pairs join (outcomes.take room) right).take room
        = (pairs join outcomes right).take room := by
    conv_rhs => rw [← List.take_append_drop room outcomes, pairs_append]
    rcases Nat.lt_or_ge outcomes.length room with hl | hl
    · simp [List.take_of_length_le (Nat.le_of_lt hl), List.drop_eq_nil_of_le (Nat.le_of_lt hl)]
    · rw [List.take_append_of_le_length]
      rw [length_pairs, List.length_take, Nat.min_eq_left hl]
      exact Nat.le_mul_of_pos_right _ (List.length_pos_iff.2 hn)
  rw [← htake left', h, htake left]

end TextGrammar.Distribution
