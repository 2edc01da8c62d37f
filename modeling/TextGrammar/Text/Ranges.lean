/-! Sets of code points written as ascending lists of closed ranges. -/
namespace TextGrammar

/-- The search stops at the first range above the code point, since the ranges ascend. -/
def inRanges : List (Nat × Nat) → Nat → Bool
  | [], _ => false
  | (low, high) :: rest, n => if n < low then false else n ≤ high || inRanges rest n

end TextGrammar
