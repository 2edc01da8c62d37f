/-! Rounding a quotient of naturals to the nearest natural, and powers. -/
namespace TextGrammar

def twoPower (n : Nat) : Nat := Nat.pow 2 n
def tenPower (n : Nat) : Nat := Nat.pow 10 n

/-- A quotient halfway between two naturals goes to the even one. -/
def nearest (num den : Nat) : Nat :=
  let quotient := num / den
  let twice := 2 * (num % den)
  if twice < den || (twice == den && quotient % 2 == 0) then quotient else quotient + 1

variable {num den : Nat}

theorem nearest_bounds (h : 0 < den) :
    2 * (den * nearest num den) ≤ 2 * num + den ∧ 2 * num ≤ 2 * (den * nearest num den) + den := by
  have hm := Nat.div_add_mod num den
  have hlt := Nat.mod_lt num h
  simp only [nearest]
  split
  · rename_i hc
    simp only [Bool.or_eq_true, decide_eq_true_eq, Bool.and_eq_true, beq_iff_eq] at hc
    omega
  · rename_i hc
    simp only [Bool.or_eq_true, decide_eq_true_eq, Bool.and_eq_true, beq_iff_eq] at hc
    rw [Nat.mul_add]
    omega

theorem two_mul_nearest_le (h : 0 < den) : 2 * (den * nearest num den) ≤ 2 * num + den :=
  (nearest_bounds h).1

theorem le_two_mul_nearest (h : 0 < den) : 2 * num ≤ 2 * (den * nearest num den) + den :=
  (nearest_bounds h).2

end TextGrammar
