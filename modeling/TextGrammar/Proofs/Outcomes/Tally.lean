import TextGrammar.Outcomes.Complexity
import TextGrammar.Proofs.Number.Amount
import TextGrammar.Proofs.Result

/-! Counts, and tallies that go on after each other. An infinite count absorbs all others. -/
namespace TextGrammar

namespace Count

/-- A number that a binary64 number is near enough to. -/
def Fits (n : ℕ) : Prop := ∃ x, Double.ofInt? n = .ok x

theorem check_finite {n : ℕ} : (finite n).check = .ok () ↔ Fits n := by
  simp only [check, Fits]
  cases Double.ofInt? n <;> simp [Except.map]

theorem Fits.mono {m n : ℕ} (hn : Fits n) (h : m ≤ n) : Fits m := Double.ofInt?_ok_of_le h hn

@[simp] theorem infinite_mul {count : Count} : infinite.mul count = infinite := by
  cases count <;> rfl

@[simp] theorem mul_infinite {count : Count} : count.mul infinite = infinite := by
  cases count <;> rfl

@[simp] theorem infinite_add {count : Count} : infinite.add count = infinite := by
  cases count <;> rfl

theorem mul_one {count : Count} : count.mul (finite 1) = count := by
  cases count with
  | finite n => simp [mul]
  | infinite => rfl

theorem one_mul {count : Count} : (finite 1).mul count = count := by
  cases count with
  | finite n => simp [mul]
  | infinite => rfl

theorem mul_assoc {a b c : Count} : (a.mul b).mul c = a.mul (b.mul c) := by
  cases a <;> cases b <;> cases c <;> simp [mul, Nat.mul_assoc]

theorem eq_infinite_of_isFinite {count : Count} (h : count.isFinite = false) :
    count = infinite := by
  cases count with
  | finite n => cases h
  | infinite => rfl

end Count

namespace Complexity

theorem Tally.andThen_eq_ok {first tally : Tally} {join : Count → Count → Count}
    {next : Unit → Except NumberFault Tally} (h : first.andThen join next = .ok tally) :
    (first.count = .infinite ∧ tally = first) ∨
      ∃ second, next () = .ok second ∧ tally.count = join first.count second.count := by
  simp only [andThen] at h
  split at h
  · obtain ⟨second, hs, h⟩ := bind_eq_ok.1 h
    rw [← pure_eq_ok.1 h]
    exact Or.inr ⟨second, hs, rfl⟩
  · rename_i hinf
    cases h
    exact Or.inl ⟨Count.eq_infinite_of_isFinite (by simpa using hinf), rfl⟩

theorem Tally.exists_andThen {first : Tally} {join : Count → Count → Count}
    {next : Unit → Except NumberFault Tally} (h : ∃ second, next () = .ok second) :
    ∃ tally, first.andThen join next = .ok tally := by
  simp only [andThen]
  split
  · obtain ⟨second, hs⟩ := h
    rw [hs]
    exact ⟨_, rfl⟩
  · exact ⟨first, rfl⟩

end Complexity

end TextGrammar
