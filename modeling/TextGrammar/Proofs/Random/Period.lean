import Mathlib.Algebra.Ring.GeomSum
import Mathlib.Dynamics.PeriodicPts.Defs
import Mathlib.NumberTheory.Multiplicity
import TextGrammar.Proofs.Random

/-! The period of the seeded source: a state comes back after `2 ^ 32` steps and not before. -/
namespace TextGrammar

open Finset Function

/-- The powers of a multiplier that leaves one modulo four: so many of them add up to as many
factors of two as their number has. -/
theorem two_pow_dvd_geom_sum_iff {a : ℤ} (ha : 4 ∣ a - 1) (hne : a ≠ 1) (k n : ℕ) :
    2 ^ k ∣ ∑ i ∈ range n, a ^ i ↔ 2 ^ k ∣ n := by
  have hodd : ¬ 2 ∣ a := by omega
  have hpowers : emultiplicity 2 (a ^ n - 1) = emultiplicity 2 (a - 1) + emultiplicity (2 : ℤ) n := by
    simpa using Int.two_pow_sub_pow' n (y := 1) ha hodd
  have hsum : emultiplicity 2 (a ^ n - 1) =
      emultiplicity 2 (a - 1) + emultiplicity 2 (∑ i ∈ range n, a ^ i) := by
    rw [← mul_geom_sum, emultiplicity_mul Int.prime_two]
  have hfinite : emultiplicity 2 (a - 1) ≠ ⊤ :=
    finiteMultiplicity_iff_emultiplicity_ne_top.1
      (Int.finiteMultiplicity_iff.2 ⟨by decide, sub_ne_zero.2 hne⟩)
  have heq : emultiplicity 2 (∑ i ∈ range n, a ^ i) = emultiplicity (2 : ℤ) n :=
    ENat.add_right_injective_of_ne_top hfinite (hsum.symm.trans hpowers)
  rw [pow_dvd_iff_le_emultiplicity, heq, ← pow_dvd_iff_le_emultiplicity]
  exact_mod_cast Iff.rfl

theorem iterate_nextState_lt {state : ℕ} (h : state < 2 ^ 32) (n : ℕ) :
    nextState^[n] state < 2 ^ 32 := by
  cases n with
  | zero => exact h
  | succ n =>
    rw [iterate_succ_apply']
    exact nextState_lt _

theorem iterate_nextState_modEq (state n : ℕ) :
    (nextState^[n] state : ℤ) ≡
      state + (∑ i ∈ range n, 1664525 ^ i) * (1664524 * state + 1013904223) [ZMOD 2 ^ 32] := by
  induction n with
  | zero => simp
  | succ n ih =>
    rw [iterate_succ_apply', geom_sum_succ]
    have hstep : (nextState (nextState^[n] state) : ℤ) ≡
        (nextState^[n] state : ℤ) * 1664525 + 1013904223 [ZMOD 2 ^ 32] := by
      rw [nextState]
      push_cast
      exact Int.mod_modEq _ _
    calc (nextState (nextState^[n] state) : ℤ)
        ≡ (nextState^[n] state : ℤ) * 1664525 + 1013904223 [ZMOD 2 ^ 32] := hstep
      _ ≡ (state + (∑ i ∈ range n, 1664525 ^ i) * (1664524 * state + 1013904223)) * 1664525 +
            1013904223 [ZMOD 2 ^ 32] := (ih.mul_right _).add_right _
      _ = state + (1664525 * ∑ i ∈ range n, 1664525 ^ i + 1) * (1664524 * state + 1013904223) := by
        ring

/-- A state comes back exactly after multiples of `2 ^ 32` steps. -/
theorem iterate_nextState_eq_self_iff {state : ℕ} (h : state < 2 ^ 32) (n : ℕ) :
    nextState^[n] state = state ↔ 2 ^ 32 ∣ n := by
  have hodd : ¬ (2 : ℤ) ∣ 1664524 * state + 1013904223 := by omega
  have hmod : nextState^[n] state = state ↔ (nextState^[n] state : ℤ) ≡ state [ZMOD 2 ^ 32] := by
    have hn := iterate_nextState_lt h n
    simp only [Int.ModEq]
    omega
  rw [hmod, Int.modEq_comm, Int.modEq_iff_dvd]
  have hmoved := (iterate_nextState_modEq state n).sub_right (state : ℤ)
  rw [add_sub_cancel_left] at hmoved
  rw [hmoved.dvd_iff, ← two_pow_dvd_geom_sum_iff (a := 1664525) (by decide) (by decide)]
  exact ⟨Int.prime_two.pow_dvd_of_dvd_mul_right 32 hodd, fun hsum => hsum.mul_right _⟩

theorem minimalPeriod_nextState {state : ℕ} (h : state < 2 ^ 32) :
    minimalPeriod nextState state = 2 ^ 32 := by
  have hdvd (n : ℕ) : minimalPeriod nextState state ∣ n ↔ 2 ^ 32 ∣ n := by
    rw [← isPeriodicPt_iff_minimalPeriod_dvd, ← iterate_nextState_eq_self_iff h]
    rfl
  exact Nat.dvd_antisymm ((hdvd _).2 dvd_rfl) ((hdvd _).1 dvd_rfl)

/-- What comes back after some steps is a remainder. -/
theorem lt_of_iterate_nextState_eq {state n : ℕ} (hn : n ≠ 0) (h : nextState^[n] state = state) :
    state < 2 ^ 32 := by
  obtain ⟨m, rfl⟩ := Nat.exists_eq_succ_of_ne_zero hn
  rw [← h, iterate_succ_apply']
  exact nextState_lt _

/-- The step permutes the states. -/
theorem bijOn_nextState : Set.BijOn nextState (Set.Iio (2 ^ 32)) (Set.Iio (2 ^ 32)) := by
  have hstates : ptsOfPeriod nextState (2 ^ 32) = Set.Iio (2 ^ 32) := by
    ext state
    exact ⟨lt_of_iterate_nextState_eq (by norm_num),
      fun hlt => (iterate_nextState_eq_self_iff hlt _).2 dvd_rfl⟩
  rw [← hstates]
  exact bijOn_ptsOfPeriod nextState (by positivity)

/-- Distinct values below a number, as many as there are, are all of them. -/
theorem bijOn_of_injOn {f : ℕ → ℕ} {n : ℕ} (hmaps : Set.MapsTo f (Set.Icc 1 n) (Set.Iio n))
    (hinj : Set.InjOn f (Set.Icc 1 n)) : Set.BijOn f (Set.Icc 1 n) (Set.Iio n) := by
  rw [← coe_Icc, ← coe_Iio] at *
  exact ⟨hmaps, hinj, surjOn_of_injOn_of_card_le f hmaps hinj (by simp)⟩

/-- From any state, so many steps as there are states lead to each of them once. -/
theorem bijOn_iterate_nextState {state : ℕ} (h : state < 2 ^ 32) :
    Set.BijOn (fun n => nextState^[n] state) (Set.Icc 1 (2 ^ 32)) (Set.Iio (2 ^ 32)) := by
  have hinj : Set.InjOn (fun n => nextState^[n] state) (Set.Icc 1 (2 ^ 32)) := by
    intro m hm n hn heq
    obtain ⟨m, rfl⟩ := Nat.exists_eq_add_of_le' hm.1
    obtain ⟨n, rfl⟩ := Nat.exists_eq_add_of_le' hn.1
    -- all steps but the first one start from a state that comes back after `2 ^ 32` steps
    have hperiod := minimalPeriod_nextState (nextState_lt state)
    have hlt {k : ℕ} (hk : k + 1 ≤ 2 ^ 32) : k < minimalPeriod nextState (nextState state) := by
      rw [hperiod]
      exact hk
    have hlater : nextState^[m + 1] state = nextState^[n + 1] state := heq
    rw [iterate_succ_apply, iterate_succ_apply,
      iterate_eq_iterate_iff_of_lt_minimalPeriod (hlt hm.2) (hlt hn.2)] at hlater
    rw [hlater]
  have hmaps : Set.MapsTo (fun n => nextState^[n] state) (Set.Icc 1 (2 ^ 32)) (Set.Iio (2 ^ 32)) :=
    fun n _ => iterate_nextState_lt h n
  exact bijOn_of_injOn hmaps hinj

namespace Source

/-- The source after so many draws. -/
def afterDraws (source : Source) (count : ℕ) : Source := (fun source => source.draw.2)^[count] source

theorem afterDraws_seedWith (source : Source) (seed : ℤ) (count : ℕ) :
    (source.seedWith seed).afterDraws count =
      { source.seedWith seed with state := nextState^[count] (source.seedWith seed).state } := by
  induction count with
  | zero => rfl
  | succ count ih =>
    rw [afterDraws, iterate_succ_apply', ← afterDraws, ih, iterate_succ_apply']
    rfl

theorem state_seedWith_lt (source : Source) (seed : ℤ) :
    (source.seedWith seed).state < 2 ^ 32 := Nat.mod_lt _ stateCount_pos

/-- The first number drawn tells the seed. -/
theorem toRat_draw_seedWith_inj {source other : Source} {seed seed' : ℤ} :
    (source.seedWith seed).draw.1.toRat = (other.seedWith seed').draw.1.toRat ↔
      (source.seedWith seed).seed = (other.seedWith seed').seed := by
  have hstate : (source.seedWith seed).seed = (other.seedWith seed').seed ↔
      (source.seedWith seed).state = (other.seedWith seed').state := by
    simp only [seedWith, Option.some.injEq, Fin.mk.injEq]
  have hinj := bijOn_nextState.injOn.eq_iff (source.state_seedWith_lt seed)
    (other.state_seedWith_lt seed')
  rw [hstate, ← hinj, (toRat_draw _).2.1, (toRat_draw _).2.1,
    mul_left_inj' (by positivity), Nat.cast_inj]
  rfl

/-- From every seed, the states after the first `2 ^ 32` draws are all states there are, each once,
and the draws after them are the same again. So a step permutes the states, and the first number
drawn tells seeds apart. -/
theorem seeded_full_period (source : Source) (seed : ℤ) :
    Set.BijOn (fun count => ((source.seedWith seed).afterDraws count).state)
        (Set.Icc 1 (2 ^ 32)) (Set.Iio (2 ^ 32)) ∧
      (∀ count, (source.seedWith seed).afterDraws (count + 2 ^ 32) =
        (source.seedWith seed).afterDraws count) ∧
      Set.BijOn nextState (Set.Iio (2 ^ 32)) (Set.Iio (2 ^ 32)) ∧
      ∀ (other : Source) (seed' : ℤ),
        (source.seedWith seed).draw.1.toRat = (other.seedWith seed').draw.1.toRat ↔
          (source.seedWith seed).seed = (other.seedWith seed').seed := by
  have hlt := source.state_seedWith_lt seed
  refine ⟨?_, ?_, bijOn_nextState, fun other seed' => toRat_draw_seedWith_inj⟩
  · simp only [afterDraws_seedWith]
    exact bijOn_iterate_nextState hlt
  · intro count
    have hback := (iterate_nextState_eq_self_iff hlt (2 ^ 32)).2 dvd_rfl
    simp only [afterDraws_seedWith, iterate_add_apply, hback]

end Source

end TextGrammar
