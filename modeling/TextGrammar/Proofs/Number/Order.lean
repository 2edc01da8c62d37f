import Mathlib.Order.WithBot
import TextGrammar.Proofs.Number.Amount

/-! Amounts in order: all but those that are no number compare as their exact values do. -/
namespace TextGrammar

/-- Exact values, and one below and one above all of them. -/
abbrev Extended := WithBot (WithTop ℚ)

namespace Extended

def ofRat (q : ℚ) : Extended := (q : WithTop ℚ)

theorem ofRat_lt_top (q : ℚ) : ofRat q < ⊤ := WithBot.coe_lt_coe.2 (WithTop.coe_lt_top q)

theorem bot_lt_ofRat (q : ℚ) : ⊥ < ofRat q := WithBot.bot_lt_coe _

theorem compare_ofRat (p q : ℚ) : compare (ofRat p) (ofRat q) = compare p q := by
  rw [← cmp_eq_compare, ← cmp_eq_compare]
  exact (WithBot.coe_strictMono.comp WithTop.coe_strictMono).cmp_map_eq p q

end Extended

namespace Double

open Extended

/-- The exact value. What is no number counts as the least. -/
def extended : Double → Extended
  | nan => ⊥
  | infinite negative => if negative then ⊥ else ⊤
  | x => ofRat x.toRat

theorem compare?_eq_compare_extended {x y : Double} (hx : x.isNan = false) (hy : y.isNan = false) :
    x.compare? y = some (compare x.extended y.extended) := by
  cases x with
  | nan => cases hx
  | infinite s =>
    cases y with
    | nan => cases hy
    | infinite t => cases s <;> cases t <;> decide
    | finite t n f =>
      cases s with
      | false => exact congrArg some (compare_gt_iff_gt.2 (ofRat_lt_top _)).symm
      | true => exact congrArg some (compare_lt_iff_lt.2 (bot_lt_ofRat _)).symm
  | finite s m e =>
    cases y with
    | nan => cases hy
    | infinite t =>
      cases t with
      | false => exact congrArg some (compare_lt_iff_lt.2 (ofRat_lt_top _)).symm
      | true => exact congrArg some (compare_gt_iff_gt.2 (bot_lt_ofRat _)).symm
    | finite t n f => exact (compare?_eq_compare rfl rfl).trans (congrArg some (compare_ofRat _ _).symm)

theorem compareQuotient?_eq_compare_extended {x : Double} (n : ℤ) (hx : x.isNan = false) :
    x.compareQuotient? n 1 = some (compare x.extended (ofRat n)) := by
  cases x with
  | nan => cases hx
  | infinite s =>
    cases s with
    | false => exact congrArg some (compare_gt_iff_gt.2 (ofRat_lt_top _)).symm
    | true => exact congrArg some (compare_lt_iff_lt.2 (bot_lt_ofRat _)).symm
  | finite s m e =>
    exact (compareQuotient?_eq_compare n rfl).trans (congrArg some (compare_ofRat _ _).symm)

/-- No number is less than itself, whatever it compares with. -/
theorem lt_self (x : Double) : x.lt x = false := by
  cases x with
  | nan => rfl
  | infinite s => cases s <;> rfl
  | finite s m e => rw [lt, compare?_eq_compare rfl rfl, compare_eq_iff_eq.2 rfl]

end Double

namespace Amount

open Extended

def extended : Amount → Extended
  | whole n => ofRat n
  | real x => x.extended

/-- Amounts compare as their values do, whichever kind they are of. -/
theorem compare?_eq_compare_extended {a b : Amount} (ha : a.isNan = false) (hb : b.isNan = false) :
    a.compare? b = some (compare a.extended b.extended) := by
  cases a with
  | whole m =>
    cases b with
    | whole n =>
      have hcast : compare m n = compare (m : ℚ) n := by
        rw [← cmp_eq_compare, ← cmp_eq_compare]
        exact (Int.cast_strictMono.cmp_map_eq m n).symm
      exact congrArg some (hcast.trans (compare_ofRat _ _).symm)
    | real y =>
      have hcompare := Double.compareQuotient?_eq_compare_extended m hb
      simp only [compare?, hcompare, Option.map_some, extended]
      rw [← cmp_eq_compare, cmp_swap, cmp_eq_compare]
  | real x =>
    cases b with
    | whole n => exact Double.compareQuotient?_eq_compare_extended n ha
    | real y => exact Double.compare?_eq_compare_extended ha hb

theorem lt_iff_extended_lt {a b : Amount} (ha : a.isNan = false) (hb : b.isNan = false) :
    a.lt b = true ↔ a.extended < b.extended := by
  rw [lt, compare?_eq_compare_extended ha hb, ← compare_lt_iff_lt]
  cases compare a.extended b.extended <;> simp

end Amount

end TextGrammar
