import TextGrammar.Number.Amount

/-! Limits as they are given: numbers, or truth values that count as zero and one. -/
namespace TextGrammar

inductive Limit where
  | flag (value : Bool)
  | number (amount : Amount)
  deriving DecidableEq

namespace Limit

instance (n : Nat) : OfNat Limit n := ⟨number (.whole n)⟩

def ofInt (n : Int) : Limit := number (.whole n)

def amount : Limit → Amount
  | flag value => .whole (if value then 1 else 0)
  | number amount => amount

def text : Limit → String
  | flag value => if value then "True" else "False"
  | number amount => amount.text

/-- Only a whole number says how long a list may get. -/
def isWhole (limit : Limit) : Bool := limit.amount matches .whole _

/-- The least integer that reaches a limit. No integer reaches infinity, or what is no number. -/
def least? (limit : Limit) : Option Int :=
  match limit.amount with
  | .whole n => some n
  | .real x => match x.neg.floor? with
    | .ok n => some (-n)
    | .error _ => if x.isNegative then some 0 else none

/-- Whether a limit is below a count, and so cuts it. -/
def cuts (limit : Limit) (count : Nat) : Bool := limit.amount.lt (.whole count)

end Limit

/-- A limit in effect, and the limit as it was given. -/
structure Bound where
  value : Int
  limit : Limit
  deriving DecidableEq

def Bound.ofInt (n : Int) : Bound := { value := n, limit := .ofInt n }

instance (n : Nat) : OfNat Bound n := ⟨.ofInt n⟩

/-- A limit that nothing reaches takes effect as an integer beyond everything. -/
def Limit.bound (beyond : Int) (limit : Limit) : Bound where
  value := limit.least?.getD beyond
  limit := limit

end TextGrammar
