import TextGrammar.Failure
import TextGrammar.Number.Amount

/-! The random source: a linear congruential generator on 32-bit states. -/
namespace TextGrammar

def stateCount : Nat := 4294967296

theorem stateCount_pos : 0 < stateCount := Nat.succ_pos 4294967295

def nextState (state : Nat) : Nat := (state * 1664525 + 1013904223) % stateCount

structure Source where
  seed : Option (Fin stateCount)
  state : Nat
  /-- The state of the unseeded draws, which the outer layer fills. -/
  ambient : Nat
  deriving DecidableEq

namespace Source

def unseeded (ambient : Nat) : Source := { seed := none, state := 0, ambient }

instance : Inhabited Source := ⟨unseeded 0⟩

/-- Seeds that agree up to sign modulo `2 ^ 32` are one seed. -/
def seedWith (source : Source) (seed : Int) : Source :=
  let stored : Fin stateCount := ⟨seed.natAbs % stateCount, Nat.mod_lt _ stateCount_pos⟩
  { source with seed := some stored, state := stored }

def unseed (source : Source) : Source := { source with seed := none, state := 0 }

def hasSeed (source : Source) : Bool := source.seed.isSome

/-- The next state, as a number in `[0, 2 ^ 32)`. -/
def advance (source : Source) : Nat × Source :=
  if source.hasSeed then
    let state := nextState source.state
    (state, { source with state })
  else
    let ambient := nextState source.ambient
    (ambient, { source with ambient })

/-- A number in `[0, 1)`: the state over the modulus, without rounding. -/
def draw (source : Source) : Double × Source :=
  let (state, source) := source.advance
  (.ofScaled false state (-32), source)

/-- The number drawn, stretched to the width of `[low, high)` and floored. -/
def amountBetween (low high : Amount) (source : Source) : Except NumberFault Amount × Source :=
  let (x, source) := source.draw
  let result : Except NumberFault Amount := do
    let width ← high.sub? low
    let offset ← (← (Amount.real x).mul? width).floor?
    (Amount.whole offset).add? low
  (result, source)

/-- A place below `count`, each as likely as the others up to one state. -/
def index (count : Nat) (source : Source) : Except NumberFault Nat × Source :=
  let (x, source) := source.draw
  let result : Except NumberFault Nat := do
    let place ← (← (Amount.real x).mul? (.whole count)).floor?
    return place.toNat
  (result, source)

variable {α : Type}

/-- One of the values; nothing is drawn if there are none. -/
def choose (values : List α) (source : Source) : Except Failure α × Source :=
  if values.isEmpty then (.error (.value .nothingToChoose), source)
  else
    match source.index values.length with
    | (.error fault, source) => (.error (.number fault), source)
    | (.ok place, source) =>
      match values[place]? with
      | some value => (.ok value, source)
      | none => (.error .noIndex, source)

/-- The first value whose bound the number drawn does not exceed, or else the last value. -/
def pick (x : Double) : List (α × Double) → Option α
  | [] => none
  | [(value, _)] => some value
  | (value, bound) :: rest => if x.le bound then some value else pick x rest

/-- One of the values, by their running totals of weight. -/
def chooseWeighted (values : List α) (bounds : List Double) (source : Source) :
    Except Failure α × Source :=
  if values.length ≠ bounds.length then (.error (.value .lengthsDiffer), source)
  else if values.isEmpty then (.error (.value .nothingToChoose), source)
  else
    let (x, source) := source.draw
    match pick x (values.zip bounds) with
    | some value => (.ok value, source)
    | none => (.error .noIndex, source)

end Source

end TextGrammar
