import TextGrammar.Rule

/-! Ranges of numbers, with or without a step. -/
namespace TextGrammar.Rule.Range

variable (rule : Rule.Range)

/-- A range without a step is sized as if its step were one. -/
def unit : Amount := rule.step.getD 1

/-- How many values the steps from the low bound reach. Bounds in order leave it positive. -/
def size : Except NumberFault Nat := do
  let width ← rule.high.sub? rule.low
  let steps ← (← width.div? rule.unit).floor?
  return (steps + 1).toNat

def roundedText (value : Amount) : Except NumberFault String := do
  let half : Double := .ofQuotient false 1 2
  return toString (← (← value.add? (.real half)).floor?)

/-- A stepped integer is rounded, halves upwards. -/
def stepText (value : Amount) : Except NumberFault String :=
  match rule.kind with
  | .integer => roundedText value
  | .decimal => value.plainText?

/-- An integer drawn between the steps is floored. -/
def freeText (value : Amount) : Except NumberFault String :=
  match rule.kind with
  | .integer => do return toString (← value.floor?)
  | .decimal => value.plainText?

def nth (index : Amount) : Except NumberFault String := do
  rule.stepText (← rule.low.add? (← index.mul? rule.unit))

/-- One of the steps, or without a step any number between the bounds. -/
def draw (source : Source) : Except NumberFault String × Source :=
  match rule.step with
  | some step =>
    match rule.size with
    | .error fault => (.error fault, source)
    | .ok count =>
      let (offset, source) := source.amountBetween 0 (.whole count)
      (do rule.stepText (← rule.low.add? (← (← offset).mul? step)), source)
  | none =>
    let (x, source) := source.draw
    (do
      let width ← rule.high.sub? rule.low
      rule.freeText (← rule.low.add? (← (Amount.real x).mul? width)), source)

end TextGrammar.Rule.Range
