import TextGrammar.Datum

/-! Draws with unchecked arguments, which fail only where the draw comes to what is wrong. -/
namespace TextGrammar.Source

def between (low high : Datum) (source : Source) : Except Failure Amount × Source :=
  match low, high, low.amount?, high.amount? with
  | _, _, some low, some high =>
    let (amount, source) := source.amountBetween low high
    (amount.mapError .number, source)
  | .set _, .set _, _, _ =>
    (.error (.kind (.notCombinable "*" "float" "frozenset")), source.draw.2)
  | _, _, _, _ => (.error (.kind (.notCombinable "-" high.found low.found)), source.draw.2)

/-- One of the parts of an argument, by its place. -/
def chooseFrom (values : Datum) (source : Source) : Except Failure Datum × Source :=
  match values.parts with
  | .error failure => (.error failure, source)
  | .ok parts =>
    let (place, source) := source.choose (List.range parts.length)
    (place.bind fun place => values.partAt place, source)

/-- The first part whose bound the number drawn does not exceed; the bounds after it are not looked
at. -/
def pickFrom (x : Double) : List (Datum × Datum) → Except Failure (Option Datum)
  | [] => .ok none
  | (value, bound) :: rest =>
    match bound.amount? with
    | none => .error (.kind (.notOrdered "<=" "float" bound.found))
    | some bound => if (Amount.real x).le bound then .ok (some value) else pickFrom x rest

/-- A part by its bound, or else what stands at the last place. -/
def chooseFromWeighted (values bounds : Datum) (source : Source) : Except Failure Datum × Source :=
  match values.parts, bounds.parts with
  | .error failure, _ | _, .error failure => (.error failure, source)
  | .ok parts, .ok limits =>
    if parts.length ≠ limits.length then (.error (.value .lengthsDiffer), source)
    else if parts.isEmpty then (.error (.value .nothingToChoose), source)
    else
      let (x, source) := source.draw
      (match pickFrom x (parts.zip limits) with
        | .error failure => .error failure
        | .ok (some value) => .ok value
        | .ok none => values.partAt (-1), source)

end TextGrammar.Source
