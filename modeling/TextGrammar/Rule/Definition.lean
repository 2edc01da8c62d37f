import TextGrammar.Datum

/-! Rules from unchecked arguments: what is accepted has the shape that drawing relies on. -/
namespace TextGrammar

/-- Texts out of a list; the first item that is no text is named. -/
def textItems (part : ValuePart) : List Datum → Except Failure (List String)
  | [] => .ok []
  | item :: rest =>
    match item.text? with
    | some value => do return value :: (← textItems part rest)
    | none => .error (.rule (.notAText part item.found))

def valueTexts (part : ValuePart) (values : Datum) : Except Failure (List String) :=
  match values.listItems? with
  | some items => textItems part items
  | none => .error (.rule (.notAList part))

/-- At least one text is required. -/
def someValueTexts (part : ValuePart) (values : Datum) : Except Failure (List String) :=
  match values.listItems? with
  | some [] => .error (.rule (.noValues part))
  | _ => valueTexts part values

def Rule.Static.define (values : Datum) : Except Failure Rule.Static := do
  return { values := ← valueTexts .rule values }

def Rule.Function.define (generator : Datum) : Except Failure Rule.Function :=
  match generator.generator? with
  | some answer => .ok { answer, calls := 0 }
  | none => .error (.rule .notAGenerator)

/-- How far the weights may be from adding up to one. -/
def weightTolerance : Double := .ofQuotient false 1 10000

def checkWeight (weight : Datum) : Except Failure Double :=
  match weight.plainAmount? with
  | none => .error (.weights .notAWeight)
  | some amount =>
    if amount.lt 0 then .error (.weights .notAWeight)
    else
      match amount.toDouble? with
      | .error fault => .error (.number fault)
      | .ok x => if x.isNan then .error (.weights .notAWeight) else .ok x

/-- The sum is rounded only once, so the order of the weights does not matter. -/
def checkTotal (weights : List Double) : Except Failure Unit :=
  match Double.exactSum weights with
  | .error fault => .error (.number fault)
  | .ok sum =>
    if weightTolerance.lt (sum - 1).abs then .error (.weights (.total sum)) else .ok ()

def Rule.Weighted.define (values weights : Datum) : Except Failure Rule.Weighted := do
  let values ← someValueTexts .rule values
  let some weights := weights.listItems? | throw (.weights .notAList)
  if values.length ≠ weights.length then throw (.weights .lengthsDiffer)
  let weights ← weights.mapM checkWeight
  checkTotal weights
  return { values, weights }

/-- A branch from its three parts, of which a test and values belong together. -/
def Branch.define (seenOtherwise : Bool) (test values fallback : Datum) : Except Failure Branch :=
  match test, values, fallback with
  | .nothing, .nothing, .nothing => .error (.rule .incompleteBranch)
  | .nothing, .nothing, fallback =>
    if seenOtherwise then .error (.rule .secondFallback)
    else return .otherwise (← someValueTexts .fallback fallback)
  | .nothing, _, .nothing | _, .nothing, .nothing => .error (.rule .incompleteBranch)
  | test, values, .nothing =>
    match test.predicate? with
    | some test => return .given test (← someValueTexts .branch values)
    | none => .error (.rule .notAPredicate)
  | _, _, _ => .error (.rule .mixedBranch)

def Branch.ofDatum (seenOtherwise : Bool) : Datum → Except Failure Branch
  | .mapping members =>
    let part (name : String) : Datum := Data.member (.text name) members
    Branch.define seenOtherwise (part "if") (part "then") (part "default")
  | .branch test values fallback => Branch.define seenOtherwise test values fallback
  | _ => .error (.rule .notABranch)

def branchList (seenOtherwise : Bool) : List Datum → Except Failure (List Branch)
  | [] => .ok []
  | item :: rest => do
    let branch ← Branch.ofDatum seenOtherwise item
    return branch :: (← branchList (seenOtherwise || branch.isOtherwise) rest)

def Rule.Conditional.define (branches : Datum) : Except Failure Rule.Conditional := do
  match branches.listItems? with
  | none => throw (.rule .branchesNotAList)
  | some [] => throw (.rule .noBranches)
  | some items => return { branches := ← branchList false items }

def Rule.Sequential.define (values cycle : Datum) : Except Failure Rule.Sequential := do
  return { values := ← someValueTexts .sequence values, cycle := cycle.truth, index := 0 }

def RangeKind.ofText? (word : String) : Option RangeKind :=
  if word = "integer" then some .integer else if word = "float" then some .decimal else none

/-- Amounts that do not compare are let through: only bounds in the wrong order and steps that are
not positive are refused. -/
def Rule.Range.define (low high step kind : Datum) : Except Failure Rule.Range := do
  let (some low, some high) := (low.plainAmount?, high.plainAmount?)
    | throw (.rule .boundsNotNumbers)
  if high.le low then throw (.rule .boundsOutOfOrder)
  let step ← match step with
    | .nothing => pure none
    | .number step => if step.le 0 then throw (.rule .stepNotPositive) else pure (some step)
    | _ => throw (.rule .stepNotPositive)
  let some kind := kind.text?.bind RangeKind.ofText? | throw (.rule .unknownRangeKind)
  return { low, high, step, kind }

/-- The keys of a mapping differ already, so each one is filed in its place. -/
def choiceList : List (Datum × Datum) → Except Failure (List (Value × List String))
  | [] => .ok []
  | (key, values) :: rest => do
    let values ← valueTexts (.choice key.display) values
    return (key.sealed, values) :: (← choiceList rest)

def Rule.Template.checkOpenNames (rule : Rule.Template) : List String → Except Failure Unit
  | [] => .ok ()
  | name :: rest =>
    match rule.values? name with
    | none => .error (.rule (.openNameUndefined name))
    | some [] => .error (.rule (.openNameWithoutValues name))
    | some _ => rule.checkOpenNames rest

def Rule.Template.define (template choices : Datum) : Except Failure Rule.Template := do
  let some template := template.text? | throw (.rule .emptyTemplate)
  if template.isEmpty then throw (.rule .emptyTemplate)
  let .mapping members := choices | throw (.rule .choicesNotAMapping)
  let rule : Rule.Template := { template, choices := ← choiceList members }
  rule.checkOpenNames rule.openNames
  return rule

end TextGrammar
