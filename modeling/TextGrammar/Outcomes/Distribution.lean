import TextGrammar.Number.Limit
import TextGrammar.Number.Log
import TextGrammar.Outcomes.Merge
import TextGrammar.Store

/-! The outcomes of a rule with their probabilities, in any numbers and with a cap or without. -/
namespace TextGrammar

instance : Zero Double := ⟨0⟩
instance : One Double := ⟨1⟩

namespace Distribution

/-- What the outcomes do not show as it is. -/
inductive Warning where
  | circular (name : String)
  | tooDeep (limit : Bound) (name : String)
  | missing (name : String)
  | dynamic (name : String)
  | openRange (name : String)
  | truncated (cap : Bound)
  deriving DecidableEq

namespace Warning

def message : Warning → String
  | circular name => s!"Circular reference detected for rule '{name}'"
  | tooDeep limit name => s!"Maximum depth ({limit.limit.text}) reached for rule '{name}'"
  | missing name => s!"Missing rule '{name}' referenced in expansion"
  | dynamic name =>
    s!"Function rule '{name}' has dynamic outcomes - cannot calculate exact probabilities"
  | openRange name => s!"Range rule '{name}' has no step; continuous ranges are unbounded"
  | truncated cap => s!"Maximum outcomes ({cap.limit.text}) reached, distribution is truncated"

/-- Outcomes that no list can hold. -/
def isInfinite : Warning → Bool
  | dynamic _ | openRange _ => true
  | _ => false

end Warning

/-- The number of outcomes is capped, or it is not. A cap that is not positive leaves no room. -/
abbrev Cap := Option Bound

/-- The places that are left, if they are limited. -/
abbrev Room := Option Nat

def Cap.room (cap : Cap) : Room := cap.map (·.value.toNat)

def Cap.isWhole (cap : Cap) : Bool := cap.all (·.limit.isWhole)

/-- Whether so many outcomes are more than the cap. -/
def Cap.cuts (cap : Cap) (count : Nat) : Bool := cap.any (·.limit.cuts count)

/-- The warning that something was cut off. -/
def Cap.cut (cap : Cap) : List Warning :=
  match cap with
  | some cap => [.truncated cap]
  | none => []

variable {W : Type}

/-- Outcomes with their probabilities, and the warnings of the walk in order. -/
structure Found (W : Type) where
  outcomes : List (String × W)
  warnings : List Warning := []

/-- As many items as there is room for, and whether that leaves some out. -/
def fit {α : Type} (room : Room) (items : List α) : List α × Bool :=
  match room with
  | none => (items, false)
  | some room => (items.take room, room < items.length)

def Room.after (room : Room) (used : Nat) : Room := room.map (· - used)

variable [Zero W] [One W] [Add W] [Mul W] [Div W] [NatCast W]

/-- Every left outcome with every right one, in order and as far as there is room. -/
def product (join : String → String → String) (right : List (String × W)) :
    Room → List (String × W) → List (String × W) × Bool
  | _, [] => ([], false)
  | room, (a, p) :: left =>
    match fit room right with
    | (right', true) => (right'.map fun (b, q) => (join a b, p * q), true)
    | (_, false) =>
      let (rest, cut) := product join right (room.after right.length) left
      (right.map (fun (b, q) => (join a b, p * q)) ++ rest, cut)

def Found.times (cap : Cap) (join : String → String → String) (left right : Found W) :
    Found W :=
  let (outcomes, cut) := product join right.outcomes cap.room left.outcomes
  { outcomes
    warnings := left.warnings ++ right.warnings ++ (if cut then cap.cut else []) }

/-- What a walk looks at, and how a weight becomes a probability. -/
structure Setting (W : Type) where
  store : Store
  limit : Bound
  cap : Cap
  openRangesInfinite : Bool
  ofWeight : Double → W

/-- A range whose values cannot be computed ends a walk, and a cap that is no whole number where a
list has to be cut at it. -/
abbrev Walk := Except Failure

variable (setting : Setting W) (nested : String → Walk (Found W))

/-- The outcomes of a text that has a probability to start with. A token multiplies them, and a
replay stays as it is. -/
def segmentsFound : Found W → List Segment → Walk (Found W)
  | found, [] => .ok found
  | found, .literal text :: rest =>
    segmentsFound { found with outcomes := found.outcomes.map fun (o, p) => (o ++ text, p) } rest
  | found, .token name :: rest =>
    if isReplay name then
      segmentsFound
        { found with outcomes := found.outcomes.map fun (o, p) => (o ++ Segment.tokenText name, p) }
        rest
    else do
      let right ← nested name
      segmentsFound (found.times setting.cap (· ++ ·) right) rest

def textFound (text : String) (probability : W) : Walk (Found W) :=
  segmentsFound setting nested { outcomes := [("", probability)] } (Segment.split text)

/-- The outcomes of several texts, one after the other as long as there is room. -/
def textsFound : Room → List (String × W) → Walk (Found W)
  | _, [] => .ok { outcomes := [] }
  | room, (text, probability) :: rest =>
    if room = some 0 then .ok { outcomes := [], warnings := setting.cap.cut }
    else do
      let found ← textFound setting nested text probability
      if !setting.cap.isWhole then throw (.kind .notAPlace)
      let (outcomes, cut) := fit room found.outcomes
      let others ← textsFound (room.after outcomes.length) rest
      return {
        outcomes := outcomes ++ others.outcomes
        warnings := found.warnings ++ (if cut then setting.cap.cut else []) ++ others.warnings }

/-- Values that are equally likely. -/
def evenly (share : W) (values : List String) : List (String × W) :=
  values.map fun value => (value, share / (values.length : W))

def weightedValues (values : List String) (weights : List Double) : List (String × W) :=
  let weights := weights.map setting.ofWeight
  let total := weights.foldl (· + ·) 0
  (values.zip weights).map fun (value, weight) => (value, weight / total)

/-- The template with its open names filled in all ways. -/
def templateTexts (template : Rule.Template) : Found W → List String → Found W
  | found, [] => found
  | found, name :: rest =>
    let values : List (String × W) := evenly 1 ((template.values? name).getD [])
    templateTexts template
      (found.times setting.cap (fun text value => fillToken name value text)
        { outcomes := values }) rest

/-- A marker in place of outcomes that cannot be told. -/
def marked (label name : String) (warning : Warning) : Found W :=
  { outcomes := [(s!"[{label}:{name}]", 1)], warnings := [warning] }

def rangeFound (name : String) (range : Rule.Range) : Walk (Found W) :=
  if range.step.isNone && setting.openRangesInfinite then
    .ok (marked "range" name (.openRange name))
  else do
    let count ← range.size.mapError .number
    let isCut := setting.cap.cuts count
    if isCut && !setting.cap.isWhole then throw (.kind (.notACount "float"))
    let room := if isCut then setting.cap.room.getD count else count
    let texts ←
      ((List.range room).mapM fun (index : Nat) => range.nth (.whole index)).mapError .number
    return {
      outcomes := texts.map fun text => (text, 1 / (count : W))
      warnings := if isCut then setting.cap.cut else [] }

/-- One rule, whose tokens are followed by `nested`; markers and warnings show its name as it is
given. A static rule without values leaves its token as it is. -/
def ruleFound (shown : String) (rule : Rule) : Walk (Found W) :=
  let texts := textsFound setting nested setting.cap.room
  match rule with
  | .function _ => .ok (marked "function" shown (.dynamic shown))
  | .range rule => rangeFound setting shown rule
  | .template rule => do
    let filled := templateTexts setting rule { outcomes := [(rule.template, 1)] } rule.openNames
    let found ← texts filled.outcomes
    return { found with warnings := filled.warnings ++ found.warnings }
  | .weighted rule => texts (weightedValues setting rule.values rule.weights)
  | .conditional rule =>
    let share : W := 1 / (rule.branches.length : W)
    texts (rule.branches.flatMap fun branch => evenly share branch.values)
  | .static { values } | .sequential { values, .. } =>
    if values.isEmpty then .ok { outcomes := [(Segment.tokenText shown, 1)] }
    else texts (evenly 1 values)

/-- The outcomes of a name below the visited ones, unless no depth is left. -/
def nameFound (nested : Option (List String → String → Walk (Found W))) (visited : List String)
    (shown name : String) : Walk (Found W) :=
  if name ∈ visited then .ok (marked "circular" shown (.circular shown))
  else
    match nested, setting.store.rule? name with
    | none, _ => .ok (marked "max-depth" shown (.tooDeep setting.limit shown))
    | some _, none => .ok (marked "missing" shown (.missing shown))
    | some nested, some rule => ruleFound setting (nested (name :: visited)) shown rule

/-- The outcomes of a name, with the given number of depths left. -/
def foundWithin : Nat → List String → String → Walk (Found W)
  | 0, visited, name => nameFound setting none visited name name
  | room + 1, visited, name => nameFound setting (some (foundWithin room)) visited name name

/-- The outcomes of a name on its own. -/
def foundShown (shown name : String) : Walk (Found W) :=
  match setting.limit.value.toNat with
  | 0 => nameFound setting none [] shown name
  | room + 1 => nameFound setting (some (foundWithin setting room)) [] shown name

/-- What a report lists, in the order of the walk. Messages and markers show the name in a way of
their own. -/
def reportedShown (mergeOutcomes : Bool) (shown name : String) : Walk (Found W) :=
  if !setting.store.hasName name then .error (.unknownRule shown)
  else do
    let found ← foundShown setting shown name
    return {
      found with
      outcomes := if mergeOutcomes then (merge found.outcomes).entries else found.outcomes }

def reported (mergeOutcomes : Bool) (name : String) : Walk (Found W) :=
  reportedShown setting mergeOutcomes name name

end Distribution

/-- The distribution of a rule, the most probable outcomes first. -/
structure Distribution where
  name : String
  outcomes : List (String × Double)
  warnings : List Distribution.Warning

namespace Distribution

/-- The walk of a report: in binary64 numbers and capped. -/
def Setting.capped (store : Store) (limit cap : Bound) (openRangesInfinite : Bool) :
    Setting Double :=
  { store, limit, cap := some cap, openRangesInfinite, ofWeight := id }

/-- Equally probable outcomes keep the order of the walk. -/
def ofRuleShown (setting : Setting Double) (mergeOutcomes : Bool) (shown name : String) :
    Except Failure Distribution := do
  let found ← reportedShown setting mergeOutcomes shown name
  return {
    name
    warnings := found.warnings
    outcomes := found.outcomes.mergeSort fun a b => !a.2.lt b.2 }

def ofRule (setting : Setting Double) (mergeOutcomes : Bool) (name : String) :
    Except Failure Distribution :=
  ofRuleShown setting mergeOutcomes name name

/-- A sum of `p * log₂ p` over probabilities, with the last of them and its term: equal ones come in
a row, and their logarithm is computed once. -/
structure BitSum where
  last : Double
  term : Double
  sum : Double

namespace BitSum

def bits (p : Double) : Double := p * p.log2

def start (p : Double) : BitSum := { last := p, term := bits p, sum := 0 }

def add (bitSum : BitSum) (p : Double) : BitSum :=
  if p = bitSum.last then { bitSum with sum := bitSum.sum + bitSum.term }
  else
    let term := bits p
    { last := p, term, sum := bitSum.sum + term }

/-- The terms that are kept are the ones that would be computed. -/
theorem sum_foldl_add (ps : List Double) (bitSum : BitSum) (h : bitSum.term = bits bitSum.last) :
    (ps.foldl add bitSum).sum = ps.foldl (fun sum p => sum + bits p) bitSum.sum := by
  induction ps generalizing bitSum with
  | nil => rfl
  | cons p rest ih =>
    rw [List.foldl_cons, List.foldl_cons]
    by_cases hp : p = bitSum.last
    · rw [add, if_pos hp, hp, ← h]
      exact ih _ h
    · rw [add, if_neg hp]
      exact ih _ rfl

end BitSum

variable (distribution : Distribution)

def likeliest : List (String × Double) := distribution.outcomes.take 10

/-- The least probable outcome first. -/
def unlikeliest : List (String × Double) := (distribution.outcomes.reverse.take 10)

def average : Double :=
  if distribution.outcomes.isEmpty then 0
  else
    (distribution.outcomes.map Prod.snd).foldl (· + ·) 0 / (distribution.outcomes.length : Double)

/-- The mean number of bits that an outcome tells. -/
def entropy : Double :=
  let positive := (distribution.outcomes.map Prod.snd).filter fun p => Double.lt 0 p
  let sum := (positive.foldl BitSum.add (.start 1)).sum
  if Double.lt 0 (-sum) then -sum else 0

def isFinite : Bool := !distribution.warnings.any (·.isInfinite)

/-- Each warning once, at its first place. -/
def messages : List String := (distribution.warnings.map (·.message)).eraseDups

end Distribution

end TextGrammar
