import TextGrammar.Generator.Parsing
import TextGrammar.Generator.Report

/-! Questions with unchecked arguments, which fail only if the answer comes to depend on them. -/
namespace TextGrammar

namespace Data

/-- A kind of rule, or the word for one. -/
def ruleKind (argument : Datum) : Except Failure RuleKind := do
  match RuleKind.all.find? fun value => argument.text? = some value.text with
  | some value => return value
  | none =>
    let _ ← argument.name?
    throw (.noMember argument.written)

/-- Whatever counts as no, and what is nothing, leaves a question to its default. -/
def given? (argument : Datum) : Option Datum := if argument.truth then some argument else none

/-- An argument, or the setting in its place if it is nothing. -/
def orSetting (argument : Datum) (setting : Value) : Value :=
  match argument with
  | nothing => setting
  | argument => argument.sealed

end Data

namespace Generator

variable (generator : Generator)

/-- The names on a path, as many as the argument has parts. A part that is no text stands for the
empty name, which nothing asks for. -/
def visitedNames (key : String) (visited : Datum) : Except Failure (List String) := do
  let isVisited ← visited.holds key
  let parts ← visited.parts
  match visited with
  | .set _ => return parts.map fun part => part.text?.getD ""
  | _ => return parts.mapIdx fun place _ => if isVisited && place = 0 then key else ""

/-- Only a set of names can be added to. -/
def checkPath (visited : Datum) : Except Failure Unit :=
  match visited with
  | .set _ => .ok ()
  | other => .error (.kind (.notCombinable "|" other.found "set"))

def complexity (name visited maxDepth : Datum) : Except Failure RuleComplexity := do
  let known := (← name.name?).filter generator.store.hasName
  let some key := known | throw (.unknownRule name.display)
  let path ← visitedNames key visited
  let isVisited := path.contains key
  let limit ← if isVisited then pure 0
    else (maxDepth.orSetting generator.analysis.maxDepth).limit ">="
  let setting := generator.countSetting path.length limit
  if !isVisited && path.length < setting.limit.value then checkPath visited
  complexityShown setting path name.display key

def totalComplexity (maxDepth : Datum) : Except Failure TotalComplexity := do
  let limit ← if generator.store.size = 0 then pure 0
    else (maxDepth.orSetting generator.analysis.maxDepth).limit ">="
  overallComplexity (generator.countSetting 0 limit)

/-- How a rule compares a count of outcomes with the cap, if it does: a range its size, and other
rules what they have found so far. -/
def capRelation? (rule : Rule) : Except Failure (Option String) :=
  match rule with
  | .function _ => .ok none
  | .range range =>
    if range.step.isNone && generator.analysis.openRangesInfinite then .ok none
    else do
      let _ ← range.size.mapError .number
      return some ">"
  | .static rule => .ok (if rule.values.isEmpty then none else some ">=")
  | _ => .ok (some ">=")

/-- The cap of a walk. One that is no number is told by the first comparison with it; if there is
none, any cap will do. -/
def capFor (rule : Rule) (isTooDeep : Bool) (maxOutcomes : Value) : Except Failure Limit := do
  let relation? ← if isTooDeep then pure none else generator.capRelation? rule
  match relation? with
  | some relation => maxOutcomes.limit relation
  | none => return (maxOutcomes.limit ">=").toOption.getD 0

def outcomes (name maxDepth maxOutcomes : Datum) : Except Failure Distribution := do
  let known := (← name.name?).bind fun key => (generator.store.rule? key).map (key, ·)
  let some (key, rule) := known | throw (.unknownRule name.display)
  let depth ← (maxDepth.orSetting generator.analysis.maxDepth).limit ">="
  let isTooDeep := (generator.depthBound 0 depth).value ≤ 0
  let cap ← generator.capFor rule isTooDeep (maxOutcomes.orSetting generator.analysis.maxOutcomes)
  Distribution.ofRuleShown (generator.walkSetting depth cap) generator.analysis.mergeOutcomes
    name.display key

/-- Advice on a failure, or on whatever else is given for one. -/
def advise (error text ruleName : Datum) : Except Failure String := do
  let report : Report := match error with
    | .failure cause _ => { message := cause.message, cause := some cause }
    | other => { message := other.display, cause := none }
  let missing ←
    if Topic.of report = .missingRule && text.truth then
      generator.store.missingNames <$> text.searched
    else pure []
  let key ← match ruleName.given? with
    | some name => name.name?
    | none => pure none
  return Advice.text generator.store report {
    missing
    text := if text matches .nothing then none else some text.display
    ruleName := ruleName.given?.map (·.display)
    ruleKind := key.bind generator.store.kind? }

/-- Removes what stands under a name, and says if anything did. Where nothing stands at all, the
name is not looked at. -/
def remove (isEmpty : Generator → Bool) (has : Generator → String → Bool)
    (erase : Generator → String → Generator) (name : Datum) : Action Bool := do
  let generator ← get
  if isEmpty generator then return false
  match ← check name.name? with
  | none => return false
  | some key =>
    set (erase generator key)
    return has generator key

def removeRule (kind : RuleKind) : Datum → Action Bool :=
  remove (fun generator => (generator.store.table kind).isEmpty)
    (fun generator name => generator.store.has name kind)
    fun generator name => generator.eraseRule name kind

/-- Removes the rules of all kinds. -/
def removeRules : Datum → Action Bool :=
  remove (·.store.size = 0) (·.store.hasName ·)
    fun generator name => generator.withStore (generator.store.eraseName name)

def removeModifier : Datum → Action Bool :=
  remove (·.pipeline.size = 0) (·.pipeline.has ·)
    fun generator name => { generator with pipeline := generator.pipeline.erase name }

/-- A raw value for a name. -/
def resolve (name : Datum) (scope : Scope) : Action (Option String) := do
  match ← check name.name? with
  | none => return none
  | some key => fun generator =>
    let (result, store, source) :=
      generator.store.drawShown name.display key scope generator.source
    (result, (generator.withStore store).withSource source)

/-- Expands a text without running the modifiers. The context is forgotten before the text is looked
at. -/
def expand (text : Datum) (keepContext : Bool) : Action String := do
  if !keepContext then modify forgetContext
  let text ← check text.searched
  fun generator => generator.expandText keepContext text

/-- Runs the modifiers over an argument, which may be anything. -/
def modified (text : Datum) (background : Background) : Except Failure Value :=
  generator.pipeline.apply background text.sealed

/-- The options of a tolerant parse, or nothing to leave them to the settings. -/
def toleranceOf (options : Datum) : Except Failure (Option Tolerance) :=
  match options.given? with
  | none => .ok none
  | some (.options options) => .ok (some options)
  | some other => .error (.noAttribute other.found "validate_first")

/-- A tolerant parse with unchecked options, which are looked at after the text. -/
def parseWith (text options : Datum) : Action TolerantResult := do
  let _ ← check (checkText text)
  parseTolerantly text (← check (toleranceOf options))

end Generator

end TextGrammar
