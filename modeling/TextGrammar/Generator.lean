import TextGrammar.Advice
import TextGrammar.English
import TextGrammar.Settings

/-! The generator: rules, random source, context, modifiers and settings, and their changes. -/
namespace TextGrammar

structure Generator where
  engine : Engine
  maxDepth : Int
  /-- How many nested texts the stack has room for. -/
  stackRoom : Nat
  pipeline : Pipeline
  analysis : AnalysisSettings
  retry : RetrySettings
  /-- The notices given so far, in order. -/
  log : List String

namespace Generator

/-- A result or a failure, and the generator afterwards in either case. -/
abbrev Action := ExceptT Failure (StateM Generator)

def checkDepth {φ μ : Type} (depth : Data φ μ) : Except Failure Int :=
  match depth.plainInteger? with
  | some n => if n < 1 then .error (.value .depthNotPositive) else .ok n
  | none => .error (.value .depthNotPositive)

def checkSeed (seed : Datum) : Except Failure Int :=
  match seed.plainInteger? with
  | some n => .ok n
  | none => .error (.kind .seedNotAnInteger)

/-- No seed leaves the source unseeded. The seed is looked at before the depth. -/
def create (maxDepth seed : Datum) (analysis : AnalysisSettings) (retry : RetrySettings)
    (ambient stackRoom : Nat) : Except Failure Generator := do
  let source := Source.unseeded ambient
  let source ← match seed with
    | .nothing => pure source
    | seed => source.seedWith <$> checkSeed seed
  let maxDepth ← checkDepth maxDepth
  return {
    engine := { store := ∅, source, context := ∅ }
    maxDepth, stackRoom, pipeline := ∅, analysis, retry, log := [] }

/-- A generator with the default settings, without a seed. -/
def default (ambient stackRoom : Nat) : Generator :=
  let settings : Settings := {}
  { engine := { store := ∅, source := .unseeded ambient, context := ∅ }
    maxDepth := settings.engine.maxDepth
    stackRoom
    pipeline := ∅
    analysis := settings.analysis
    retry := settings.retry
    log := [] }

def notice (message : String) (generator : Generator) : Generator :=
  { generator with log := generator.log ++ [message] }

def withStore (store : Store) (generator : Generator) : Generator :=
  { generator with engine := { generator.engine with store } }

def withSource (source : Source) (generator : Generator) : Generator :=
  { generator with engine := { generator.engine with source } }

def store (generator : Generator) : Store := generator.engine.store
def source (generator : Generator) : Source := generator.engine.source
def context (generator : Generator) : Context := generator.engine.context

/-- Fails with the failure of a computation, or goes on with its result. -/
def check {α : Type} (result : Except Failure α) : Action α := ExceptT.mk (pure result)

def register (name : Datum) (rule : Rule) : Action Unit := do
  let generator ← get
  let (store, shadowing) ← check (generator.store.register name rule)
  let generator := generator.withStore store
  set (match shadowing with
    | some shadowing => generator.notice shadowing.message
    | none => generator)

def registerStatic (name values : Datum) : Action Unit := do
  register name (.static (← check (Rule.Static.define values)))

def registerFunction (name generator : Datum) : Action Unit := do
  register name (.function (← check (Rule.Function.define generator)))

def registerWeighted (name values weights : Datum) : Action Unit := do
  register name (.weighted (← check (Rule.Weighted.define values weights)))

def registerConditional (name branches : Datum) : Action Unit := do
  let items ← check branches.items
  register name (.conditional (← check (Rule.Conditional.define (.list items))))

def registerSequential (name values cycle : Datum) : Action Unit := do
  register name (.sequential (← check (Rule.Sequential.define values cycle)))

def registerRange (name low high step kind : Datum) : Action Unit := do
  register name (.range (← check (Rule.Range.define low high step kind)))

def registerTemplate (name template choices : Datum) : Action Unit := do
  let members ← check choices.toMembers
  register name (.template (← check (Rule.Template.define template (.mapping members))))

/-- Adds static rules one by one; those before a refused one stay. -/
def registerMembers : List (Datum × Datum) → Action Unit
  | [] => return
  | (name, values) :: rest => do
    registerStatic name values
    registerMembers rest

def registerAll (rules : Datum) : Action Unit :=
  match rules with
  | .mapping members => registerMembers members
  | other => throw (.noAttribute other.found "items")

def eraseRule (generator : Generator) (name : String) (kind : RuleKind) : Generator :=
  generator.withStore (generator.store.erase name kind)

def forgetContext (generator : Generator) : Generator :=
  { generator with engine := { generator.engine with context := ∅ } }

/-- Modifiers stay. -/
def clear (generator : Generator) : Generator := (generator.withStore ∅).forgetContext

def clearEverything (generator : Generator) : Generator := { generator.clear with pipeline := ∅ }

def installModifier : Datum → Action Unit
  | .modifier modifier => modify fun generator =>
    { generator with pipeline := generator.pipeline.add modifier }
  | _ => throw (.modifier .notAModifier)

/-- Adds modifiers one by one; those before a refused one stay. -/
def installEach : List Datum → Action Unit
  | [] => return
  | modifier :: rest => do
    installModifier modifier
    installEach rest

def installModifiers (modifiers : Datum) : Action Unit := do
  installEach (← check modifiers.items)

def useEnglish (forms : English.BaseForms) (ordinals : Bool) (generator : Generator) : Generator :=
  let modifiers := if ordinals then English.allModifiers forms else English.defaultModifiers forms
  { generator with pipeline := generator.pipeline.addAll modifiers }

def limitDepth (depth : Datum) : Action Unit := do
  let maxDepth ← check (checkDepth depth)
  modify fun generator => { generator with maxDepth }

def seedWith (seed : Datum) : Action Unit := do
  let seed ← check (checkSeed seed)
  modify fun generator => generator.withSource (generator.source.seedWith seed)

def unseed (generator : Generator) : Generator := generator.withSource generator.source.unseed

end Generator

/-- A modifier from unchecked parts; no priority means zero. -/
def Modifier.define (name condition transform priority : Datum) : Except Failure Modifier := do
  let some name := name.text? | throw (.modifier .unnamed)
  if name.isEmpty then throw (.modifier .unnamed)
  let some condition := condition.condition? | throw (.modifier .noCondition)
  let some transform := transform.transform? | throw (.modifier .noTransform)
  match priority with
  | .nothing => return { name, condition, transform, priority := 0 }
  | .number priority => return { name, condition, transform, priority }
  | _ => throw (.modifier .priorityNotANumber)

end TextGrammar
