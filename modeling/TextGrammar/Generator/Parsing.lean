import TextGrammar.Generator

/-! Generating texts: once, tolerantly with retries, in batches and in variations. -/
namespace TextGrammar

/-- What a tolerant parse came to: a text, nothing if a modifier left nothing, or a message. -/
structure TolerantResult where
  result : Except String (Option String)
  attempts : Int
  validation : Option Validation

namespace Generator

/-- Expands a text as far as the depth limit and the stack allow. -/
def expandText (keepContext : Bool) (text : String) (generator : Generator) :
    Except Failure String × Generator :=
  let (result, engine) :=
    generator.engine.expand generator.stackRoom generator.maxDepth keepContext text
  (result, { generator with engine })

/-- A text to parse, and what modifiers are shown as the text before its expansion. -/
structure Prompt where
  text : String
  shown : Value := .text text

/-- Expands a text and runs the modifiers over the result. -/
def parseText (keepContext : Bool) (prompt : Prompt) (generator : Generator) :
    Except Failure Value × Generator :=
  let (expanded, generator) := generator.expandText keepContext prompt.text
  (expanded.bind fun text => generator.pipeline.apply { input := prompt.shown } (.text text),
    generator)

def checkText (text : Datum) : Except Failure Prompt :=
  match text.text? with
  | some value => .ok { text := value, shown := text.sealed }
  | none => .error (.kind .notAText)

def parse (text : Datum) (keepContext : Bool) : Action Value := do
  let prompt ← check (checkText text)
  fun generator => generator.parseText keepContext prompt

/-- A result that is kept has to be a text. -/
def resultText (result : Value) : Except Failure String :=
  match result.text? with
  | some text => .ok text
  | none => .error (.unfit "result" "string_type")

/-- A parse whose time is reported with its result. The time is left to the outer layer. -/
def parseReported (text : Datum) (keepContext : Bool) : Action String := do
  check (resultText (← parse text keepContext))

/-- The result of a tolerant parse may also be nothing at all. -/
def tolerantText : Value → Except Failure (Option String)
  | .nothing => .ok none
  | result => some <$> resultText result

/-- The depth limit of the next attempt: a part of the present one, but not below the minimum. It
has to be a number that can be written out. -/
def reducedDepth (retry : RetrySettings) (depth : Int) : Except Failure Int := do
  let reduced ← retry.depthReduction.timesToInteger depth
  let least ← retry.minDepth.limit ">"
  if least.amount.lt (.whole reduced) then
    (Amount.checkWritable reduced).mapError .number
    checkDepth (.number (.whole reduced) : Value)
  else checkDepth retry.minDepth

/-- The attempts that are left. One that nests too deep makes the next one shallower, and only
failures of the engine itself are tried again. -/
def attempts (options : Tolerance) (prompt : Prompt) :
    Nat → Int → Failure → Generator → Except Failure TolerantResult × Generator
  | 0, _, last, generator =>
    (.ok { result := .error last.message, attempts := options.maxAttempts, validation := none },
      generator)
  | left + 1, number, _, generator =>
    match generator.parseText options.preserveContext prompt with
    | (.ok result, generator) =>
      (do return { result := .ok (← tolerantText result), attempts := number, validation := none },
        generator)
    | (.error (.tooDeep limit), generator) =>
      match reducedDepth generator.retry generator.maxDepth with
      | .error failure => (.error failure, generator)
      | .ok maxDepth =>
        attempts options prompt left (number + 1) (.tooDeep limit) { generator with maxDepth }
    | (.error failure, generator) =>
      if failure.isGrammarFailure then attempts options prompt left (number + 1) failure generator
      else (.error failure, generator)

/-- A number of attempts; whatever stands for an integer will do. -/
def attemptCount (count : Value) : Except Failure Int :=
  match count.integer?, count with
  | some n, _ => .ok n
  | none, .number (.real x) =>
    if !x.isFinite then .error (.unfit "max_attempts" "finite_number")
    else if !x.isIntegral then .error (.unfit "max_attempts" "int_from_float")
    else x.truncate?.mapError .number
  | none, .text text =>
    (readInteger text).mapError fun _ => .unfit "max_attempts" "int_parsing"
  | none, _ => .error (.unfit "max_attempts" "int_type")

/-- The settings allow a number of attempts that options do not. -/
def checkOptions (options : Tolerance) : Except Failure Tolerance :=
  if options.maxAttempts < 1 then .error (.unfit "max_attempts" "greater_than_equal")
  else .ok options

/-- The failed validation that keeps a text from being parsed. -/
def refusal (validation : Validation) : TolerantResult where
  result := .error (s!"Validation failed: {validation.missing.length} missing rules, " ++
    s!"{validation.circular.length} circular references, {validation.empty.length} empty rules")
  attempts := 0
  validation := some validation

def givingUp (result : TolerantResult) (generator : Generator) : Generator :=
  match result.result with
  | .ok _ => generator
  | .error message =>
    generator.notice s!"safe_parse gave up after {result.attempts} attempts: {message}"

/-- Answers failures of the engine instead of passing them on. The depth limit is put back at the
end, however the attempts end. -/
def parseTolerantly (text : Datum) (options : Option Tolerance) : Action TolerantResult := do
  let prompt ← check (checkText text)
  let generator ← get
  let options ← check (match options with
    | some options => .ok options
    | none => do checkOptions { maxAttempts := ← attemptCount generator.retry.maxAttempts })
  let validation := generator.store.validate
  if options.validateFirst && !validation.isValid then return refusal validation
  let (result, after) := generator.attempts options prompt options.maxAttempts.toNat 1 (.grammar "")
  let restored := { after with maxDepth := generator.maxDepth }
  match result with
  | .error failure =>
    set restored
    throw failure
  | .ok result =>
    set (restored.givingUp result)
    return result

/-- The first text starts from an empty context; the others keep it if so asked. -/
def parseEach (keepContext : Bool) : Bool → List Datum → Action (List Value)
  | _, [] => return []
  | isFirst, text :: rest => do
    let result ← parse text (keepContext && !isFirst)
    return result :: (← parseEach keepContext false rest)

def parseAll (texts : Datum) (keepContext : Bool) : Action (List Value) := do
  parseEach keepContext true (← check texts.items)

/-- The seed of a variation: so much above the first one. -/
def variationSeed (seed : Datum) (offset : Nat) : Except Failure Int :=
  match seed with
  | .number (.real _) => .error (.kind .seedNotAnInteger)
  | seed =>
    match seed.integer? with
    | some n => .ok (n + offset)
    | none => .error (.kind (.notAddable seed.found "int"))

/-- So many variations from an offset on. -/
def variationsFrom (prompt : Prompt) (seed : Datum) : Nat → Nat → Action (List Value)
  | _, 0 => return []
  | offset, left + 1 => do
    match seed with
    | .nothing => pure ()
    | seed =>
      let seed ← check (variationSeed seed offset)
      modify fun generator => generator.withSource (generator.source.seedWith seed)
    let result ← fun generator => generator.parseText false prompt
    return result :: (← variationsFrom prompt seed (offset + 1) left)

/-- Sets a source to a seed that was stored before, or to none. -/
def restoreSeed (seed : Option (Fin stateCount)) (generator : Generator) : Generator :=
  match seed with
  | some seed => generator.withSource (generator.source.seedWith seed.val)
  | none => generator.unseed

/-- Each variation starts from an empty context and, if a seed is given, from a seed of its own. The
source gets its own seed back at the end, however the variations end. -/
def variations (text count seed : Datum) : Action (List Value) := do
  let prompt ← check (checkText text)
  let some count := count.plainInteger? | throw (.value .countNotPositive)
  if count < 1 then throw (.value .countNotPositive)
  let generator ← get
  let (result, after) := variationsFrom prompt seed 0 count.toNat generator
  set (after.restoreSeed generator.source.seed)
  check result

end Generator

end TextGrammar
