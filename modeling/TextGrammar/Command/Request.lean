import TextGrammar.Command.Arguments
import TextGrammar.Command.Path
import TextGrammar.Generator.Running

/-! What the command is asked to do. -/
namespace TextGrammar.Command

/-- Of several analyses asked for at once, the first one here is carried out. -/
inductive Task where
  | validate
  | complexity (rule : Option String)
  | probabilities (rule : String)
  | generate
  deriving DecidableEq

/-- Why a request is not carried out. -/
inductive Refusal where
  | usage (fault : UsageFault)
  | failure (failure : Failure)
  deriving DecidableEq

structure Request where
  grammar : String
  task : Task
  count : Int
  origin : String
  seed : Option Int
  maxDepth : Option Int
  english : Bool
  output : Option String
  fileName : String
  deriving DecidableEq

/-- The value that an option was given last; nothing if the option was not given at all. -/
def lastValue? (name : Switch) (given : List Given) : Option (Option String) :=
  (given.filterMap fun
    | .switch other value => if other = name then some value else none
    | .extra _ => none).getLast?

namespace Request

variable (given : List Given)

def isGiven (name : Switch) : Bool := (lastValue? name given).isSome

def text? (name : Switch) : Option String := (lastValue? name given).join

def integer? (name : Switch) : Except UsageFault (Option Int) :=
  match text? given name with
  | none => .ok none
  | some text =>
    match readInteger text with
    | .ok n => .ok (some n)
    | .error _ => .error (.notAnInteger text)

def positive? (name : Switch) : Except UsageFault (Option Int) := do
  match ← integer? given name with
  | some n => if n < 1 then throw (.notPositive (toString n)) else return some n
  | none => return none

/-- An analysis of complexity that names no rule, or an empty one, is about all of them. -/
def taskOf : Task :=
  if isGiven given .validate then .validate
  else
    match lastValue? .complexity given, text? given .probabilities with
    | some rule, _ => .complexity (rule.filter (· ≠ ""))
    | none, some rule => .probabilities rule
    | none, none => .generate

def defaultCount : Int := 10

def defaultFileName : String := "text"

/-- The grammar has to be a file or to be read like one, and the output may not be a file. -/
def checkPath (name : Switch) (kind : PathKind) (path : String) : Except UsageFault Unit :=
  match name, kind with
  | .grammar, .missing | .grammar, .folder => .error (.noGrammarFile path)
  | .output, .file => .error (.outputNotAFolder path)
  | _, _ => .ok ()

/-- The value of an option. Not every text can be looked up as a path. -/
def checkOption (kindOf : String → PathKind) (name : Switch) : Except Refusal Unit :=
  match name with
  | .grammar | .output =>
    match text? given name with
    | none => .ok ()
    | some path =>
      match Failure.ofFileName? path with
      | some failure => .error (.failure failure)
      | none => (checkPath name (kindOf path) path).mapError .usage
  | .count | .maxDepth => (positive? given name).mapError .usage |>.map fun _ => ()
  | .seed => (integer? given name).mapError .usage |>.map fun _ => ()
  | _ => .ok ()

/-- The options that were given, each once. -/
def mentioned : List Switch :=
  (given.filterMap fun
    | .switch name _ => some name
    | .extra _ => none).eraseDups

def ofGiven : Except UsageFault Request := do
  let some grammar := text? given .grammar | throw .grammarMissing
  match given.findSome? fun | .extra text => some text | _ => none with
  | some text => throw (.extraArgument text)
  | none =>
    return {
      grammar
      seed := ← integer? given .seed
      maxDepth := ← positive? given .maxDepth
      task := taskOf given
      count := (← positive? given .count).getD defaultCount
      origin := (text? given .origin).getD Generator.defaultOrigin
      english := !isGiven given .noEnglish
      output := text? given .output
      fileName := (text? given .fileName).getD defaultFileName }

end Request

/-- A request for help, or one that can be carried out. Help comes before all that is wrong with the
values of the options, and these are looked at in the order in which the options were given. -/
inductive Order where
  | help
  | carryOut (request : Request)

def Order.ofArguments (kindOf : String → PathKind) (arguments : List String) :
    Except Refusal Order := do
  let given ← (readArguments arguments).mapError .usage
  if Request.isGiven given .help then return .help
  (Request.mentioned given).forM (Request.checkOption given kindOf)
  return .carryOut (← (Request.ofGiven given).mapError .usage)

end TextGrammar.Command
