import TextGrammar.Data
import TextGrammar.Table
import TextGrammar.Text.Case

/-! Settings, and their values among named texts. -/
namespace TextGrammar

structure EngineSettings where
  maxDepth : Int := 100
  seed : Option Int := none
  deriving DecidableEq

/-- Limits are kept as they were given, and looked at where they come to be compared. -/
structure AnalysisSettings where
  maxDepth : Value := 50
  maxOutcomes : Value := 1000
  /-- Outcomes of the same text count as one. -/
  mergeOutcomes : Bool := true
  /-- Ranges without a step have no finite number of outcomes. -/
  openRangesInfinite : Bool := false

/-- How a tolerant parse goes on after a text nested too deep. -/
structure RetrySettings where
  maxAttempts : Value := 3
  depthReduction : Value := .number (.real (.ofQuotient false 7 10))
  minDepth : Value := 10

structure Settings where
  engine : EngineSettings := {}
  analysis : AnalysisSettings := {}
  retry : RetrySettings := {}

namespace Settings

variable (given : Table String)

/-- The text of a variable, as the system hands it back. -/
def value? (name : String) : Option String :=
  (given.get? ("STORY_GRAMMAR_" ++ name)).map throughSystem

def integerOr (default : Int) (name : String) : Except Failure Int :=
  match value? given name with
  | none => .ok default
  | some text => integerOfText text

def numberOr (default : Value) (name : String) : Except Failure Value :=
  match value? given name with
  | none => .ok default
  | some text => (integerOfText text).map fun n => .number (.whole n)

/-- A blank seed is no seed. -/
def seed? (name : String) : Except Failure (Option Int) :=
  match value? given name with
  | none => .ok none
  | some text =>
    if (trimBlanks text.toList).isEmpty then .ok none else (integerOfText text).map some

def decimalOr (default : Value) (name : String) : Except Failure Value :=
  match value? given name with
  | none => .ok default
  | some text => (decimalOfText text).map fun x => .number (.real x)

/-- Whatever is not one of the words for yes means no. -/
def flagOr (default : Bool) (name : String) : Bool :=
  match value? given name with
  | none => default
  | some text => String.ofList (lowerText (trimBlanks text.toList)) ∈ ["1", "true", "yes", "on"]

/-- Not every name and not every text is taken for a variable. -/
def checkVariables : Except Failure Unit :=
  given.entries.forM fun (name, text) =>
    match Failure.ofVariable? name text with
    | some failure => .error failure
    | none => .ok ()

/-- Names that are not given leave the defaults; the first one that cannot be read is reported. -/
def ofVariables : Except Failure Settings := do
  checkVariables given
  let { engine, analysis, retry } : Settings := {}
  let engine : EngineSettings := {
    maxDepth := ← integerOr given engine.maxDepth "MAX_DEPTH"
    seed := ← seed? given "SEED" }
  let analysis : AnalysisSettings := {
    maxDepth := ← numberOr given analysis.maxDepth "ANALYSIS_MAX_DEPTH"
    maxOutcomes := ← numberOr given analysis.maxOutcomes "MAX_OUTCOMES"
    mergeOutcomes := flagOr given analysis.mergeOutcomes "MERGE_OUTCOMES"
    openRangesInfinite :=
      flagOr given analysis.openRangesInfinite "CONTINUOUS_RANGES_INFINITE" }
  let retry : RetrySettings := {
    maxAttempts := ← numberOr given retry.maxAttempts "SAFE_PARSE_ATTEMPTS"
    depthReduction := ← decimalOr given retry.depthReduction "SAFE_PARSE_DEPTH_REDUCTION"
    minDepth := ← numberOr given retry.minDepth "SAFE_PARSE_MIN_DEPTH" }
  return { engine, analysis, retry }

end Settings

end TextGrammar
