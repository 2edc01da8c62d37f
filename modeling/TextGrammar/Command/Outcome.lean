import TextGrammar.Command.Request
import TextGrammar.Generator.Questions
import TextGrammar.Json.Writing
import TextGrammar.Text.Terminal

/-! What the command prints and writes. -/
namespace TextGrammar.Command

/-- A failure that the command does not report itself ends it as well, and is passed on. -/
structure Outcome where
  output : List String := []
  errors : List String := []
  isFailure : Bool := false
  passedOn : Option Failure := none
  log : List String := []
  /-- The folders that were made. -/
  made : List Path := []
  files : List (Path × String) := []

/-- What the command finds around it. -/
structure Surroundings where
  grammarText : String
  kindOf : String → PathKind
  ambient : Nat
  stackRoom : Nat
  forms : English.BaseForms
  createdAt : String

/-- The generator that the command starts with. -/
def Surroundings.generator (surroundings : Surroundings) : Generator :=
  .default surroundings.ambient surroundings.stackRoom

namespace Outcome

def exitCode (outcome : Outcome) : UInt32 :=
  if outcome.isFailure || outcome.passedOn.isSome then 1 else 0

/-- A failure of the file or of the engine is reported, any other one is passed on. -/
def ofFailure (failure : Failure) : Outcome :=
  match failure with
  | .file _ => { errors := ["Error: " ++ failure.message], isFailure := true }
  | _ =>
    if failure.isGrammarFailure then
      { errors := ["Error: " ++ failure.message], isFailure := true }
    else { passedOn := some failure }

def ofResult : Except Failure Outcome → Outcome
  | .ok outcome => outcome
  | .error failure => ofFailure failure

/-- The lines that can be printed before one that cannot, and what is wrong with that one as it is
printed, with its line feed. -/
def printable : List String → List String × Option EncodeFault
  | [] => ([], none)
  | line :: rest =>
    match encodeFault? ((withoutEscapes line).toList ++ ['\n']) with
    | some fault => ([], some fault)
    | none =>
      let (lines, fault) := printable rest
      (line :: lines, fault)

/-- A line that cannot be printed ends the command. What is wrong is told in any case. -/
def encoded (outcome : Outcome) : Outcome :=
  match printable outcome.output with
  | (_, none) => outcome
  | (lines, some fault) =>
    { outcome with output := lines, errors := [], passedOn := some (.unencodable fault) }

end Outcome

def countText : Count → String
  | .finite n => toString n
  | .infinite => "infinite"

def complexityLine (rule : RuleComplexity) : String :=
  s!"{rule.name} ({rule.verdict.text}): {countText rule.count}"

def warningLines (warnings : List String) : List String := warnings.map ("Warning: " ++ ·)

def validationOutcome (generator : Generator) : Outcome :=
  let validation := generator.store.validate
  { output := [validation.summary], isFailure := !validation.isValid }

def ruleComplexityOutcome (generator : Generator) (rule : String) : Except Failure Outcome := do
  let found ← generator.complexity (.text rule) (.set []) .nothing
  return {
    output := [complexityLine found]
    errors := warningLines (found.warnings.map (·.message)) }

def totalComplexityOutcome (generator : Generator) : Except Failure Outcome := do
  let found ← generator.totalComplexity .nothing
  return {
    output := found.rules.map complexityLine ++ [s!"Total: {countText found.total}"]
    errors := warningLines found.warnings }

def probabilityLine (outcome : String × Double) : String :=
  outcome.2.textFixed 4 ++ "  " ++ outcome.1

def distributionOutcome (generator : Generator) (rule : String) : Except Failure Outcome := do
  let found ← generator.outcomes (.text rule) .nothing .nothing
  let entropy := found.entropy.textFixed 4
  return {
    output := s!"{found.outcomes.length} outcomes, entropy {entropy} bits"
      :: found.likeliest.map probabilityLine
    errors := warningLines found.messages }

/-- The rules of a grammar without modifiers; only failures of the file are reported here. -/
def analysed (surroundings : Surroundings) (analyse : Generator → Outcome) : Outcome :=
  match readGrammar surroundings.grammarText with
  | .error failure => .ofFailure failure
  | .ok grammar =>
    match Generator.load surroundings.forms (.ofGrammar grammar) false .nothing
      surroundings.generator with
    | (.error failure, _) => { passedOn := some failure }
    | (.ok (), generator) => analyse generator

def sample (texts : List String) : List String :=
  match texts with
  | [] => []
  | text :: _ => ["\n--- Sample Output ---", text, "--- End Sample ---"]

/-- What the texts of a folder were made from. -/
def metadata (request : Request) (count : Nat) (createdAt : String) : String :=
  Json.writtenObject [
    ("grammar_path", Json.writtenText (Path.ofText request.grammar).text),
    ("origin", Json.writtenText request.origin),
    ("count", toString count),
    ("seed", match request.seed with
      | some seed => toString seed
      | none => "null"),
    ("english_modifiers", Json.writtenBool request.english),
    ("created_at", Json.writtenText createdAt),
    ("prefix", Json.writtenText request.fileName)]

/-- The text files in order, and the metadata after them. -/
def textFiles (request : Request) (folder : Path) (texts : List String) (createdAt : String) :
    List (Path × String) :=
  let file (ending : String) : Path := folder.append (.ofText (request.fileName ++ ending))
  (texts.zipIdx.map fun (text, i) => (file s!"_{i}.txt", text))
    ++ [(file "_metadata.json", metadata request texts.length createdAt)]

/-- The files that are written up to the first fault. One whose text cannot be encoded stays
empty. -/
def writeFiles (kindOf : Path → PathKind) :
    List (Path × String) → List (Path × String) × Option Failure
  | [] => ([], none)
  | (path, text) :: rest =>
    match Failure.ofFileName? path.text, path.fileFault? kindOf, encodeFault? text.toList with
    | some failure, _, _ => ([], some failure)
    | none, some fault, _ => ([], some (.path fault))
    | none, none, some fault => ([(path, "")], some (.unencodable fault))
    | none, none, none =>
      let (files, failure) := writeFiles kindOf rest
      ((path, text) :: files, failure)

/-- The folder is made if need be, but no folder inside it for a file name that asks for one. -/
def writtenOutcome (surroundings : Surroundings) (request : Request) (output : String)
    (texts : List String) : Outcome :=
  let folder := Path.ofText output
  match folder.makeFolder (surroundings.kindOf ·.text) with
  | (made, some fault) => { made, passedOn := some (.path fault) }
  | (made, none) =>
    let kindAfter (path : Path) : PathKind :=
      if made.any path.isSame then .folder else surroundings.kindOf path.text
    match writeFiles kindAfter (textFiles request folder texts surroundings.createdAt) with
    | (files, some failure) => { made, files, passedOn := some failure }
    | (files, none) =>
      { output := s!"Generated {texts.length} texts in: {folder.text}" :: sample texts
        made
        files }

def generated (surroundings : Surroundings) (request : Request) : Outcome :=
  let integer (n : Int) : Datum := .number (.whole n)
  let optional (n : Option Int) : Datum := (n.map integer).getD .nothing
  let run : Generator.Run := {
    count := integer request.count
    origin := .text request.origin
    seed := optional request.seed
    english := request.english
    maxDepth := optional request.maxDepth }
  let (result, generator) :=
    Generator.runFile surroundings.forms (.text surroundings.grammarText) run
      surroundings.generator
  let outcome := Outcome.ofResult (result.map fun texts =>
    let texts := texts.map Data.display
    match request.output with
    | none => { output := texts }
    | some output => writtenOutcome surroundings request output texts)
  { outcome with log := generator.log }

def carriedOut (surroundings : Surroundings) (request : Request) : Outcome :=
  let text := String.ofList (plainBreaks surroundings.grammarText.toList)
  let surroundings := { surroundings with grammarText := text }
  match request.task with
  | .validate => analysed surroundings validationOutcome
  | .complexity (some rule) =>
    analysed surroundings fun generator => .ofResult (ruleComplexityOutcome generator rule)
  | .complexity none =>
    analysed surroundings fun generator => .ofResult (totalComplexityOutcome generator)
  | .probabilities rule =>
    analysed surroundings fun generator => .ofResult (distributionOutcome generator rule)
  | .generate => generated surroundings request

def carryOut (surroundings : Surroundings) (request : Request) : Outcome :=
  (carriedOut surroundings request).encoded

/-- Printed lines, each with its line feed, for readers that are no terminals. -/
def printed (lines : List String) : String :=
  String.join (lines.map fun line => withEscapedHalves (withoutEscapes line) ++ "\n")

def usage : String :=
  "Usage: -g FILE [-n COUNT] [--origin RULE] [--seed N] [--max-depth N] [--no-english]\n" ++
  "  [--validate | --complexity [RULE] | --probabilities RULE] [-o FOLDER] [--prefix NAME] [-v]"

end TextGrammar.Command
