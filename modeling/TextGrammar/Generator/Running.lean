import TextGrammar.Generator.Parsing
import TextGrammar.GrammarFile

/-! From a grammar to texts: static rules loaded into a generator, one text, many from a file. -/
namespace TextGrammar

/-- A grammar that was read, as the argument of a registration. -/
def Datum.ofGrammar (grammar : Table (List String)) : Datum :=
  .mapping (grammar.entries.map fun (name, values) => (.text name, .list (values.map .text)))

namespace Generator

variable (forms : English.BaseForms)

/-- The nested texts that the stack has room for when the program has just been started. -/
def startingRoom : Nat := 328

/-- Adds static rules, the modifiers for English if so asked, and a seed if there is one. -/
def load (rules : Datum) (english : Bool) (seed : Datum) : Action Unit := do
  registerAll rules
  if english then modify (useEnglish forms false)
  match seed with
  | .nothing => return
  | seed => seedWith seed

/-- The name that a text starts from if no other is given. -/
def defaultOrigin : String := "origin"

/-- The token of an origin, which may be anything that can be written down. -/
def originToken (origin : Datum) : Datum := .text (Segment.tokenText origin.display)

def generate (rules origin : Datum) : Action Value := do
  load forms rules true .nothing
  parse (originToken origin) false

/-- Whether no text is asked for. Only what compares with a number can be a count. -/
def isNoCount (count : Datum) : Except Failure Bool :=
  match count.amount? with
  | some amount => .ok (amount.lt 1)
  | none => .error (.kind (.notOrdered "<" count.found "int"))

/-- What to make of a grammar file. -/
structure Run where
  count : Datum := .number (.whole 500)
  origin : Datum := .text defaultOrigin
  seed : Datum := .nothing
  english : Bool := true
  maxDepth : Datum := .nothing

def grammarOf : Datum → Except Failure (Table (List String))
  | .bytes bytes => readGrammarBytes bytes
  | argument =>
    match argument.text? with
    | some text => readGrammar text
    | none => .error (.kind (.notReadable argument.found))

/-- An origin that the grammar does not define leaves a notice and is generated from all the
same. -/
def noticeOrigin (grammar : Table (List String)) (origin : Datum) : Action Unit := do
  let name ← check origin.name?
  if !(name.map grammar.has).getD false then
    modify (notice s!"Origin rule '{origin.display}' is not defined in the grammar")

/-- Makes a generator ready for a grammar file, which is read as a whole before any rule of it is
looked at. -/
def prepare (text : Datum) (run : Run) : Action Unit := do
  let grammar ← check (grammarOf text)
  load forms (.ofGrammar grammar) run.english .nothing
  match run.maxDepth with
  | .nothing => pure ()
  | depth => limitDepth depth
  noticeOrigin grammar run.origin

/-- Variations of one text from a grammar file. -/
def runFile (text : Datum) (run : Run) : Action (List Value) := do
  prepare forms text run
  if ← check (isNoCount run.count) then return []
  variations (originToken run.origin) run.count run.seed

end Generator

end TextGrammar
