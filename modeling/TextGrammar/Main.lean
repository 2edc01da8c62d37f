import Std.Time.Format
import TextGrammar.Command.Outcome

/-! The command line: reads the files that the arguments name, prints, and writes files. -/
namespace TextGrammar.Command

/-- What stands at a path, and its text if it is a file that can be read. -/
def lookAt (path : String) : IO (PathKind × String) := do
  try return (.file, fromPlain (← IO.FS.readFile (toPlain path)))
  catch
    | .noFileOrDirectory .. => return (.missing, "")
    | _ => return (.folder, "")

/-- The paths whose kinds decide what a request does. -/
def pathsOf (given : List Given) : List String :=
  (Request.text? given .grammar).toList ++ match Request.text? given .output with
    | none => []
    | some output =>
      let folder := Path.ofText output
      let name := (Request.text? given .fileName).getD Request.defaultFileName
      output :: (folder.steps ++ (folder.append (.ofText (name ++ "_0.txt"))).steps).map (·.text)

def printLines (stream : IO.FS.Stream) (lines : List String) : IO Unit := do
  if ← stream.isTty then
    for line in lines do stream.putStrLn (toPlain line)
  else stream.putStr (toPlain (printed lines))

def makeFiles (outcome : Outcome) : IO Unit := do
  for folder in outcome.made do IO.FS.createDirAll (toPlain folder.text)
  for (path, text) in outcome.files do IO.FS.writeFile (toPlain path.text) (toPlain text)

/-- The first 26 characters of a point in time, which end in its microseconds. -/
def timestamp : IO String := do
  let now ← Std.Time.PlainDateTime.now
  return String.ofList ((toString now).toList.take 26)

def complain (message : String) : IO Unit := do (← IO.getStderr).putStrLn (toPlain message)

def answer (request : Request) (surroundings : Surroundings) : IO UInt32 := do
  let outcome := carryOut surroundings request
  for notice in outcome.log do complain notice
  makeFiles outcome
  printLines (← IO.getStdout) outcome.output
  printLines (← IO.getStderr) outcome.errors
  match outcome.passedOn with
  | some failure => complain failure.message
  | none => pure ()
  return outcome.exitCode

def start (arguments : List String) : IO UInt32 := do
  let paths := (readArguments arguments).toOption.map pathsOf
  let found ← (paths.getD []).mapM fun path => do return (path, ← lookAt path)
  let kindOf (path : String) : PathKind := ((found.lookup path).map (·.1)).getD .missing
  match Order.ofArguments kindOf arguments with
  | .error (.usage fault) =>
    complain fault.message
    return 2
  | .error (.failure failure) =>
    complain failure.message
    return 1
  | .ok .help =>
    (← IO.getStdout).putStrLn usage
    return 0
  | .ok (.carryOut request) =>
    let grammarText := ((found.lookup request.grammar).map (·.2)).getD ""
    let ambient ← IO.rand 0 (stateCount - 1)
    answer request {
      grammarText, kindOf, ambient, stackRoom := Generator.startingRoom
      forms := English.baseEnglish, createdAt := ← timestamp }

end TextGrammar.Command

def main (arguments : List String) : IO UInt32 :=
  TextGrammar.Command.start (arguments.map TextGrammar.fromPlain)
