/-! The arguments of the command: which options were given, and with which values. -/
namespace TextGrammar.Command

inductive Switch where
  | grammar
  | count
  | origin
  | seed
  | maxDepth
  | noEnglish
  | validate
  | complexity
  | probabilities
  | output
  | fileName
  | verbose
  | help
  deriving DecidableEq

/-- What follows an option. -/
inductive Operand where
  | none
  | value
  | valueOrNone
  deriving DecidableEq

namespace Switch

def operand : Switch → Operand
  | noEnglish | validate | verbose | help => .none
  | complexity => .valueOrNone
  | _ => .value

def ofLong? (name : String) : Option Switch :=
  [("--grammar", grammar), ("--count", count), ("--origin", origin), ("--seed", seed),
    ("--max-depth", maxDepth), ("--no-english", noEnglish), ("--validate", validate),
    ("--complexity", complexity), ("--probabilities", probabilities), ("--output", output),
    ("--prefix", fileName), ("--verbose", verbose), ("--help", help)].lookup name

def ofShort? (letter : Char) : Option Switch :=
  [('g', grammar), ('n', count), ('o', output), ('v', verbose)].lookup letter

end Switch

/-- Why the command does not start. -/
inductive UsageFault where
  | unknownOption (text : String)
  | valueMissing
  | valueUnwanted
  | extraArgument (text : String)
  | notAnInteger (text : String)
  | notPositive (text : String)
  | grammarMissing
  | noGrammarFile (path : String)
  | outputNotAFolder (path : String)
  deriving DecidableEq

def UsageFault.message : UsageFault → String
  | unknownOption text => s!"No such option: {text}"
  | valueMissing => "An option lacks its value."
  | valueUnwanted => "An option takes no value."
  | extraArgument text => s!"Unexpected argument: {text}"
  | notAnInteger text => s!"Not an integer: {text}"
  | notPositive text => s!"Not at least one: {text}"
  | grammarMissing => "The option --grammar is required."
  | noGrammarFile path => s!"No such file: {path}"
  | outputNotAFolder path => s!"Not a directory: {path}"

/-- One thing that the arguments say. -/
inductive Given where
  | switch (name : Switch) (value : Option String)
  | extra (text : String)
  deriving DecidableEq

/-- What comes after an argument: one of any kind, the value of an option, or no more options. -/
inductive Next where
  | any
  | valueOf (name : Switch)
  | extras
  deriving DecidableEq

def looksLikeOption (text : List Char) : Bool := text.head? == some '-' && text.length > 1

/-- Letters behind one dash. The first that takes a value takes all letters after it, or else the
next argument. -/
def readLetters : List Char → Except UsageFault (List Given × Next)
  | [] => .ok ([], .any)
  | letter :: rest =>
    match Switch.ofShort? letter with
    | none => .error (.unknownOption (String.ofList ['-', letter]))
    | some name =>
      if name.operand = .none then do
        let (given, next) ← readLetters rest
        return (.switch name none :: given, next)
      else if rest.isEmpty then .ok ([], .valueOf name)
      else .ok ([.switch name (some (String.ofList rest))], .any)

/-- The value behind the first equals sign. -/
def attached? (argument : List Char) : Option (List Char) :=
  match argument.dropWhile (· ≠ '=') with
  | [] => none
  | _ :: value => some value

theorem length_of_attached?_eq_some {argument value : List Char}
    (h : attached? argument = some value) : value.length < argument.length := by
  have hl := (List.dropWhile_suffix (l := argument) (· ≠ '=')).length_le
  unfold attached? at h
  split at h
  · cases h
  · rename_i hd
    cases h
    rw [hd, List.length_cons] at hl
    omega

/-- One argument. A value that looks like an option is no value for an option that may stand alone;
it is read as an argument of its own. -/
def readArgument (argument : List Char) : Except UsageFault (List Given × Next) :=
  if argument = ['-', '-'] then .ok ([], .extras)
  else if !looksLikeOption argument then .ok ([.extra (String.ofList argument)], .any)
  else
    match Switch.ofLong? (String.ofList (argument.takeWhile (· ≠ '='))) with
    | none =>
      if argument.take 2 = ['-', '-'] then .error (.unknownOption (String.ofList argument))
      else readLetters (argument.drop 1)
    | some name =>
      match _h : attached? argument, name.operand with
      | none, .none => .ok ([.switch name none], .any)
      | none, _ => .ok ([], .valueOf name)
      | some _, .none => .error .valueUnwanted
      | some value, .value => .ok ([.switch name (some (String.ofList value))], .any)
      | some value, .valueOrNone =>
        if looksLikeOption value then do
          let (given, next) ← readArgument value
          return (.switch name none :: given, next)
        else .ok ([.switch name (some (String.ofList value))], .any)
  termination_by argument.length
  decreasing_by exact length_of_attached?_eq_some _h

/-- The arguments after one that was read. -/
def readAfter : Next → List String → Except UsageFault (List Given)
  | .any, [] | .extras, [] => .ok []
  | .extras, rest => .ok (rest.map .extra)
  | .valueOf name, [] =>
    if name.operand = .valueOrNone then .ok [.switch name none] else .error .valueMissing
  | .any, argument :: rest => do
    let (given, next) ← readArgument argument.toList
    return given ++ (← readAfter next rest)
  | .valueOf name, argument :: rest =>
    if name.operand = .valueOrNone && looksLikeOption argument.toList then do
      let (given, next) ← readArgument argument.toList
      return .switch name none :: given ++ (← readAfter next rest)
    else do return .switch name (some argument) :: (← readAfter .any rest)

def readArguments (arguments : List String) : Except UsageFault (List Given) :=
  readAfter .any arguments

end TextGrammar.Command
