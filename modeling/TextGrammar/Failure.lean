import TextGrammar.Json
import TextGrammar.Number.Shortest
import TextGrammar.Text.Encoding
import TextGrammar.Text.Quoted

/-! Everything that can go wrong, by cause, and the one wording of each cause. -/
namespace TextGrammar

/-- The part of a rule that holds a list of values. -/
inductive ValuePart where
  | rule
  | sequence
  | fallback
  | branch
  | choice (name : String)
  deriving DecidableEq

def ValuePart.text : ValuePart → String
  | rule => "Rule values"
  | sequence => "Sequential values"
  | fallback => "Default values"
  | branch => "Condition \"then\""
  | choice name => s!"Template variable '{name}'"

/-- Why a rule was refused at registration. -/
inductive RuleFault where
  | unnamed
  | notAList (part : ValuePart)
  | noValues (part : ValuePart)
  | notAText (part : ValuePart) (found : String)
  | notAGenerator
  | branchesNotAList
  | noBranches
  | notABranch
  | mixedBranch
  | secondFallback
  | notAPredicate
  | incompleteBranch
  | boundsNotNumbers
  | boundsOutOfOrder
  | stepNotPositive
  | unknownRangeKind
  | emptyTemplate
  | choicesNotAMapping
  | openNameUndefined (name : String)
  | openNameWithoutValues (name : String)
  | stated (message : String)
  deriving DecidableEq

def RuleFault.message : RuleFault → String
  | unnamed => "Rule name must be a non-empty string"
  | notAList part => s!"{part.text} must be a list of strings"
  | noValues part => s!"{part.text} must be a non-empty list"
  | notAText part found => s!"{part.text} must contain only strings, got {found}"
  | notAGenerator => "Function rule generator must be callable"
  | branchesNotAList => "Conditional rule must have a list of conditions"
  | noBranches => "Conditions list cannot be empty"
  | notABranch => "Each condition must be a Condition or a mapping"
  | mixedBranch => "A condition has either \"if/then\" or \"default\", not both"
  | secondFallback => "Only one default condition is allowed"
  | notAPredicate => "Condition \"if\" must be callable"
  | incompleteBranch => "Each condition must have either \"if/then\" or \"default\""
  | boundsNotNumbers => "Min and max must be numbers"
  | boundsOutOfOrder => "Min must be less than max"
  | stepNotPositive => "Step must be a positive number"
  | unknownRangeKind => "Type must be \"integer\" or \"float\""
  | emptyTemplate => "Template must be a non-empty string"
  | choicesNotAMapping => "Template variables must be a mapping"
  | openNameUndefined name => s!"Template variable '{name}' not found in variables"
  | openNameWithoutValues name => s!"Template variable '{name}' must have at least one value"
  | stated message => message

/-- Why the weights of a rule were refused. -/
inductive WeightFault where
  | notAList
  | lengthsDiffer
  | notAWeight
  | total (sum : Double)
  | stated (message : String)
  deriving DecidableEq

def WeightFault.message : WeightFault → String
  | notAList => "Rule weights must be a list of numbers"
  | lengthsDiffer => "Values and weights must have the same length"
  | notAWeight => "All weights must be non-negative numbers"
  | total sum => s!"Weights must sum to 1.0, got {sum.text}"
  | stated message => message

/-- Why a modifier was refused. -/
inductive ModifierFault where
  | unnamed
  | noCondition
  | noTransform
  | priorityNotANumber
  | notAModifier
  | stated (message : String)
  deriving DecidableEq

def ModifierFault.message : ModifierFault → String
  | unnamed => "Modifier must have a valid name"
  | noCondition => "Modifier must have a condition function"
  | noTransform => "Modifier must have a transform function"
  | priorityNotANumber => "Modifier priority must be a number"
  | notAModifier => "Modifier must be a Modifier instance"
  | stated message => message

/-- What is wrong with a grammar file. -/
inductive FileFault where
  | malformed (fault : Json.Fault)
  | notAnObject
  | badRule (name : String)
  | stated (message : String)
  deriving DecidableEq

def FileFault.message : FileFault → String
  | malformed fault => s!"Invalid JSON grammar: {fault.message}"
  | notAnObject => "Grammar must be a JSON object mapping rule names to values"
  | badRule name => s!"Rule '{name}' must be a string or a list of strings"
  | stated message => message

/-- An argument that an operation cannot take for its kind. -/
inductive KindFault where
  | notAText
  | seedNotAnInteger
  | notIterable (found : String)
  | notSized (found : String)
  | notIndexable (found : String)
  | notHashable (found : String)
  | notSearchable (found : String)
  | notReadable (found : String)
  | notASequence (place : Nat)
  | notAnEnding
  | notANumeral (found : String)
  | notAContainer (found : String)
  | notAPlace
  | notACount (found : String)
  | notOrdered (relation left right : String)
  | notAddable (found added : String)
  | notCombinable (operation left right : String)
  | wrongArguments
  deriving DecidableEq

def KindFault.message : KindFault → String
  | notAText => "Text must be a string"
  | seedNotAnInteger => "Seed must be an integer"
  | notIterable found => s!"'{found}' object is not iterable"
  | notSized found => s!"object of type '{found}' has no len()"
  | notIndexable found => s!"'{found}' object is not subscriptable"
  | notHashable found => s!"unhashable type: '{found}'"
  | notSearchable found =>
    if found == "bytes" then "cannot use a string pattern on a bytes-like object"
    else s!"expected string or bytes-like object, got '{found}'"
  | notReadable found => s!"the JSON object must be str, bytes or bytearray, not {found}"
  | notASequence place =>
    s!"cannot convert dictionary update sequence element #{place} to a sequence"
  | notAnEnding => "endswith first arg must be bytes or a tuple of bytes, not str"
  | notANumeral found =>
    s!"int() argument must be a string, a bytes-like object or a real number, not '{found}'"
  | notAContainer found =>
    if found == "bytes" then "a bytes-like object is required, not 'str'"
    else s!"argument of type '{found}' is not iterable"
  | notAPlace => "slice indices must be integers or None or have an __index__ method"
  | notACount found => s!"'{found}' object cannot be interpreted as an integer"
  | notOrdered relation left right =>
    s!"'{relation}' not supported between instances of '{left}' and '{right}'"
  | notAddable found added =>
    let found := if found == "RuleType" then "str" else found
    if found == "bytes" then s!"can't concat {added} to bytes"
    else if found == "str" || found == "list" || found == "tuple" then
      s!"can only concatenate {found} (not \"{added}\") to {found}"
    else s!"unsupported operand type(s) for +: '{found}' and '{added}'"
  | notCombinable operation left right =>
    s!"unsupported operand type(s) for {operation}: '{left}' and '{right}'"
  | wrongArguments => "wrong number of arguments"

/-- An argument of the right kind whose value an operation cannot take. -/
inductive ValueFault where
  | depthNotPositive
  | countNotPositive
  | nothingToChoose
  | lengthsDiffer
  | notAPair (place length : Nat)
  | notAnInteger (text : String)
  | integerTooLong (digits : Nat)
  | notADecimal (text : String)
  | nullInside
  | notAVariableName
  deriving DecidableEq

def ValueFault.message : ValueFault → String
  | depthNotPositive => "Max depth must be an integer of at least 1"
  | countNotPositive => "Count must be a positive integer"
  | nothingToChoose => "Cannot choose from an empty sequence"
  | lengthsDiffer => "Values and weights must have the same length"
  | notAPair place length =>
    s!"dictionary update sequence element #{place} has length {length}; 2 is required"
  | notAnInteger text => s!"invalid literal for int() with base 10: {text}"
  | integerTooLong digits =>
    s!"Exceeds the limit (4300 digits) for integer string conversion: value has {digits} " ++
      "digits; use sys.set_int_max_str_digits() to increase the limit"
  | notADecimal text => s!"could not convert string to float: {text}"
  | nullInside => "embedded null byte"
  | notAVariableName => "illegal environment variable name"

/-- Why a file could not be made. -/
inductive PathFault where
  | noFolder (path : String)
  | fileExists (path : String)
  | notAFolder (path : String)
  | nameTooLong (path : String)
  deriving DecidableEq

def PathFault.message : PathFault → String
  | noFolder path => s!"[Errno 2] No such file or directory: {quoted path}"
  | fileExists path => s!"[Errno 17] File exists: {quoted path}"
  | notAFolder path => s!"[Errno 20] Not a directory: {quoted path}"
  | nameTooLong path => s!"[Errno 36] File name too long: {quoted path}"

def DecodeFault.message (fault : DecodeFault) : String :=
  let what :=
    if fault.first = fault.last then
      s!"byte 0x{String.ofList (hexDigits 2 fault.byte)} in position {fault.first}"
    else s!"bytes in position {fault.first}-{fault.last}"
  s!"'{fault.encoding.name}' codec can't decode {what}: {fault.reason}"

def EncodeFault.message (fault : EncodeFault) : String :=
  let what :=
    if fault.first = fault.last then
      s!"character '\\u{String.ofList (hexDigits 4 fault.unit)}' in position {fault.first}"
    else s!"characters in position {fault.first}-{fault.last}"
  s!"'{Encoding.utf8.name}' codec can't encode {what}: surrogates not allowed"

/-- The kinds of failure that only a callback raises. -/
inductive CallbackFault where
  | runtime
  | value
  | key
  | kind
  | stackExhausted
  deriving DecidableEq

inductive Failure where
  | grammar (message : String)
  | rule (fault : RuleFault)
  | weights (fault : WeightFault)
  | modifier (fault : ModifierFault)
  | tooDeep (limit : String)
  | generator (name message : String)
  | noBranch (name : String)
  | unknownRule (name : String)
  | file (fault : FileFault)
  | kind (fault : KindFault)
  | value (fault : ValueFault)
  | number (fault : NumberFault)
  | noMember (key : String)
  | noIndex
  | noMemory
  | noAttribute (found name : String)
  | unfit (part fault : String)
  | path (fault : PathFault)
  | undecodable (fault : DecodeFault)
  | unencodable (fault : EncodeFault)
  | callback (fault : CallbackFault) (message : String)
  deriving DecidableEq

namespace Failure

instance : Inhabited Failure := ⟨noIndex⟩

def message : Failure → String
  | grammar message => message
  | rule fault => fault.message
  | weights fault => fault.message
  | modifier fault => fault.message
  | tooDeep limit =>
    s!"Maximum recursion depth of {limit} exceeded. " ++
      "This may indicate circular references in your grammar rules."
  | generator name message => s!"Error executing function rule '{name}': {message}"
  | noBranch name => s!"No matching condition found for rule '{name}' and no default provided"
  | unknownRule name => s!"Rule '{name}' does not exist"
  | file fault => fault.message
  | kind fault => fault.message
  | value fault => fault.message
  | number fault => fault.message
  | noMember key => key
  | noIndex => "list index out of range"
  | noMemory => ""
  | noAttribute found name => s!"'{found}' object has no attribute '{name}'"
  | unfit part fault => s!"{part}:{fault}"
  | path fault => fault.message
  | undecodable fault => fault.message
  | unencodable fault => fault.message
  | callback _ message => message

/-- The word for the kind of a failure. -/
def kindName : Failure → String
  | grammar _ => "GrammarError"
  | rule _ => "RuleDefinitionError"
  | weights _ => "WeightValidationError"
  | modifier _ => "ModifierDefinitionError"
  | tooDeep _ => "RecursionDepthError"
  | generator .. => "FunctionRuleError"
  | noBranch _ => "NoMatchingConditionError"
  | unknownRule _ => "UnknownRuleError"
  | file _ => "GrammarFileError"
  | kind _ | callback .kind _ => "TypeError"
  | value _ | number .nanToInteger | number .tooManyDigits | callback .value _ => "ValueError"
  | number _ => "OverflowError"
  | noMember _ | callback .key _ => "KeyError"
  | noIndex => "IndexError"
  | noMemory => "MemoryError"
  | noAttribute .. => "AttributeError"
  | unfit .. => "ValidationError"
  | path (.noFolder _) => "FileNotFoundError"
  | path (.fileExists _) => "FileExistsError"
  | path (.notAFolder _) => "NotADirectoryError"
  | path (.nameTooLong _) => "OSError"
  | undecodable _ => "UnicodeDecodeError"
  | unencodable _ => "UnicodeEncodeError"
  | callback .runtime _ => "RuntimeError"
  | callback .stackExhausted _ => "RecursionError"

/-- The failures of the engine itself, which a tolerant parse answers instead of passing on. -/
def isGrammarFailure : Failure → Bool
  | grammar _ | rule _ | weights _ | modifier _ | tooDeep _ | generator .. | noBranch _
  | unknownRule _ => true
  | _ => false

/-- Why a text cannot be written in the bytes that the system takes. -/
def ofUnwritten? (text : String) : Option Failure :=
  (encodeFaultFrom? isByteHalf 0 (codes text.toList)).map unencodable

def ofNull? (text : String) : Option Failure :=
  if text.toList.contains '\x00' then some (value .nullInside) else none

/-- Why a text cannot be the name of a file: it cannot be written in bytes, or it has a null
character. -/
def ofFileName? (text : String) : Option Failure := ofUnwritten? text <|> ofNull? text

/-- Why a variable cannot be set to a text. Both are written in bytes before either is looked at. -/
def ofVariable? (name text : String) : Option Failure :=
  ofUnwritten? name <|> ofUnwritten? text <|> ofNull? name <|> ofNull? text <|>
    if name.toList.contains '=' then some (value .notAVariableName) else none

end Failure

end TextGrammar
