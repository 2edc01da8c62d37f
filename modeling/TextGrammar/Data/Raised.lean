import TextGrammar.Data

/-! Failures that are raised by the word for their kind, with arguments. -/
namespace TextGrammar.Data

variable {φ μ : Type}

/-- What the arguments of a failure say: one stands for itself, a missing key in quotes, and several
stand together. -/
def saying (kindName : String) : List (Data φ μ) → String
  | [] => ""
  | [argument] => if kindName = "KeyError" then argument.written else argument.display
  | arguments => (tuple arguments).written

/-- A failure by the word for its kind. A kind without a meaning of its own counts as general. -/
def failureOf (kindName : String) (arguments : List (Data φ μ)) : Failure :=
  let said := saying kindName arguments
  let first := (arguments.headD nothing).display
  match kindName with
  | "RuleDefinitionError" => .rule (.stated said)
  | "WeightValidationError" => .weights (.stated said)
  | "ModifierDefinitionError" => .modifier (.stated said)
  | "RecursionDepthError" => .tooDeep first
  | "FunctionRuleError" => .generator first ((arguments.drop 1).headD nothing).display
  | "NoMatchingConditionError" => .noBranch first
  | "UnknownRuleError" => .unknownRule first
  | "GrammarFileError" => .file (.stated said)
  | "RuntimeError" => .callback .runtime said
  | "ValueError" => .callback .value said
  | "KeyError" => .callback .key said
  | "TypeError" => .callback .kind said
  | "RecursionError" => .callback .stackExhausted said
  | _ => .grammar said

/-- A failure as data. One that words its message itself keeps only that. -/
def raised (kindName : String) (arguments : List (Data φ μ)) : Data φ μ :=
  let value := failureOf kindName arguments
  match value with
  | .tooDeep _ | .generator .. | .noBranch _ | .unknownRule _ => failure value [text value.message]
  | _ => failure value arguments

end TextGrammar.Data
