import TextGrammar.Store.Validation
import TextGrammar.Expansion

/-! Advice on a failure: suggestions by its topic, and what a validation finds. -/
namespace TextGrammar

inductive Topic where
  | recursion
  | generator
  | weights
  | missingRule
  | general
  deriving DecidableEq

/-- A failure to explain: its message, and its cause if it is known. -/
structure Report where
  message : String
  cause : Option Failure

namespace Topic

/-- Whether a message speaks of something, in whatever case. -/
def mentions (message phrase : String) : Bool :=
  occursIn phrase.toList (lowerText message.toList)

def isRecursion (report : Report) : Bool :=
  (match report.cause with
    | some (.tooDeep _) | some (.callback .stackExhausted _) => true
    | _ => false)
  || ["recursion", "circular", "depth"].any (mentions report.message)

def isGenerator (report : Report) : Bool :=
  (match report.cause with
    | some (.generator ..) => true
    | _ => false)
  || mentions report.message "function rule"
  || (mentions report.message "function" && mentions report.message "failed")

def isWeights (report : Report) : Bool :=
  (match report.cause with
    | some (.weights _) => true
    | _ => false)
  || ["weight", "sum to 1", "probability"].any (mentions report.message)

def isMissingRule (report : Report) : Bool :=
  (match report.cause with
    | some (.unknownRule _) => true
    | _ => false)
  || (mentions report.message "rule" && mentions report.message "not found")
  || (mentions report.message "rule" && mentions report.message "does not exist")
  || mentions report.message "missing rule" || mentions report.message "undefined rule"

/-- The first topic that fits, by the cause or by the words of the message. -/
def of (report : Report) : Topic :=
  if isRecursion report then recursion
  else if isGenerator report then generator
  else if isWeights report then weights
  else if isMissingRule report then missingRule
  else general

def suggestions : Topic → List String
  | recursion =>
    ["Check for circular references in your grammar rules",
     "Use validate() to detect circular dependencies",
     "Consider increasing max depth if your grammar is legitimately deep",
     "Use %@name% back-references to reuse previously generated values"]
  | generator =>
    ["Function rules must return a list of strings",
     "Handle exceptions inside your function rule",
     "Test the function rule on its own before registering it"]
  | weights =>
    ["Ensure all weights are non-negative numbers",
     "Verify that weights sum to exactly 1.0",
     "Check that values and weights have the same length",
     "Example: weights = [0.5, 0.3, 0.2] for three values"]
  | missingRule =>
    ["Check that all referenced rules are defined",
     "Use validate() to find missing rules"]
  | general =>
    ["Run validate() to check for grammar issues",
     "Check that all referenced rules exist",
     "Ensure rule values are properly formatted"]

end Topic

/-- What a failure is about: the text and the rule at hand, as they are shown. -/
structure Subject where
  text : Option String
  /-- The names asked for in the text that no rule defines. -/
  missing : List String
  ruleName : Option String
  ruleKind : Option RuleKind

/-- An empty rule name counts as none. -/
def Subject.of (store : Store) (text ruleName : Option String) : Subject :=
  let ruleName := ruleName.filter (!·.isEmpty)
  { text, ruleName
    missing := (text.map store.missingNames).getD []
    ruleKind := ruleName.bind store.kind? }

namespace Advice

def bullet (line : String) : String := "• " ++ line

def bulletList (label : String) (names : List String) : List String :=
  if names.isEmpty then [] else [bullet (label ++ ": " ++ commaList names)]

/-- What a topic says about its subject. -/
def details (subject : Subject) : Topic → List String
  | .recursion =>
    match subject.ruleName with
    | some name => ["", s!"The rule '{name}' may be causing infinite recursion"]
    | none => []
  | .missingRule => bulletList "Missing rules detected" subject.missing
  | _ => []

def issues (validation : Validation) : List String :=
  if validation.isValid then []
  else
    "Validation Issues:" :: bulletList "Missing rules" validation.missing
      ++ bulletList "Circular references" validation.circular
      ++ bulletList "Empty rules" validation.empty ++ [""]

def surroundings (subject : Subject) : List String :=
  (subject.text.map fun text => s!"Text being parsed: \"{text}\"").toList
    ++ (subject.ruleName.map fun name => s!"Rule name: {name}").toList
    ++ (subject.ruleKind.map fun kind => s!"Rule type: {kind.text}").toList

/-- Line breaks at the end are dropped. -/
def trimEnd (text : String) : String :=
  String.ofList (text.toList.reverse.dropWhile (· == '\n')).reverse

/-- The message, the suggestions, the findings of a validation, and the text and rule at hand. -/
def text (store : Store) (report : Report) (subject : Subject) : String :=
  let topic := Topic.of report
  trimEnd ("\n".intercalate (
    [report.message, "", "Suggestions:"] ++ topic.suggestions.map bullet
    ++ details subject topic ++ [""] ++ issues store.validate ++ surroundings subject))

end Advice

end TextGrammar
