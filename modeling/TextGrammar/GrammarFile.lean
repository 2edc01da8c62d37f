import TextGrammar.Failure
import TextGrammar.Table

/-! Grammar files: a JSON object from rule names to values, or to one value that stands alone. -/
namespace TextGrammar

namespace Json

def text? : Json → Option String
  | text value => some value
  | _ => none

/-- The values of a rule: a list of texts, or one text alone. -/
def ruleValues? : Json → Option (List String)
  | text value => some [value]
  | list items => items.mapM text?
  | _ => none

end Json

/-- Rules by name; of a repeated name the last value counts, in the first place. -/
def grammarOfJson : Json → Except Failure (Table (List String))
  | .object members =>
    (Table.ofList members).entries.foldlM (fun grammar (name, value) =>
      match value.ruleValues? with
      | some values => .ok (grammar.put name values)
      | none => .error (.file (.badRule name))) ∅
  | _ => .error (.file .notAnObject)

/-- An integer that is too long is no fault of the file's form. -/
def Json.Refusal.failure : Json.Refusal → Failure
  | malformed fault => .file (.malformed fault)
  | integerTooLong digits => .value (.integerTooLong digits)

def readGrammar (text : String) : Except Failure (Table (List String)) :=
  ((Json.read text).mapError (·.failure)).bind grammarOfJson

/-- Bytes may start with a byte order mark, a text may not. -/
def readGrammarBytes (bytes : List UInt8) : Except Failure (Table (List String)) := do
  let chars ← (decodeJsonText bytes).mapError .undecodable
  ((Json.readAll chars).mapError (·.failure)).bind grammarOfJson

end TextGrammar
