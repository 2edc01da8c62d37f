import TextGrammar.Number.Limit
import TextGrammar.Number.Reading
import TextGrammar.Rule.Kind

/-! Data of any kind, as scripts hand it over and callbacks see it, and what it is written as. -/
namespace TextGrammar

/-- How a tolerant parse goes about its work. -/
structure Tolerance where
  preserveContext : Bool := false
  validateFirst : Bool := true
  maxAttempts : Int := 3
  deriving DecidableEq

/-- Data with functions of one type and modifiers of another among them. -/
inductive Data (φ μ : Type) where
  | nothing
  | flag (value : Bool)
  | number (amount : Amount)
  | text (value : String)
  | bytes (value : List UInt8)
  | list (items : List (Data φ μ))
  | tuple (items : List (Data φ μ))
  | set (items : List (Data φ μ))
  | mapping (members : List (Data φ μ × Data φ μ))
  | kind (value : RuleKind)
  | branch (test values fallback : Data φ μ)
  | options (value : Tolerance)
  | failure (value : Failure) (arguments : List (Data φ μ))
  | function (value : φ)
  | modifier (value : μ)

/-- Data as callbacks see it. They do not call functions, so these are all alike. -/
abbrev Value := Data Unit Unit

namespace Data

variable {φ μ : Type}

instance : Inhabited (Data φ μ) := ⟨nothing⟩
instance (n : Nat) : OfNat (Data φ μ) n := ⟨number (.whole n)⟩

/-- The word for the kind of data, as messages use it. -/
def found : Data φ μ → String
  | nothing => "NoneType"
  | flag _ => "bool"
  | number (.whole _) => "int"
  | number (.real _) => "float"
  | text _ => "str"
  | bytes _ => "bytes"
  | list _ => "list"
  | tuple _ => "tuple"
  | set _ => "frozenset"
  | mapping _ => "dict"
  | kind _ => "RuleType"
  | branch .. => "Condition"
  | options _ => "ParseOptions"
  | failure value _ => value.kindName
  | function _ => "function"
  | modifier _ => "Modifier"

/-- Whether data counts as true where a truth value is asked for: zeros and whatever is empty do
not. -/
def truth : Data φ μ → Bool
  | nothing => false
  | flag value => value
  | number (.whole n) => n != 0
  | number (.real x) => !x.isZero
  | text value => !value.isEmpty
  | bytes value => !value.isEmpty
  | list items | tuple items | set items => !items.isEmpty
  | mapping members => !members.isEmpty
  | _ => true

def writtenFlag (value : Bool) : String := if value then "True" else "False"

/-- The options by their names, with something between any two. -/
def writtenOptions (between : String) (options : Tolerance) : String :=
  between.intercalate [
    "preserve_context=" ++ writtenFlag options.preserveContext,
    "validate_first=" ++ writtenFlag options.validateFirst,
    s!"max_attempts={options.maxAttempts}"]

mutual

/-- Data as it is written inside other data, with its texts in quotes. -/
def written : Data φ μ → String
  | nothing => "None"
  | flag value => writtenFlag value
  | number amount => amount.text
  | text value => quoted value
  | bytes value => quotedBytes value
  | list items => "[" ++ writtenItems items ++ "]"
  | tuple [item] => "(" ++ item.written ++ ",)"
  | tuple items => "(" ++ writtenItems items ++ ")"
  | set [] => "frozenset()"
  | set items => "frozenset(\x7b" ++ writtenItems items ++ "\x7d)"
  | mapping members => "\x7b" ++ writtenMembers members ++ "\x7d"
  | kind value => s!"<{value.shown}: {quoted value.text}>"
  | failure value arguments => value.kindName ++ "(" ++ writtenItems arguments ++ ")"
  | options value => "ParseOptions(" ++ writtenOptions ", " value ++ ")"
  | branch test values fallback =>
    "Condition(predicate=" ++ test.written ++ ", values=" ++ values.written ++ ", default="
      ++ fallback.written ++ ")"
  | function _ => "<function>"
  | modifier _ => "<modifier>"

def writtenItems : List (Data φ μ) → String
  | [] => ""
  | [item] => item.written
  | item :: rest => item.written ++ ", " ++ writtenItems rest

def writtenMembers : List (Data φ μ × Data φ μ) → String
  | [] => ""
  | [(key, value)] => key.written ++ ": " ++ value.written
  | (key, value) :: rest => key.written ++ ": " ++ value.written ++ ", " ++ writtenMembers rest

end

/-- Data on its own: a text stands for itself, without quotes, and a failure for its message. -/
def display : Data φ μ → String
  | text value => value
  | kind value => value.shown
  | failure value _ => value.message
  | options value => writtenOptions " " value
  | other => other.written

def text? : Data φ μ → Option String
  | text value => some value
  | kind value => some value.text
  | _ => none

/-- The integer that data counts as; truth values count as zero and one. -/
def integer? : Data φ μ → Option Int
  | flag value => some (if value then 1 else 0)
  | number (.whole n) => some n
  | _ => none

/-- The amount that data counts as; truth values count as zero and one. -/
def amount? : Data φ μ → Option Amount
  | flag value => some (.whole (if value then 1 else 0))
  | number amount => some amount
  | _ => none

/-- Only what compares with an integer is a limit. -/
def limit (relation : String) : Data φ μ → Except Failure Limit
  | flag value => .ok (.flag value)
  | number amount => .ok (.number amount)
  | other => .error (.kind (.notOrdered relation "int" other.found))

/-- A number that is no truth value. -/
def plainAmount? : Data φ μ → Option Amount
  | number amount => some amount
  | _ => none

/-- An integer that is no truth value. -/
def plainInteger? : Data φ μ → Option Int
  | number (.whole n) => some n
  | _ => none

/-- The items of a list or a tuple, and of nothing else. -/
def listItems? : Data φ μ → Option (List (Data φ μ))
  | list items | tuple items => some items
  | _ => none

def letters (value : String) : List (Data φ μ) :=
  (lettersOf value.toList).map fun letter => text (String.ofList letter)

/-- What a loop over data goes through. -/
def items : Data φ μ → Except Failure (List (Data φ μ))
  | list items | tuple items | set items => .ok items
  | text value => .ok (letters value)
  | kind value => .ok (letters value.text)
  | bytes value => .ok (value.map fun b => number (.whole b.toNat))
  | mapping members => .ok (members.map Prod.fst)
  | options value => .ok [
      tuple [text "preserve_context", flag value.preserveContext],
      tuple [text "validate_first", flag value.validateFirst],
      tuple [text "max_attempts", number (.whole value.maxAttempts)]]
  | other => .error (.kind (.notIterable other.found))

/-- The parts of data that has a size. -/
def parts : Data φ μ → Except Failure (List (Data φ μ))
  | options _ => .error (.kind (.notSized "ParseOptions"))
  | other =>
    match other.items with
    | .ok items => .ok items
    | .error _ => .error (.kind (.notSized other.found))

mutual

/-- Data is the same if it is equal as numbers, as texts or part by part. Functions and failures are
never the same as others, and what is no number is not even the same as itself. -/
def same : Data φ μ → Data φ μ → Bool
  | nothing, nothing => true
  | bytes a, bytes b => a == b
  | list as, list bs | tuple as, tuple bs => sameItems as bs
  | set as, set bs => as.length == bs.length && allAmong as bs
  | mapping as, mapping bs => as.length == bs.length && allMembersAmong as bs
  | branch a b c, branch d e f => a.same d && b.same e && c.same f
  | options a, options b => a == b
  | a, b =>
    match a.amount?, b.amount?, a.text?, b.text? with
    | some m, some n, _, _ => m.compare? n == some .eq
    | _, _, some s, some t => s == t
    | _, _, _, _ => false

def sameItems : List (Data φ μ) → List (Data φ μ) → Bool
  | [], [] => true
  | a :: as, b :: bs => a.same b && sameItems as bs
  | _, _ => false

/-- Whether all items of the first list are the same as some of the second. -/
def allAmong : List (Data φ μ) → List (Data φ μ) → Bool
  | [], _ => true
  | a :: as, bs => bs.any a.same && allAmong as bs

def allMembersAmong : List (Data φ μ × Data φ μ) → List (Data φ μ × Data φ μ) → Bool
  | [], _ => true
  | (key, value) :: rest, members =>
    members.any (fun member => key.same member.1 && value.same member.2)
      && allMembersAmong rest members

end

mutual

/-- The part of data that keeps it from being a key, if there is one. -/
def unhashable? : Data φ μ → Option String
  | list _ => some "list"
  | mapping _ => some "dict"
  | branch .. => some "Condition"
  | modifier _ => some "Modifier"
  | options _ => some "ParseOptions"
  | tuple items => unhashableItem? items
  | _ => none

def unhashableItem? : List (Data φ μ) → Option String
  | [] => none
  | item :: rest => item.unhashable? <|> unhashableItem? rest

end

/-- Fails for data that cannot be a key. -/
def checkKey (key : Data φ μ) : Except Failure Unit :=
  match key.unhashable? with
  | some found => .error (.kind (.notHashable found))
  | none => .ok ()

/-- The name that data asks a table for; other keys are in no table. -/
def name? (key : Data φ μ) : Except Failure (Option String) := do
  key.checkKey
  return key.text?

def putMember (key value : Data φ μ) : List (Data φ μ × Data φ μ) → List (Data φ μ × Data φ μ)
  | [] => [(key, value)]
  | member :: rest =>
    if member.1.same key then (member.1, value) :: rest else member :: putMember key value rest

/-- A later member with the same key replaces the value and keeps the place. -/
def putMembers (members : List (Data φ μ × Data φ μ)) : List (Data φ μ × Data φ μ) :=
  members.foldl (fun found member => putMember member.1 member.2 found) []

def ofMembers (members : List (Data φ μ × Data φ μ)) : Except Failure (Data φ μ) := do
  members.forM fun member => member.1.checkKey
  return mapping (putMembers members)

/-- The value under a key; nothing if there is none. -/
def member (key : Data φ μ) (members : List (Data φ μ × Data φ μ)) : Data φ μ :=
  match members.find? fun member => member.1.same key with
  | some member => member.2
  | none => nothing

/-- What stands at a place, counted from the end if it is negative; a mapping is asked for the place
as a key. -/
def partAt (place : Int) : Data φ μ → Except Failure (Data φ μ)
  | mapping members =>
    match members.find? fun member => member.1.same (number (.whole place)) with
    | some member => .ok member.2
    | none => .error (.noMember (toString place))
  | set _ => .error (.kind (.notIndexable "frozenset"))
  | other => do
    let parts ← other.parts
    let index := if place < 0 then place + parts.length else place
    match if index < 0 then none else parts[index.toNat]? with
    | some part => .ok part
    | none => .error .noIndex

/-- One item of a sequence of pairs, as the member it stands for. -/
def pair (place : Nat) (item : Data φ μ) : Except Failure (Data φ μ × Data φ μ) :=
  match item.items with
  | .error _ => .error (.kind (.notASequence place))
  | .ok [key, value] => do
    key.checkKey
    return (key, value)
  | .ok parts => .error (.value (.notAPair place parts.length))

/-- Data as a mapping: itself, or a sequence of pairs. -/
def toMembers : Data φ μ → Except Failure (List (Data φ μ × Data φ μ))
  | mapping members => .ok members
  | other => do
    let items ← other.items
    let pairs ← items.zipIdx.mapM fun (item, place) => pair place item
    return putMembers pairs

mutual

def sealed : Data φ μ → Value
  | nothing => nothing
  | flag value => flag value
  | number amount => number amount
  | text value => text value
  | bytes value => bytes value
  | list items => list (sealedItems items)
  | tuple items => tuple (sealedItems items)
  | set items => set (sealedItems items)
  | mapping members => mapping (sealedMembers members)
  | kind value => kind value
  | branch test values fallback => branch test.sealed values.sealed fallback.sealed
  | options value => options value
  | failure value arguments => failure value (sealedItems arguments)
  | function _ => function ()
  | modifier _ => modifier ()

def sealedItems : List (Data φ μ) → List Value
  | [] => []
  | item :: rest => item.sealed :: sealedItems rest

def sealedMembers : List (Data φ μ × Data φ μ) → List (Value × Value)
  | [] => []
  | (key, value) :: rest => (key.sealed, value.sealed) :: sealedMembers rest

end

end Data

end TextGrammar
