import TextGrammar.Rule.Definition
import TextGrammar.Rule.Draw

/-! The store of rules: of those under one name, the kind that takes precedence is drawn from. -/
namespace TextGrammar

structure Entry where
  name : String
  rule : Rule
  /-- The name as it was given first. -/
  shown : String := name

/-- Entries in order of registration, at most one to a name and kind. -/
structure Store where
  entries : List Entry

/-- A name was given a rule of a second kind. -/
structure Shadowing where
  shown : String
  current : RuleKind
  added : RuleKind
  deriving DecidableEq

namespace Shadowing

def winner (shadowing : Shadowing) : RuleKind :=
  if shadowing.added.rank < shadowing.current.rank then shadowing.added else shadowing.current

def message (shadowing : Shadowing) : String :=
  s!"Rule '{shadowing.shown}' is registered as both {shadowing.current.text} and " ++
    s!"{shadowing.added.text}; only the {shadowing.winner.text} rule will be resolved"

end Shadowing

namespace Store

instance : EmptyCollection Store := ⟨⟨[]⟩⟩
instance : Inhabited Store := ⟨∅⟩

variable (store : Store)

/-- The entries of one kind, in order of registration. -/
def table (kind : RuleKind) : List Entry := store.entries.filter (·.rule.kind = kind)

def get? (name : String) (kind : RuleKind) : Option Rule :=
  (store.entries.find? fun entry => entry.name = name && entry.rule.kind = kind).map (·.rule)

def has (name : String) (kind : RuleKind) : Bool := (store.get? name kind).isSome

def hasName (name : String) : Bool := store.entries.any (·.name = name)

/-- The entries of all kinds under a name, in order of registration. -/
def entriesNamed (name : String) : List Entry := store.entries.filter (·.name = name)

/-- The entry that counts under a name: the one of the kind that takes precedence. -/
def entry? (name : String) : Option Entry :=
  let entries := store.entriesNamed name
  RuleKind.all.findSome? fun kind => entries.find? (·.rule.kind = kind)

/-- The rule that is drawn from under a name. -/
def rule? (name : String) : Option Rule := (store.entry? name).map (·.rule)

/-- A name as messages about all rules show it. -/
def shownName (name : String) : String := ((store.entry? name).map (·.shown)).getD name

def kind? (name : String) : Option RuleKind := (store.rule? name).map (·.kind)

/-- Each name once, ordered by kind and then by registration. -/
def names : List String :=
  (RuleKind.all.flatMap fun kind => (store.table kind).map (·.name)).eraseDups

def size : Nat := store.entries.length

def counts : List (RuleKind × Nat) := RuleKind.all.map fun kind => (kind, (store.table kind).length)

def staticValues : Table (List String) :=
  ⟨store.entries.filterMap fun entry => match entry.rule with
    | .static rule => some (entry.name, rule.values)
    | _ => none⟩

/-- Replaces the rule of the same name and kind in its place, or adds the entry at the end. -/
def putEntry (added : Entry) : List Entry → List Entry
  | [] => [added]
  | entry :: rest =>
    if entry.name = added.name ∧ entry.rule.kind = added.rule.kind then
      { entry with rule := added.rule } :: rest
    else entry :: putEntry added rest

def put (name : String) (rule : Rule) : Store := ⟨putEntry { name, rule } store.entries⟩

/-- The notice that a name calls for, as it is shown. -/
def shadowing? (name shown : String) (added : RuleKind) : Option Shadowing :=
  match store.kind? name with
  | some current => if current = added then none else some { shown, current, added }
  | none => none

def erase (name : String) (kind : RuleKind) : Store :=
  ⟨store.entries.filter fun entry => !(entry.name = name && entry.rule.kind = kind)⟩

def eraseName (name : String) : Store := ⟨store.entries.filter (·.name ≠ name)⟩

def eraseKind (kind : RuleKind) : Store := ⟨store.entries.filter (·.rule.kind ≠ kind)⟩

/-- Puts a rule under a name that is a text and not empty, and says if the name had another one. -/
def register (name : Datum) (rule : Rule) : Except Failure (Store × Option Shadowing) :=
  match name.text? with
  | none => .error (.rule .unnamed)
  | some key =>
    if key.isEmpty then .error (.rule .unnamed)
    else
      let shown := name.display
      .ok (⟨putEntry { name := key, rule, shown } store.entries⟩,
        store.shadowing? key shown rule.kind)

/-- A raw value for a name, or nothing if there is none; failures show the name in a way of their
own. Only what a draw moves on in the rule changes the store. -/
def drawShown (shown name : String) (scope : Scope) (source : Source) :
    Except Failure (Option String) × Store × Source :=
  match store.rule? name with
  | none => (.ok none, store, source)
  | some rule =>
    let (value, rule, source) := rule.draw shown scope source
    (value, store.put name rule, source)

def draw (name : String) (scope : Scope) (source : Source) :
    Except Failure (Option String) × Store × Source :=
  store.drawShown name name scope source

def restart? (name : String) : Option Store :=
  match store.get? name .sequential with
  | some (.sequential rule) => some (store.put name (.sequential rule.reset))
  | _ => none

end Store

end TextGrammar
