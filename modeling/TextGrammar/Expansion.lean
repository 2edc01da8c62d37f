import TextGrammar.Store

/-! Expansion of tokens. The depth limit is the fuel, as far as there is room on the stack. -/
namespace TextGrammar

/-- What an expansion reads and moves on. -/
structure Engine where
  store : Store
  source : Source
  context : Context

/-- A result or a failure, and the engine as it was left in either case. -/
abbrev Expanded := Except Failure String × Engine

namespace Engine

/-- Replaces one token. The raw value stands in the context while its own tokens are expanded, and
the finished text afterwards; a token without a value is left as it is. -/
def expandToken (inner : String → Engine → Expanded) (name : String) (engine : Engine) : Expanded :=
  if isReplay name then
    (.ok ((engine.context.get? (referent name)).getD (Segment.tokenText name)), engine)
  else
    match engine.store.draw name (.run engine.context) engine.source with
    | (.error failure, store, source) => (.error failure, { engine with store, source })
    | (.ok none, store, source) => (.ok (Segment.tokenText name), { engine with store, source })
    | (.ok (some value), store, source) =>
      match inner value { store, source, context := engine.context.put name value } with
      | (.error failure, engine) => (.error failure, engine)
      | (.ok text, engine) => (.ok text, { engine with context := engine.context.put name text })

/-- Replaces the tokens from left to right; a failure ends the run where it arises. -/
def expandSegments (inner : String → Engine → Expanded) : List Segment → Engine → Expanded
  | [], engine => (.ok "", engine)
  | .literal text :: rest, engine =>
    match expandSegments inner rest engine with
    | (.error failure, engine) => (.error failure, engine)
    | (.ok tail, engine) => (.ok (text ++ tail), engine)
  | .token name :: rest, engine =>
    match expandToken inner name engine with
    | (.error failure, engine) => (.error failure, engine)
    | (.ok text, engine) =>
      match expandSegments inner rest engine with
      | (.error failure, engine) => (.error failure, engine)
      | (.ok tail, engine) => (.ok (text ++ tail), engine)

/-- Expands a text with the given number of depths left. -/
def expandWithin (limit : Int) : Nat → String → Engine → Expanded
  | 0, _, engine => (.error (.tooDeep (toString limit)), engine)
  | room + 1, text, engine => expandSegments (expandWithin limit room) (Segment.split text) engine

/-- Callbacks that run out of stack count as nesting too deep. -/
def deepened (limit : Int) : Failure → Failure
  | .callback .stackExhausted _ => .tooDeep (toString limit)
  | failure => failure

/-- Expands every token in a text, from an empty context unless it is to be kept. A stack without
room for another nested text counts as nesting too deep, whatever the limit; failures state the
limit. -/
def expand (stackRoom : Nat) (limit : Int) (keepContext : Bool) (text : String) (engine : Engine) :
    Expanded :=
  let engine := if keepContext then engine else { engine with context := ∅ }
  let (result, engine) := expandWithin limit (min limit.toNat stackRoom) text engine
  (result.mapError (deepened limit), engine)

end Engine

/-- The names asked for in a text that no rule defines. -/
def Store.missingNames (store : Store) (text : String) : List String :=
  (tokenNames text).filter fun name => !isReplay name && !store.hasName name

end TextGrammar
