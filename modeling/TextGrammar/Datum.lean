import TextGrammar.Data.Operations
import TextGrammar.Modifier
import TextGrammar.Rule

/-! Unchecked arguments, as a script hands them over: data with callbacks and modifiers in it. -/
namespace TextGrammar

/-- A function, by what it is called with. -/
inductive Callback where
  | generator (answer : Nat → Answer)
  | predicate (test : Predicate)
  | rewriter (change : Transform)

abbrev Datum := Data Callback Modifier

namespace Data

/-- Any callback will do where one is asked for; one of another kind fails when it is called. -/
def generator? : Datum → Option (Nat → Answer)
  | function (.generator answer) => some answer
  | function _ => some fun _ => .failed KindFault.wrongArguments.message
  | _ => none

def predicate? : Datum → Option Predicate
  | function (.predicate test) => some test
  | function _ => some fun _ => .error (.kind .wrongArguments)
  | _ => none

/-- Whatever a callback answers counts as true or not. -/
def condition? : Datum → Option Condition
  | function (.rewriter change) => some fun text context => (change text context).map truth
  | function _ => some fun _ _ => .error (.kind .wrongArguments)
  | _ => none

def transform? : Datum → Option Transform
  | function (.rewriter change) => some change
  | function _ => some fun _ _ => .error (.kind .wrongArguments)
  | _ => none

end Data

end TextGrammar
