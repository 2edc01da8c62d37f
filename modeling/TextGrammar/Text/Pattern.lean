import TextGrammar.Text.Word

/-! Patterns and their substitution, from left to right and without overlap. -/
namespace TextGrammar

/-- What a pattern puts in place of the start of a text, and how many characters that start has. A
pattern knows the character before. -/
abbrev Pattern := Option Char → List Char → Option (List Char × Nat)

namespace Pattern

/-- While `skip` is positive, the scan is still inside an occurrence. -/
def substituteFrom (pattern : Pattern) : Option Char → Nat → List Char → List Char
  | _, _, [] => []
  | _, skip + 1, c :: text => substituteFrom pattern (some c) skip text
  | before, 0, c :: text =>
    match pattern before (c :: text) with
    | some (new, size) => new ++ substituteFrom pattern (some c) (size - 1) text
    | none => c :: substituteFrom pattern (some c) 0 text

def occursAfter (pattern : Pattern) : Option Char → List Char → Bool
  | _, [] => false
  | before, c :: text => (pattern before (c :: text)).isSome || occursAfter pattern (some c) text

def substitute (pattern : Pattern) (text : List Char) : List Char :=
  substituteFrom pattern none 0 text

def occurs (pattern : Pattern) (text : List Char) : Bool := occursAfter pattern none text

variable {pattern : Pattern}

theorem substituteFrom_eq_self {before : Option Char} {text : List Char}
    (h : occursAfter pattern before text = false) :
    substituteFrom pattern before 0 text = text := by
  induction text generalizing before with
  | nil => rfl
  | cons c text ih =>
    simp only [occursAfter, Bool.or_eq_false_iff] at h
    simp [substituteFrom, Option.isSome_eq_false_iff.1 h.1 |> Option.isNone_iff_eq_none.1, ih h.2]

theorem substitute_eq_self {text : List Char} (h : occurs pattern text = false) :
    substitute pattern text = text := substituteFrom_eq_self h

end Pattern

end TextGrammar
