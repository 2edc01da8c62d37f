import TextGrammar.Text.Pieces
import TextGrammar.Text.Word

/-! Possessives: a marker right after a word turns into its ending. -/
namespace TextGrammar.English

def ownerMarker : List Char := "POSSESSIVE".toList

/-- A word in `s` takes the apostrophe alone; without a word before it, the marker just goes. -/
def possessive (piece : List Char) : List Char :=
  match piece.getLast? with
  | none => piece
  | some c =>
    if !isWord c then piece else if c = 's' then piece ++ ['\''] else piece ++ ['\'', 's']

/-- Every piece but the last one was followed by a marker. -/
def joinPossessives : List (List Char) → List Char
  | [] => []
  | [last] => last
  | piece :: rest => possessive piece ++ joinPossessives rest

def withPossessives (text : List Char) : List Char := joinPossessives (pieces ownerMarker text)

end TextGrammar.English
