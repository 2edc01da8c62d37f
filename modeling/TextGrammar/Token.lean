/-! Tokens: `%name%` asks for a value of the rule `name`, and `%@name%` replays the last one. -/
namespace TextGrammar

inductive Segment where
  | literal (text : String)
  | token (name : String)
  deriving DecidableEq

namespace Segment

def tokenName? : Segment → Option String
  | literal _ => none
  | token name => some name

/-- The token that asks for a name. -/
def tokenText (name : String) : String := "%" ++ name ++ "%"

def text : Segment → String
  | literal text => text
  | token name => tokenText name

/-- An empty literal is dropped. -/
def close (scanned : List Char × List Segment) : List Segment :=
  if scanned.1.isEmpty then scanned.2 else literal (String.ofList scanned.1) :: scanned.2

def consLiteral (c : Char) (scanned : List Char × List Segment) : List Char × List Segment :=
  (c :: scanned.1, scanned.2)

/-- The literal that the text starts with, and the segments after it. The leftmost token wins: a
`%` opens one exactly if the next `%` comes later than at once. -/
def scan : List Char → List Char × List Segment
  | [] => ([], [])
  | c :: rest =>
    if c = '%' then
      match _h : rest.dropWhile (· ≠ '%') with
      | [] => (c :: rest, [])
      | _ :: after =>
        let name := rest.takeWhile (· ≠ '%')
        if name.isEmpty then consLiteral c (scan rest)
        else ([], token (String.ofList name) :: close (scan after))
    else consLiteral c (scan rest)
  termination_by text => text.length
  decreasing_by
    · simp
    · have := (List.dropWhile_suffix (l := rest) (p := (· ≠ '%'))).length_le
      simp_all
      omega
    · simp

/-- The literals and tokens of a text, in order. -/
def split (text : String) : List Segment := close (scan text.toList)

end Segment

/-- The names in a text's tokens, each once, by first appearance; a replayed name keeps its `@`. -/
def tokenNames (text : String) : List String :=
  ((Segment.split text).filterMap Segment.tokenName?).eraseDups

def isReplay (name : String) : Bool := name.toList.head? == some '@'

/-- The name that a token replays. -/
def referent (name : String) : String :=
  if isReplay name then String.ofList (name.toList.drop 1) else name

end TextGrammar
