import TextGrammar.Failure
import TextGrammar.Text.Pieces

/-! Paths as they are written, and what stands in the way of making something at one. -/
namespace TextGrammar.Command

/-- What stands at a path. A device is read like a file, but is none. -/
inductive PathKind where
  | missing
  | file
  | device
  | folder
  deriving DecidableEq

def byteCount (code : Nat) : Nat :=
  if code < 0x80 || isByteHalf code then 1
  else if code < 0x800 then 2
  else if code < 0x10000 then 3
  else 4

/-- How many bytes a text takes in the name of a file. -/
def byteLength (text : String) : Nat := ((codes text.toList).map byteCount).foldl (· + ·) 0

structure Path where
  /-- None in front of a relative path; two are kept apart from one, and more count as one. -/
  slashes : Nat
  parts : List String
  deriving DecidableEq

namespace Path

def ofText (text : String) : Path where
  slashes :=
    let count := (text.toList.takeWhile (· == '/')).length
    if count ≤ 2 then count else 1
  parts :=
    ((pieces ['/'] text.toList).map String.ofList).filter fun part => part != "" && part != "."

def text (path : Path) : String :=
  if path.slashes = 0 && path.parts.isEmpty then "."
  else String.ofList (List.replicate path.slashes '/') ++ "/".intercalate path.parts

/-- A path from another one on; an absolute path starts afresh. -/
def append (base path : Path) : Path :=
  if path.slashes = 0 then { base with parts := base.parts ++ path.parts } else path

/-- The parts that a path comes down to, with the ways back taken. None leads back from the root. -/
def place (path : Path) : List String :=
  path.parts.foldl (fun place part =>
    if part ≠ ".." then place ++ [part]
    else if place.getLast?.all (· = "..") then
      if path.slashes = 0 then place ++ [part] else place
    else place.dropLast) []

/-- Whether two paths lead to one place; two slashes lead to the same root as one. -/
def isSame (path other : Path) : Bool :=
  path.place = other.place && (path.slashes = 0) = (other.slashes = 0)

/-- The paths that lead to a path, and the path itself; all but the start of it. -/
def steps (path : Path) : List Path :=
  (List.range path.parts.length).map fun place =>
    { path with parts := path.parts.take (place + 1) }

/-- A folder lists no name that is longer than this, in bytes. -/
def longestName : Nat := 255

/-- No path is looked up that is longer than this, in bytes. -/
def longestPath : Nat := 4095

def isTooLong (path : Path) : Bool :=
  byteLength path.text > longestPath
    || (path.parts.getLast?.map byteLength).any (· > longestName)

variable (kindOf : Path → PathKind)

/-- What stands at a path that can be followed up to its last part: whatever goes back from there
is a folder. -/
def kindOnWay (path : Path) : PathKind :=
  if path.parts.getLast? = some ".." then .folder else kindOf path

/-- Why a path cannot be followed up to its last part: the first part that does not lead on. -/
def wayFault? (whole : Path) : List Path → Option PathFault
  | [] => none
  | path :: rest =>
    if path.isTooLong then some (.nameTooLong whole.text)
    else if rest.isEmpty then none
    else
      match kindOnWay kindOf path with
      | .folder => wayFault? whole rest
      | .missing => some (.noFolder whole.text)
      | .file | .device => some (.notAFolder whole.text)

/-- Why no file can be written at a path. -/
def fileFault? (path : Path) : Option PathFault :=
  if byteLength path.text > longestPath then some (.nameTooLong path.text)
  else wayFault? kindOf path path.steps

/-- The folders that are made from the first missing one on, and what ends that. A fault on the way
to the first of them is one of the whole path. -/
def madeFrom (whole : Path) : Bool → List Path → List Path × Option PathFault
  | _, [] => ([], none)
  | isNew, path :: rest =>
    if path.isTooLong then ([], some (.nameTooLong (if isNew then path else whole).text))
    else
      match if isNew && path.parts.getLast? != some ".." then .missing
        else kindOnWay kindOf path with
      | .folder => madeFrom whole isNew rest
      | .file | .device =>
        ([], some (if rest.isEmpty then .fileExists whole.text else .notAFolder whole.text))
      | .missing =>
        let (made, fault) := madeFrom whole true rest
        (path :: made, fault)

/-- Makes a folder with all that lead to it. -/
def makeFolder (path : Path) : List Path × Option PathFault :=
  if byteLength path.text > longestPath then ([], some (.nameTooLong path.text))
  else madeFrom kindOf path false path.steps

end Path

end TextGrammar.Command
