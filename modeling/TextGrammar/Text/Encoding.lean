import TextGrammar.Text.Code

/-! Texts from bytes, and texts that the system keeps as bytes. -/
namespace TextGrammar

inductive Encoding where
  | utf8
  /-- In units of two bytes. -/
  | utf16 (bigEndian : Bool)
  /-- In units of four bytes. -/
  | utf32 (bigEndian : Bool)
  deriving DecidableEq

def Encoding.name : Encoding → String
  | utf8 => "utf-8"
  | utf16 bigEndian => if bigEndian then "utf-16-be" else "utf-16-le"
  | utf32 bigEndian => if bigEndian then "utf-32-be" else "utf-32-le"

/-- What keeps bytes from being a text: the reason, the first byte that is wrong, and the places of
the first and the last one. -/
structure DecodeFault where
  encoding : Encoding
  reason : String
  byte : Nat
  first : Nat
  last : Nat
  deriving DecidableEq

/-- How many bytes a reader takes for a character, or how many are wrong and why. -/
abbrev CharReader := List Nat → Except (String × Nat) (Nat × Nat)

def isContinuation (byte : Nat) : Bool := 0x80 ≤ byte && byte < 0xC0

/-- The second byte of a sequence is bounded further by the first one, so that no character has two
forms and none is out of range. -/
def isSecondByte (first second : Nat) : Bool :=
  isContinuation second && match first with
    | 0xE0 => 0xA0 ≤ second
    | 0xED => second < 0xA0
    | 0xF0 => 0x90 ≤ second
    | 0xF4 => second < 0x90
    | _ => true

/-- The bytes after the first one: how many of them fit, up to a number. -/
def fitting (first wanted : Nat) : List Nat → Nat
  | [] => 0
  | second :: rest =>
    if isSecondByte first second then
      1 + ((rest.take (wanted - 1)).takeWhile isContinuation).length
    else 0

def sequenceValue (lead : Nat) (rest : List Nat) : Nat :=
  rest.foldl (fun value byte => 0x40 * value + (byte - 0x80)) lead

def readSequence (lead wanted : Nat) (bytes : List Nat) : Except (String × Nat) (Nat × Nat) :=
  let rest := bytes.drop 1
  let fit := fitting (bytes.headD 0) wanted rest
  if fit = wanted then .ok (sequenceValue lead (rest.take wanted), wanted + 1)
  else if fit = rest.length then .error ("unexpected end of data", fit + 1)
  else .error ("invalid continuation byte", fit + 1)

/-- Characters alone: halves that stand alone are no sequences. -/
def readUtf8 : CharReader
  | [] => .error ("unexpected end of data", 0)
  | byte :: rest =>
    let bytes := byte :: rest
    if byte < 0x80 then .ok (byte, 1)
    else if byte < 0xC2 then .error ("invalid start byte", 1)
    else if byte < 0xE0 then readSequence (byte - 0xC0) 1 bytes
    else if byte < 0xF0 then readSequence (byte - 0xE0) 2 bytes
    else if byte < 0xF5 then readSequence (byte - 0xF0) 3 bytes
    else .error ("invalid start byte", 1)

/-- Characters and halves that stand alone. -/
def readUtf8OrHalf : CharReader := fun bytes =>
  let pair := (bytes.drop 1).take 2
  let half := sequenceValue 0xD pair
  if bytes.head? = some 0xED && pair.length = 2 && pair.all isContinuation && isSurrogate half then
    .ok (half, 3)
  else readUtf8 bytes

/-- The value of the first bytes, so many of them. -/
def unitValue? (bigEndian : Bool) (size : Nat) (bytes : List Nat) : Option Nat :=
  let taken := bytes.take size
  if taken.length < size then none
  else some ((if bigEndian then taken else taken.reverse).foldl (fun n byte => 0x100 * n + byte) 0)

def readUtf16 (bigEndian : Bool) : CharReader := fun bytes =>
  match unitValue? bigEndian 2 bytes, unitValue? bigEndian 2 (bytes.drop 2) with
  | none, _ => .error ("truncated data", bytes.length)
  | some unit, next =>
    if isHighSurrogate unit && next.any isLowSurrogate then
      .ok (joinedCode unit (next.getD 0), 4)
    else .ok (unit, 2)

def readUtf32 (bigEndian : Bool) : CharReader := fun bytes =>
  match unitValue? bigEndian 4 bytes with
  | none => .error ("truncated data", bytes.length)
  | some code =>
    if code < 0x110000 then .ok (code, 4) else .error ("code point not in range(0x110000)", 4)

def Encoding.reader : Encoding → CharReader
  | utf8 => readUtf8OrHalf
  | utf16 bigEndian => readUtf16 bigEndian
  | utf32 bigEndian => readUtf32 bigEndian

/-- Reads characters from a place on; while `skip` is positive, the bytes belong to the character
before. -/
def decodeFrom (encoding : Encoding) : Nat → Nat → List Nat → Except DecodeFault (List Char)
  | _, _, [] => .ok []
  | skip + 1, place, _ :: rest => decodeFrom encoding skip (place + 1) rest
  | 0, place, byte :: rest =>
    match encoding.reader (byte :: rest) with
    | .error (reason, size) =>
      .error { encoding, reason, byte, first := place, last := place + size - 1 }
    | .ok (code, size) => do
      return spelled code ++ (← decodeFrom encoding (size - 1) (place + 1) rest)

/-- A byte order mark decides; without one the zeros among the first bytes do. The encoding, the
size of the mark, and whether places are counted from behind the mark. -/
def detectEncoding : List Nat → Encoding × Nat × Bool
  | 0 :: 0 :: 0xFE :: 0xFF :: _ => (.utf32 true, 4, false)
  | 0xFF :: 0xFE :: 0 :: 0 :: _ => (.utf32 false, 4, false)
  | 0xFE :: 0xFF :: _ => (.utf16 true, 2, false)
  | 0xFF :: 0xFE :: _ => (.utf16 false, 2, false)
  | 0xEF :: 0xBB :: 0xBF :: _ => (.utf8, 3, true)
  | a :: b :: c :: d :: _ =>
    if a = 0 then (if b = 0 then .utf32 true else .utf16 true, 0, false)
    else if b = 0 then (if c = 0 && d = 0 then .utf32 false else .utf16 false, 0, false)
    else (.utf8, 0, false)
  | [a, b] => (if a = 0 then .utf16 true else if b = 0 then .utf16 false else .utf8, 0, false)
  | _ => (.utf8, 0, false)

/-- The bytes of a code in UTF-8. Some halves stand for a byte of their own. -/
def systemBytes (code : Nat) : List Nat :=
  let tail (places : Nat) : Nat := 0x80 + (code >>> (6 * places)) % 0x40
  if isByteHalf code then [code - 0xDC00]
  else if code < 0x80 then [code]
  else if code < 0x800 then [0xC0 + (code >>> 6), tail 0]
  else if code < 0x10000 then [0xE0 + (code >>> 12), tail 1, tail 0]
  else [0xF0 + (code >>> 18), tail 2, tail 1, tail 0]

/-- The codes of bytes; a byte that belongs to no character becomes a half. While `skip` is
positive, the bytes belong to the character before. -/
def systemCodes : Nat → List Nat → List Nat
  | _, [] => []
  | skip + 1, _ :: rest => systemCodes skip rest
  | 0, byte :: rest =>
    match readUtf8 (byte :: rest) with
    | .ok (code, size) => code :: systemCodes (size - 1) rest
    | .error _ => (0xDC00 + byte) :: systemCodes 0 rest

/-- A text as it comes back from the system, which keeps its bytes: halves that stand for bytes join
to characters where they can. -/
def throughSystem (text : String) : String :=
  String.ofList (spelling (systemCodes 0 ((codes text.toList).flatMap systemBytes)))

/-- The text that bytes stand for, without its byte order mark. -/
def decodeJsonText (bytes : List UInt8) : Except DecodeFault (List Char) :=
  let bytes := bytes.map UInt8.toNat
  let (encoding, mark, fromMark) := detectEncoding bytes
  decodeFrom encoding 0 (if fromMark then 0 else mark) (bytes.drop mark)

end TextGrammar
