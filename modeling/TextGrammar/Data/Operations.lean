import TextGrammar.Data
import TextGrammar.Number.Reading
import TextGrammar.Text.Pieces

/-! Operations made for texts, on whatever is given; what has none fails with what it is. -/
namespace TextGrammar.Data

variable {φ μ : Type}

/-- The text that is searched for a pattern. -/
def searched (data : Data φ μ) : Except Failure String :=
  match data.text? with
  | some value => .ok value
  | none => .error (.kind (.notSearchable data.found))

/-- Whether a text is in data: in a text as a part, in anything else as an item. -/
def holds (key : String) (data : Data φ μ) : Except Failure Bool :=
  match data, data.text?, data.items with
  | _, some whole, _ => .ok (occursIn key.toList whole.toList)
  | bytes _, _, _ | _, _, .error _ => .error (.kind (.notAContainer data.found))
  | _, _, .ok items => .ok (items.any fun item => item.text? = some key)

/-- The failure of a method that only texts have. Bytes have it as well, but not for texts. -/
def noMethod (data : Data φ μ) (name : String) (ofBytes : KindFault) : Failure :=
  match data with
  | bytes _ => .kind ofBytes
  | _ => .noAttribute data.found name

def endsWith (ending : String) (data : Data φ μ) : Except Failure Bool :=
  match data.text? with
  | some value => .ok (ending.toList.isSuffixOf value.toList)
  | none => .error (data.noMethod "endswith" .notAnEnding)

def replace (part replacement : String) (data : Data φ μ) : Except Failure (Data φ μ) :=
  match data.text? with
  | some value =>
    .ok (text (String.ofList (replaceAll part.toList replacement.toList value.toList)))
  | none => .error (data.noMethod "replace" (.notAContainer "bytes"))

def followedBy (ending : String) (data : Data φ μ) : Except Failure (Data φ μ) :=
  match data.text? with
  | some value => .ok (text (value ++ ending))
  | none => .error (.kind (.notAddable data.found "str"))

def precededBy (start : String) (data : Data φ μ) : Except Failure (Data φ μ) :=
  match data.text? with
  | some value => .ok (text (start ++ value))
  | none => .error (.kind (.notAddable "str" data.found))

/-- The value under a name in a mapping, or another one if there is none. -/
def valueOf (data : Data φ μ) (name : String) (default : Data φ μ) : Except Failure (Data φ μ) :=
  match data with
  | mapping members =>
    .ok (((members.find? fun member => member.1.same (text name)).map Prod.snd).getD default)
  | other => .error (.noAttribute other.found "get")

/-- Bytes are read like a text of their own, in which only ASCII has a meaning. -/
def integerOfBytes (value : List UInt8) : Except Failure Int :=
  let char (b : UInt8) : Char := if b < 0x80 then Char.ofNat b.toNat else '?'
  match readInteger (String.ofList (value.map char)) with
  | .error .notANumeral =>
    let shown := (quotedBytes value).toList.take shownNumeralLength
    .error (.value (.notAnInteger (String.ofList shown)))
  | .error (.tooLong digits) => .error (.value (.integerTooLong digits))
  | .ok n => .ok n

/-- The integer that a number comes down to without its fraction, or that a text or bytes hold. -/
def toInteger (data : Data φ μ) : Except Failure Int :=
  match data, data.integer? with
  | _, some n => .ok n
  | number (.real x), _ => x.truncate?.mapError .number
  | text value, _ => integerOfText value
  | bytes value, _ => integerOfBytes value
  | kind _, _ => .error (.value (.notAnInteger data.written))
  | _, _ => .error (.kind (.notANumeral data.found))

/-- Places are counted up to this number. -/
def placeLimit : Nat := 1 <<< 63

/-- There is no room for more bytes than this. -/
def memoryLimit : Nat := 1 <<< 35

/-- Whether items of so many bytes each can be repeated so often. -/
def checkRepeat (count : Int) (items size : Nat) (tooLong : Failure) : Except Failure Unit :=
  if placeLimit ≤ count then .error (.number .countTooLarge)
  else if placeLimit ≤ count.toNat * items then .error tooLong
  else if memoryLimit < count.toNat * items * size then .error .noMemory
  else .ok ()

/-- So many items are enough to tell what is wrong with a numeral that is longer than that. -/
def toldBy : Nat := 10000

/-- The integer that items hold when they are repeated so often. It is read off as many copies as
tell what is wrong; with digits alone, all of the digits are counted. -/
def integerOfCopies {α : Type} (read : List α → Except Failure Int) (isOfDigits : α → Bool)
    (count : Nat) (items : List α) : Except Failure Int :=
  let taken := min count (toldBy / items.length + 3)
  match read (List.replicate taken items).flatten with
  | .error (.value (.integerTooLong digits)) =>
    let all := if items.all isOfDigits then digits / taken * count else digits
    .error (.value (.integerTooLong all))
  | result => result

/-- The integer that so many times a number comes down to, or that a text or bytes hold when they
are repeated so often. -/
def timesToInteger (count : Int) (data : Data φ μ) : Except Failure Int :=
  match data, data.amount?, data.text? with
  | _, some factor, _ => do
    let product ← ((Amount.whole count).mul? factor).mapError .number
    (number product : Data φ μ).toInteger
  | _, _, some value => do
    let letters := lettersOf value.toList
    checkRepeat count letters.length 1 (.number .textTooLong)
    integerOfCopies (fun letters => integerOfText (String.ofList letters.flatten))
      (·.all fun c => isDigit c || c = '_') count.toNat letters
  | bytes value, _, _ => do
    checkRepeat count value.length 1 (.number .bytesTooLong)
    integerOfCopies integerOfBytes
      (fun b => (0x30 ≤ b && b < 0x3A) || b = 0x5F) count.toNat value
  | list items, _, _ | tuple items, _, _ => do
    checkRepeat count items.length 8 .noMemory
    .error (.kind (.notANumeral data.found))
  | _, _, _ => .error (.kind (.notCombinable "*" "int" data.found))

end TextGrammar.Data
