import TextGrammar.Data

/-! The order of a set: its items go into the slots of a table by their hashes. -/
namespace TextGrammar.Data

/-- The hash of an integer is its remainder by this prime, under its sign. -/
def hashPrime : Nat := (1 <<< 61) - 1

def maxHash : Nat := 1 <<< 64

/-- A number below `2 ^ 64` for an integer; minus one is left free. -/
def hashOfInt (n : Int) : Nat :=
  ((if n = -1 then -2 else n) % (maxHash : Int)).toNat

/-- Equal numbers have equal hashes: a fraction by a power of two is divided modulo the prime. -/
def hashOfAmount? : Amount → Option Nat
  | .whole n => some (hashOfInt (n.sign * (n.natAbs % hashPrime : Nat)))
  | .real .nan => none
  | .real (.infinite negative) => some (hashOfInt (signed negative 314159))
  | .real (.finite negative significand exponent) =>
    let rest := significand * (1 <<< (exponent % 61).toNat) % hashPrime
    some (hashOfInt (signed negative rest))

def rotated (n places : Nat) : Nat := (n <<< places ||| n >>> (64 - places)) % maxHash

/-- The hashes of the items of a tuple, mixed in their order. -/
def mixed (hashes : List Nat) : Nat :=
  let sum := hashes.foldl (fun sum hash =>
    rotated ((sum + hash * 14029467366897019727) % maxHash) 31 * 11400714785074694791 % maxHash)
    2870177450012600261
  let result := (sum + (hashes.length ^^^ (2870177450012600261 ^^^ 3527539))) % maxHash
  if result = maxHash - 1 then 1546275796 else result

/-- The hashes of the items of a set, mixed whatever their order. -/
def blended (hashes : List Nat) : Nat :=
  let spread (hash : Nat) : Nat :=
    ((hash ^^^ 89869747) ^^^ (hash <<< 16) % maxHash) * 3644798167 % maxHash
  let joint := hashes.foldl (fun joint hash => joint ^^^ spread hash) 0
  let joint := joint ^^^ (hashes.length + 1) * 1927868237 % maxHash
  let result := ((joint ^^^ (joint >>> 11) ^^^ (joint >>> 25)) * 69069 + 907133923) % maxHash
  if result = maxHash - 1 then 590923713 else result

variable {φ μ : Type}

mutual

/-- The hash of data that has one of its own: numbers, what is empty, and what is made of these. -/
def hash? : Data φ μ → Option Nat
  | flag value => hashOfAmount? (.whole (if value then 1 else 0))
  | number amount => hashOfAmount? amount
  | text "" | bytes [] => some 0
  | tuple items => (hashes? items).map mixed
  | set items => (hashes? items).map blended
  | _ => none

def hashes? : List (Data φ μ) → Option (List Nat)
  | [] => some []
  | item :: rest =>
    match item.hash?, hashes? rest with
    | some hash, some hashes => some (hash :: hashes)
    | _, _ => none

end

/-- Slots, some of them taken. The number of slots is a power of two. -/
abbrev Slots (α : Type) := Array (Option α)

/-- The first free slot of some that follow one another, so many of them. -/
def freeFrom? {α : Type} (slots : Slots α) (place : Nat) : Nat → Option Nat
  | 0 => none
  | count + 1 =>
    match slots[place]? with
    | some none => some place
    | _ => freeFrom? slots (place + 1) count

/-- Looks for a free slot from a place on: at the slots next to it, unless they end before, and then
at another place. -/
def findSlot {α : Type} (slots : Slots α) : Nat → Nat → Nat → Nat
  | 0, place, _ => place
  | tries + 1, place, rest =>
    let near := if place + 9 < slots.size then 10 else 1
    match freeFrom? slots place near with
    | some found => found
    | none =>
      let rest := rest >>> 5
      findSlot slots tries ((place * 5 + 1 + rest) % slots.size) rest

/-- Every place is tried once the hash is used up. -/
def intoSlot {α : Type} (slots : Slots (Nat × α)) (item : Nat × α) : Slots (Nat × α) :=
  slots.set! (findSlot slots (slots.size + 16) (item.1 % slots.size) item.1) (some item)

/-- The least power of two above a number, from eight on. -/
def slotsAbove (count : Nat) : Nat := max 8 (2 * (1 <<< count.log2))

/-- One more item among so many; a table that is three fifths full makes room. -/
def addToSlots {α : Type} (slots : Slots (Nat × α)) (count : Nat) (item : Nat × α) :
    Slots (Nat × α) :=
  let slots := intoSlot slots item
  if count * 5 < (slots.size - 1) * 3 then slots
  else
    let wider := Array.replicate (slotsAbove (if count > 50000 then count * 2 else count * 4)) none
    (slots.toList.filterMap id).foldl intoSlot wider

/-- The order in which items with hashes are gone through. -/
def slotOrder {α : Type} (items : List (Nat × α)) : List α :=
  let slots := items.zipIdx.foldl (fun slots (item, place) => addToSlots slots (place + 1) item)
    (Array.replicate 8 none)
  slots.toList.filterMap fun slot => slot.map Prod.snd

/-- A set of data; what is the same counts once. -/
def ofItems (items : List (Data φ μ)) : Except Failure (Data φ μ) := do
  items.forM checkKey
  let items := items.foldl (fun kept item => if kept.any item.same then kept else kept ++ [item]) []
  match hashes? items with
  | some hashes => return set (slotOrder (hashes.zip items))
  | none => return set items

end TextGrammar.Data
