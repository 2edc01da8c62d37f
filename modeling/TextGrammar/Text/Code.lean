/-!
Texts as sequences of codes. Halves of surrogate pairs may stand alone in a text, though they are no
characters. So each of them is spelled by two characters of a block that is set apart at the very
end of the last plane, a lead and a trail, and so is each character of that block itself. All other
characters spell themselves. `codes_spelling` says that nothing is lost by that.
-/
namespace TextGrammar

def isHighSurrogate (unit : Nat) : Bool := 0xD800 ≤ unit && unit < 0xDC00
def isLowSurrogate (unit : Nat) : Bool := 0xDC00 ≤ unit && unit < 0xE000
def isSurrogate (unit : Nat) : Bool := isHighSurrogate unit || isLowSurrogate unit

/-- The code that two halves make up. -/
def joinedCode (high low : Nat) : Nat := 0x10000 + (high - 0xD800) * 0x400 + (low - 0xDC00)

/-- The first of the leads. The trails follow the leads up to the last character. -/
def firstLead : Nat := 0x10FF80

/-- The first of the trails. -/
def firstTrail : Nat := 0x10FFC0

def isLead (c : Char) : Bool := firstLead ≤ c.toNat && c.toNat < firstTrail
def isTrail (c : Char) : Bool := firstTrail ≤ c.toNat

def leadAt (place : Nat) : Char := Char.ofNat (firstLead + place / 0x40)
def trailAt (place : Nat) : Char := Char.ofNat (firstTrail + place % 0x40)

/-- The lead and the trail for a place among the codes that need both. -/
def pairAt (place : Nat) : List Char := [leadAt place, trailAt place]

/-- The characters for a code. The halves of pairs come first among the codes that need two of
them. -/
def spelled (code : Nat) : List Char :=
  if isSurrogate code then pairAt (code - 0xD800)
  else if firstLead ≤ code then pairAt (0x800 + (code - firstLead))
  else [Char.ofNat code]

/-- The characters for a text of codes. -/
def spelling (codes : List Nat) : List Char := codes.flatMap spelled

/-- The code that a lead and a trail stand for. -/
def pairCode (lead trail : Char) : Nat :=
  let place := 0x40 * (lead.toNat - firstLead) + (trail.toNat - firstTrail)
  if place < 0x800 then 0xD800 + place else firstLead + (place - 0x800)

/-- The code of one letter, which is a character or a lead and a trail. -/
def letterCode : List Char → Nat
  | [] => 0
  | [c] => c.toNat
  | lead :: trail :: _ => pairCode lead trail

/-- One more character in front of letters. -/
def consLetter (c : Char) (letters : List (List Char)) : List (List Char) :=
  match letters with
  | [trail] :: rest => if isLead c && isTrail trail then [c, trail] :: rest else [c] :: letters
  | _ => [c] :: letters

def lettersOf (text : List Char) : List (List Char) := text.foldr consLetter []

/-- The codes that a text stands for. -/
def codes (text : List Char) : List Nat := (lettersOf text).map letterCode

/-- A text of characters as it is spelled. -/
def fromPlain (text : String) : String := String.ofList (spelling (text.toList.map Char.toNat))

/-- The characters that a spelled text stands for, if all its codes are characters. -/
def toPlain (text : String) : String := String.ofList ((codes text.toList).map Char.ofNat)

theorem toNat_ofNat {n : Nat} (h : n.isValidChar) : (Char.ofNat n).toNat = n := by
  rw [Char.ofNat, dif_pos h]
  rfl

theorem toNat_leadAt {place : Nat} (h : place < 0x1000) :
    (leadAt place).toNat = 0x10FF80 + place / 0x40 :=
  toNat_ofNat (.inr (by simp only [firstLead]; omega))

theorem toNat_trailAt (place : Nat) : (trailAt place).toNat = 0x10FFC0 + place % 0x40 :=
  toNat_ofNat (.inr (by simp only [firstTrail]; omega))

theorem isLead_leadAt {place : Nat} (h : place < 0x1000) : isLead (leadAt place) = true := by
  simp only [isLead, toNat_leadAt h, firstLead, firstTrail, Bool.and_eq_true, decide_eq_true_eq]
  omega

theorem isTrail_trailAt (place : Nat) : isTrail (trailAt place) = true := by
  simp only [isTrail, toNat_trailAt, firstTrail, decide_eq_true_eq]
  omega

/-- A character that is no lead is a letter of its own. -/
theorem consLetter_of_not_isLead {c : Char} (h : isLead c = false) (letters : List (List Char)) :
    consLetter c letters = [c] :: letters := by
  unfold consLetter
  split <;> simp [h]

theorem lettersOf_pairAt {place : Nat} (h : place < 0x1000) (text : List Char) :
    lettersOf (pairAt place ++ text) = pairAt place :: lettersOf text := by
  have hno : isLead (trailAt place) = false := by
    simp only [isLead, toNat_trailAt, firstLead, firstTrail, Bool.and_eq_false_iff,
      decide_eq_false_iff_not]
    omega
  simp only [lettersOf, pairAt, List.cons_append, List.nil_append, List.foldr_cons,
    consLetter_of_not_isLead hno]
  simp [consLetter, isLead_leadAt h, isTrail_trailAt]

theorem letterCode_pairAt {place : Nat} (h : place < 0x1000) :
    letterCode (pairAt place)
      = if place < 0x800 then 0xD800 + place else 0x10FF80 + (place - 0x800) := by
  have hp : 0x40 * (0x10FF80 + place / 0x40 - 0x10FF80)
      + (0x10FFC0 + place % 0x40 - 0x10FFC0) = place := by omega
  change pairCode (leadAt place) (trailAt place) = _
  rw [pairCode, toNat_leadAt h, toNat_trailAt, firstLead, firstTrail, hp]

theorem codes_pairAt {place : Nat} (h : place < 0x1000) (text : List Char) :
    codes (pairAt place ++ text)
      = (if place < 0x800 then 0xD800 + place else 0x10FF80 + (place - 0x800)) :: codes text := by
  rw [codes, lettersOf_pairAt h, List.map_cons, letterCode_pairAt h, codes]

theorem codes_spelled {code : Nat} (h : code < 0x110000) (text : List Char) :
    codes (spelled code ++ text) = code :: codes text := by
  by_cases hs : isSurrogate code
  · have hr : 0xD800 ≤ code ∧ code < 0xE000 := by
      simp only [isSurrogate, isHighSurrogate, isLowSurrogate, Bool.or_eq_true, Bool.and_eq_true,
        decide_eq_true_eq] at hs
      omega
    rw [spelled, if_pos hs, codes_pairAt (by omega), if_pos (by omega),
      Nat.add_sub_of_le hr.1]
  · have hr : ¬ (0xD800 ≤ code ∧ code < 0xE000) := by
      simp only [isSurrogate, isHighSurrogate, isLowSurrogate, Bool.or_eq_true, Bool.and_eq_true,
        decide_eq_true_eq] at hs
      omega
    by_cases hb : firstLead ≤ code
    · have hf : 0x10FF80 ≤ code := hb
      rw [spelled, if_neg hs, if_pos hb, firstLead, codes_pairAt (by omega), if_neg (by omega),
        Nat.add_sub_cancel_left, Nat.add_sub_of_le hf]
    · have hf : code < 0x10FF80 := Nat.not_le.1 hb
      have hv : code.isValidChar := by
        simp only [Nat.isValidChar]
        omega
      have hc : isLead (Char.ofNat code) = false := by
        simp only [isLead, toNat_ofNat hv, firstLead, Bool.and_eq_false_iff,
          decide_eq_false_iff_not]
        omega
      have hl : lettersOf (Char.ofNat code :: text) = [Char.ofNat code] :: lettersOf text :=
        consLetter_of_not_isLead hc _
      rw [spelled, if_neg hs, if_neg hb, List.singleton_append, codes, hl, List.map_cons, codes,
        letterCode, toNat_ofNat hv]

theorem codes_spelling {text : List Nat} (h : ∀ code ∈ text, code < 0x110000) :
    codes (spelling text) = text := by
  induction text with
  | nil => rfl
  | cons code rest ih =>
    simp only [List.mem_cons, forall_eq_or_imp] at h
    simp only [spelling, List.flatMap_cons] at ih ⊢
    rw [codes_spelled h.1, ih h.2]

theorem toPlain_fromPlain (text : String) : toPlain (fromPlain text) = text := by
  have h : ∀ code ∈ text.toList.map Char.toNat, code < 0x110000 := by
    intro code hc
    obtain ⟨c, _, rfl⟩ := List.mem_map.1 hc
    have hv : c.toNat.isValidChar := c.valid
    simp only [Nat.isValidChar] at hv
    omega
  rw [toPlain, fromPlain, String.toList_ofList, codes_spelling h, List.map_map]
  have hi : Char.ofNat ∘ Char.toNat = id := funext fun c => Char.ofNat_toNat c
  rw [hi, List.map_id, String.ofList_toList]

/-- Where a text cannot be written in UTF-8: the first half that cannot stand there, its place, and
the last place of the halves that follow one another from there on. -/
structure EncodeFault where
  unit : Nat
  first : Nat
  last : Nat
  deriving DecidableEq

/-- The first half that is not let through, among codes that start at a place. -/
def encodeFaultFrom? (isLetThrough : Nat → Bool) (place : Nat) : List Nat → Option EncodeFault
  | [] => none
  | code :: rest =>
    if isSurrogate code && !isLetThrough code then
      some { unit := code, first := place, last := place + (rest.takeWhile isSurrogate).length }
    else encodeFaultFrom? isLetThrough (place + 1) rest

/-- Some halves of pairs stand for single bytes in what is handed to the system. -/
def isByteHalf (code : Nat) : Bool := 0xDC80 ≤ code && code < 0xDD00

def encodeFault? (text : List Char) : Option EncodeFault :=
  encodeFaultFrom? (fun _ => false) 0 (codes text)

end TextGrammar
