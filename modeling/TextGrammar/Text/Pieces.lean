import TextGrammar.Text.Code

/-! Occurrences of a text within another, found from left to right without overlap. -/
namespace TextGrammar

/-- The pieces of a text between the occurrences of a marker; while `skip` is positive, the scan is
still inside an occurrence. -/
def piecesFrom (marker : List Char) : Nat → List Char → List (List Char)
  | _, [] => [[]]
  | skip + 1, _ :: text => piecesFrom marker skip text
  | 0, c :: text =>
    if marker.isPrefixOf (c :: text) then [] :: piecesFrom marker (marker.length - 1) text
    else (piecesFrom marker 0 text).modifyHead (c :: ·)

/-- A text without the marker is its only piece. -/
def pieces (marker text : List Char) : List (List Char) := piecesFrom marker 0 text

/-- An empty pattern occurs at both ends and between any two letters. -/
def replaceAll (pattern new text : List Char) : List Char :=
  if pattern.isEmpty then new ++ (lettersOf text).flatMap (· ++ new)
  else List.intercalate new (pieces pattern text)

def occursIn (pattern : List Char) : List Char → Bool
  | [] => pattern.isEmpty
  | c :: text => pattern.isPrefixOf (c :: text) || occursIn pattern text

variable {marker : List Char}

theorem piecesFrom_ne_nil (skip : Nat) (text : List Char) : piecesFrom marker skip text ≠ [] := by
  fun_induction piecesFrom marker skip text <;> simp_all

theorem intercalate_piecesFrom (hm : marker ≠ []) (skip : Nat) (text : List Char) :
    List.intercalate marker (piecesFrom marker skip text) = text.drop skip := by
  fun_induction piecesFrom marker skip text with
  | case1 => simp [List.intercalate]
  | case2 skip c text ih => simpa using ih
  | case3 c text h ih =>
    obtain ⟨rest, hr⟩ := List.isPrefixOf_iff_prefix.1 h
    obtain ⟨m, ms, rfl⟩ := List.exists_cons_of_ne_nil hm
    obtain ⟨p, ps, hp⟩ := List.exists_cons_of_ne_nil (@piecesFrom_ne_nil (m :: ms)
      ((m :: ms).length - 1) text)
    obtain ⟨rfl, rfl⟩ : m = c ∧ ms ++ rest = text := by simpa using hr
    rw [hp] at ih ⊢
    simpa [List.intercalate, List.intersperse] using ih
  | case4 c text h ih =>
    obtain ⟨p, ps, hp⟩ := List.exists_cons_of_ne_nil (@piecesFrom_ne_nil marker 0 text)
    rw [hp] at ih ⊢
    cases ps <;> simp_all [List.intercalate, List.intersperse]

theorem intercalate_pieces (hm : marker ≠ []) (text : List Char) :
    List.intercalate marker (pieces marker text) = text := by
  simpa [pieces] using intercalate_piecesFrom hm 0 text

theorem pieces_of_not_occursIn {text : List Char} (h : occursIn marker text = false) :
    pieces marker text = [text] := by
  rw [pieces]
  induction text with
  | nil => rfl
  | cons c text ih =>
    rw [occursIn, Bool.or_eq_false_iff] at h
    rw [piecesFrom, h.1, ih h.2]
    rfl

end TextGrammar
