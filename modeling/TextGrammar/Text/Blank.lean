import TextGrammar.Text.Ranges

/-! White space: the separators, the line breaks and the spacing controls of Unicode. -/
namespace TextGrammar

def blankRanges : List (Nat × Nat) :=
  [(0x9, 0xD), (0x1C, 0x20), (0x85, 0x85), (0xA0, 0xA0), (0x1680, 0x1680), (0x2000, 0x200A),
   (0x2028, 0x2029), (0x202F, 0x202F), (0x205F, 0x205F), (0x3000, 0x3000)]

/-- The information separators U+001C to U+001F count as blank, unlike in `Char.isWhitespace`. -/
def isBlank (c : Char) : Bool := inRanges blankRanges c.toNat

/-- Drops the blanks at both ends. -/
def trimBlanks (text : List Char) : List Char :=
  ((text.dropWhile isBlank).reverse.dropWhile isBlank).reverse

end TextGrammar
