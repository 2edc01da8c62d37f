/-! Case, as far as a comparison with ASCII text can see it. -/
namespace TextGrammar

def isUpper (c : Char) : Bool := 'A' ≤ c && c ≤ 'Z'

def isLower (c : Char) : Bool := 'a' ≤ c && c ≤ 'z'

/-- The lower case of a capital: the Kelvin sign and the dotted capital I are the two letters
beyond ASCII whose lower case starts in ASCII, and the latter keeps its dot as a mark. -/
def lowerChar (c : Char) : List Char :=
  if isUpper c then [Char.ofNat (c.toNat + 32)]
  else if c = '\u212A' then ['k']
  else if c = '\u0130' then ['i', '\u0307']
  else [c]

def lowerText (text : List Char) : List Char := text.flatMap lowerChar

def upperChar (c : Char) : Char := if isLower c then Char.ofNat (c.toNat - 32) else c

/-- The ASCII letter that a character stands for when case is ignored; the long s and both odd
letters i count, and other characters stand for themselves. -/
def foldChar (c : Char) : Char :=
  if isUpper c then Char.ofNat (c.toNat + 32)
  else if c = '\u017F' then 's'
  else if c = '\u212A' then 'k'
  else if c = '\u0130' || c = '\u0131' then 'i'
  else c

def isLetter (c : Char) : Bool := isLower (foldChar c)

end TextGrammar
