import TextGrammar.Failure
import TextGrammar.Number.Numeral
import TextGrammar.Text.Quoted

/-! Numbers that a text has to hold, or a failure that quotes the text. -/
namespace TextGrammar

/-- At most this much of the quoted text is shown. -/
def shownNumeralLength : Nat := 200

def integerOfText (text : String) : Except Failure Int :=
  match readInteger text with
  | .ok n => .ok n
  | .error (.tooLong digits) => .error (.value (.integerTooLong digits))
  | .error .notANumeral =>
    .error (.value (.notAnInteger (String.ofList ((quoted text).toList.take shownNumeralLength))))

def decimalOfText (text : String) : Except Failure Double :=
  match readDouble? text with
  | some x => .ok x
  | none => .error (.value (.notADecimal (quoted text)))

end TextGrammar
