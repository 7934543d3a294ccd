import Binisaya.Number.Numeral
import Binisaya.Text.Blank
import Binisaya.Text.Digit

/-! Conversion of texts to doubles. More is converted than numerals: white space may stand around a number, its
digits may be of any script and have single underscores between them, and the words for an infinity and for what
is no number are known in small and capital letters. -/

namespace Binisaya

/-- Tells that a character may stand around a number. The separators among the control characters may not. -/
def isMargin (c : Char) : Bool := isBlank c && !(0x1C ≤ c.toNat && c.toNat ≤ 0x1F)

/-- The ASCII digit with the value of a digit of any script. -/
def asciiDigit (c : Char) : Char := (scriptDigit? c).elim c Nat.digitChar

/-- The text without its underscores, each of which must have a digit on either side. -/
def joinDigits? (afterDigit : Bool) : List Char → Option (List Char)
  | [] => some []
  | c :: cs =>
    if c = '_' then
      if afterDigit && cs.head?.any Char.isDigit then joinDigits? false cs else none
    else (joinDigits? c.isDigit cs).map (c :: ·)

/-- Converts what is left of a number once it is brought into ASCII and its underscores are gone. -/
def convertPlain? (cs : List Char) : Option Float :=
  let (negative, rest) := splitSign cs
  let word := rest.map Char.toLower
  if word = "nan".toList then some notANumber
  else if word = "inf".toList ∨ word = "infinity".toList then some (infinity negative)
  else (readDecimal? rest).map (Decimal.toFloat negative)

/-- Converts a text to a double. -/
def convert? (cs : List Char) : Option Float :=
  (joinDigits? false (dropTrailing isMargin ((cs.map asciiDigit).dropWhile isMargin))).bind convertPlain?

end Binisaya
