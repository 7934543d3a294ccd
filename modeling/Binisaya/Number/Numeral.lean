import Binisaya.Number.Decimal

/-! Numerals in ASCII: digits with an optional point, at least one digit on one of its sides, and an optional
power of ten. -/

namespace Binisaya

/-- A sign at the start of a text, told by whether it is negative, and the rest. -/
def splitSign : List Char → Bool × List Char
  | '-' :: cs => (true, cs)
  | '+' :: cs => (false, cs)
  | cs => (false, cs)

/-- The whole number that a run of digits spells, if it is one and not empty. -/
def readDigits? (cs : List Char) : Option Nat :=
  if !cs.isEmpty && cs.all Char.isDigit then some (ofDigitValues (cs.map digitValue)) else none

/-- The power of ten that ends a numeral; it may be missing. -/
def readPower? : List Char → Option Int
  | [] => some 0
  | c :: cs =>
    if c = 'e' ∨ c = 'E' then
      (readDigits? (splitSign cs).2).map fun n => if (splitSign cs).1 then -(n : Int) else n
    else none

/-- The digits after a point and what follows them; no digits where there is no point. -/
def splitFraction : List Char → List Char × List Char
  | '.' :: cs => (cs.takeWhile Char.isDigit, cs.dropWhile Char.isDigit)
  | cs => ([], cs)

/-- Reads a numeral without a sign. -/
def readDecimal? (cs : List Char) : Option Decimal :=
  let whole := cs.takeWhile Char.isDigit
  let (fraction, rest) := splitFraction (cs.dropWhile Char.isDigit)
  if whole.isEmpty && fraction.isEmpty then none
  else (readPower? rest).map (Decimal.ofParts (whole.map digitValue) (fraction.map digitValue))

end Binisaya
