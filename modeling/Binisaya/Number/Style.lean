import Binisaya.Number.Shortest
import Binisaya.Text.Blank

/-! How a double is written. The digits are those of the shortest decimal that reads back; a `NumberStyle` holds
what is left to choose. Between `10 ^ (-4)` and `10 ^ 16` the digits stand in place, elsewhere the first digit
is followed by a point and a power of ten with a sign and at least two digits. -/

namespace Binisaya

/-- The choices of a written form of doubles. -/
structure NumberStyle where
  /-- What follows a number that has no fraction and is written in place. -/
  whole : List Char
  infinity : List Char
  nan : List Char
deriving DecidableEq, Repr

/-- Numbers as the language prints them: a whole number has no point. -/
def NumberStyle.printed : NumberStyle := ⟨[], "Infinity".toList, "NaN".toList⟩

/-- Numbers as a stored program keeps them: a number with a point or a power of ten. -/
def NumberStyle.stored : NumberStyle := ⟨".0".toList, "Infinity".toList, "NaN".toList⟩

/-- Numbers as values are shown to other programs. -/
def NumberStyle.shown : NumberStyle := ⟨".0".toList, "inf".toList, "nan".toList⟩

/-- The digits without the zeros at their end. -/
def trimZeros (digits : List Char) : List Char := dropTrailing (· == '0') digits

/-- The digits in place, where the first one counts `10 ^ lead`. -/
def writeInPlace (whole digits : List Char) (lead : Int) : List Char :=
  if lead < 0 then '0' :: '.' :: (List.replicate (-lead - 1).toNat '0' ++ digits)
  else
    let places := lead.toNat + 1
    if digits.length ≤ places then digits ++ List.replicate (places - digits.length) '0' ++ whole
    else digits.take places ++ '.' :: digits.drop places

/-- A power of ten with its sign and at least two digits. -/
def writePower (power : Int) : List Char :=
  let digits := digitChars power.natAbs
  'e' :: (if power < 0 then '-' else '+') :: (if digits.length < 2 then '0' :: digits else digits)

/-- The digits with a point after the first, times a power of ten. -/
def writeScaled (digits : List Char) (lead : Int) : List Char :=
  match digits with
  | [] => []
  | [d] => d :: writePower lead
  | d :: ds => d :: '.' :: ds ++ writePower lead

/-- The text of a decimal that is not zero. -/
def NumberStyle.writeDecimal (style : NumberStyle) (d : Decimal) : List Char :=
  let digits := trimZeros (digitChars d.digits)
  let lead := d.top - 1
  if -4 ≤ lead ∧ lead < 16 then writeInPlace style.whole digits lead else writeScaled digits lead

/-- The text of a double. Only `NaN` has no sign. -/
def NumberStyle.writeChars (style : NumberStyle) (x : Float) : List Char :=
  let sign := if isNegative x then ['-'] else []
  match magnitude x with
  | .nan => style.nan
  | .infinite => sign ++ style.infinity
  | .finite 0 _ => sign ++ '0' :: style.whole
  | .finite mantissa scale => sign ++ style.writeDecimal (shortest mantissa scale)

def NumberStyle.write (style : NumberStyle) (x : Float) : String := .ofList (style.writeChars x)

end Binisaya
