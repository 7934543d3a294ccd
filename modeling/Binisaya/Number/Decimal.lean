import Binisaya.Number.Binary

/-! Decimals and their nearest doubles. A decimal is a whole number of digits and a power of ten; reading it
rounds exactly once, whatever the number of digits. -/

namespace Binisaya

/-- A power of ten. -/
def tenPow (k : Nat) : Nat := Nat.pow 10 k

/-- The number `digits * 10 ^ exponent`. -/
structure Decimal where
  digits : Nat
  exponent : Int
deriving DecidableEq, Repr

/-- The digits of a whole number, most significant first. -/
def digitChars (n : Nat) : List Char := Nat.toDigits 10 n

/-- The value of an ASCII digit. -/
def digitValue (c : Char) : Nat := c.toNat - '0'.toNat

/-- The whole number that a run of digit values spells. -/
def ofDigitValues (ds : List Nat) : Nat := ds.foldl (fun n d => 10 * n + d) 0

/-- The decimal spelled by the digits before and after a point, times a power of ten. -/
def Decimal.ofParts (whole fraction : List Nat) (exponent : Int) : Decimal :=
  ⟨ofDigitValues (whole ++ fraction), exponent - fraction.length⟩

/-- The decimal as a fraction. -/
def Decimal.num (d : Decimal) : Nat := d.digits * tenPow d.exponent.toNat

def Decimal.den (d : Decimal) : Nat := tenPow (-d.exponent).toNat

/-- The decimal lies below this power of ten, and not below the one before unless it is zero. -/
def Decimal.top (d : Decimal) : Int := (digitChars d.digits).length + d.exponent

/-- The double nearest to a decimal. All of `10 ^ 310` and more is past the finite range and all below
`10 ^ (-330)` is nearer to zero than to any other double, so that no great power of ten is ever computed. -/
def Decimal.toFloat (negative : Bool) (d : Decimal) : Float :=
  if d.digits = 0 ∨ d.top < -330 then ofSignBits negative 0
  else if 310 < d.top then infinity negative
  else nearest negative d.num d.den

end Binisaya
