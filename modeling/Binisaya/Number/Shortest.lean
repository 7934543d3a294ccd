import Binisaya.Number.Decimal

/-! The shortest decimal of a double: of all decimals that read back as it, one with the fewest digits, and
of these the nearest. For each number of digits only the two neighbours of the double on the grid of such
decimals need to be tried, the nearer one first. -/

namespace Binisaya

/-- Tells that a decimal reads back as the double of `mantissa * 2 ^ scale` units. -/
def Decimal.readsBack (mantissa scale : Nat) (d : Decimal) : Bool :=
  nearestBits d.num d.den = packBits mantissa scale

/-- The power of ten of the first digit of a fraction that is not zero. -/
def leadingPower (num den : Nat) : Int :=
  if den ≤ num then ((digitChars (num / den)).length : Int) - 1
  else -((digitChars ((den - 1) / num)).length : Int)

/-- The two whole multiples of `10 ^ power` around a fraction, the nearer one first, of two that are equally
near the even one. -/
def gridNeighbours (num den : Nat) (power : Int) : List Decimal :=
  let num := num * tenPow (-power).toNat
  let den := den * tenPow power.toNat
  let below := num / den
  let rest := num % den
  if 2 * rest < den ∨ (2 * rest = den ∧ below % 2 = 0) then [⟨below, power⟩, ⟨below + 1, power⟩]
  else [⟨below + 1, power⟩, ⟨below, power⟩]

/-- All digits of `units` units of `2 ^ (-1074)`. -/
def exactDecimal (units : Nat) : Decimal := ⟨units * Nat.pow 5 1074, -1074⟩

/-- The shortest decimal that reads back as the double of `mantissa * 2 ^ scale` units, which are not zero.
Seventeen digits always do; the full expansion stands for the case that none is found. -/
def shortest (mantissa scale : Nat) : Decimal :=
  let units := mantissa * twoPow scale
  let lead := leadingPower units (twoPow 1074)
  let found := (List.range 17).findSome? fun (i : Nat) =>
    (gridNeighbours units (twoPow 1074) (lead - i)).find? (Decimal.readsBack mantissa scale)
  found.getD (exactDecimal units)

end Binisaya
