/-! Doubles as exact numbers. Every finite double is a whole number of units of `2 ^ (-1074)`, so it is
opened up into a mantissa and a scale that count those units, and no signed exponent is needed. In the
other direction a fraction is rounded to the nearest double, ties going to the even mantissa; both
directions meet in `packBits`, where a mantissa that rounds up to `2 ^ 53` carries into the exponent field
by itself. -/

namespace Binisaya

/-- A power of two. -/
def twoPow (k : Nat) : Nat := Nat.pow 2 k

/-- What the bits of a double say about its size: `mantissa * 2 ^ scale` units of `2 ^ (-1074)`, an
infinity, or no number. -/
inductive Magnitude where
  | finite (mantissa scale : Nat)
  | infinite
  | nan
deriving DecidableEq, Repr

/-- The mantissa has 52 stored bits. -/
def mantissaBound : Nat := twoPow 52

/-- The bits, sign apart, of an infinity; smaller patterns are finite. -/
def infinityBits : Nat := 2047 * mantissaBound

/-- The bits of a size of `mantissa * 2 ^ scale` units, where the mantissa lies between `2 ^ 52` and
`2 ^ 53`, both included, or the scale is zero. -/
def packBits (mantissa scale : Nat) : Nat := scale * mantissaBound + mantissa

/-- The size that a bit pattern without its sign stands for. -/
def Magnitude.ofBits (bits : Nat) : Magnitude :=
  let field := bits / mantissaBound
  let stored := bits % mantissaBound
  if field = 2047 then (if stored = 0 then .infinite else .nan)
  else if field = 0 then .finite stored 0
  else .finite (mantissaBound + stored) (field - 1)

/-- The sign bit, which zeros carry too. -/
def isNegative (x : Float) : Bool := twoPow 63 ≤ x.toBits.toNat

def magnitude (x : Float) : Magnitude := .ofBits (x.toBits.toNat % twoPow 63)

/-- The double with a given sign and, below the sign, given bits. -/
def ofSignBits (negative : Bool) (bits : Nat) : Float :=
  .ofBits (.ofNat ((if negative then twoPow 63 else 0) + bits))

def infinity (negative : Bool) : Float := ofSignBits negative infinityBits

def notANumber : Float := ofSignBits false (infinityBits + mantissaBound / 2)

/-- The whole number nearest to a fraction, the even one of two that are equally near. -/
def roundDiv (num den : Nat) : Nat :=
  let quotient := num / den
  let rest := num % den
  if 2 * rest < den then quotient
  else if den < 2 * rest then quotient + 1
  else quotient + quotient % 2

/-- The bits of the double nearest to a fraction: the scale keeps 53 bits of the whole units, and all of
them where there are fewer. From half a step past the greatest finite double on this is the infinity. -/
def nearestBits (num den : Nat) : Nat :=
  let units := num * twoPow 1074
  let scale := (units / den).log2 - 52
  min (packBits (roundDiv units (den * twoPow scale)) scale) infinityBits

/-- The double nearest to a fraction, with a sign. -/
def nearest (negative : Bool) (num den : Nat) : Float := ofSignBits negative (nearestBits num den)

/-- The double nearest to a whole number; none beyond the finite range. -/
def ofInt? (n : Int) : Option Float :=
  let bits := nearestBits n.natAbs 1
  if bits = infinityBits then none else some (ofSignBits (n < 0) bits)

/-- The double nearest to a number of units of `2 ^ (-1074)`; it is that number if 53 bits hold it. -/
def ofUnits (negative : Bool) (units : Nat) : Float := nearest negative units (twoPow 1074)

end Binisaya
