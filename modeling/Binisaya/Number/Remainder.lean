import Binisaya.Number.Binary

/-! The remainder of two doubles. It is exact: both are whole numbers of the same small unit, and the
remainder of these whole numbers is again few enough bits to be a double. -/

namespace Binisaya

/-- The remainder of a division that is rounded towards zero, so that it has the dividend's sign, also
when it is zero. A finite dividend is its own remainder by an infinity. There is none for an infinite
dividend or a zero divisor. -/
def remainder? (x y : Float) : Option Float :=
  match magnitude x, magnitude y with
  | .nan, _ => some notANumber
  | _, .nan => some notANumber
  | .infinite, _ => none
  | .finite _ _, .infinite => some x
  | .finite m k, .finite n l =>
    if n = 0 then none else some (ofUnits (isNegative x) ((m * twoPow k) % (n * twoPow l)))

end Binisaya
