import Mathlib.Tactic.Ring
import Binisaya.Number.Shortest

/-! Decimals and the doubles nearest to them. What is nearest to a fraction depends on nothing but its value, and the
shortest decimal of a double reads back as that double. -/

namespace Binisaya

theorem twoPow_pos (k : Nat) : 0 < twoPow k := Nat.pow_pos (by decide)

theorem tenPow_pos (k : Nat) : 0 < tenPow k := Nat.pow_pos (by decide)

theorem tenPow_add (j k : Nat) : tenPow (j + k) = tenPow j * tenPow k := Nat.pow_add 10 j k

theorem tenPow_eq (k : Nat) : tenPow k = Nat.pow 5 k * twoPow k := Nat.mul_pow 5 2 k

theorem tenPow_le_tenPow {j k : Nat} (h : j ≤ k) : tenPow j ≤ tenPow k := Nat.pow_le_pow_right (by decide) h

theorem twoPow_le_twoPow {j k : Nat} (h : j ≤ k) : twoPow j ≤ twoPow k := Nat.pow_le_pow_right (by decide) h

theorem le_log2_of_twoPow_le {n k : Nat} (h : twoPow k ≤ n) : k ≤ n.log2 :=
  (Nat.le_log2 (Nat.lt_of_lt_of_le (twoPow_pos k) h).ne').2 h

theorem roundDiv_mul_left {k : Nat} (hk : 0 < k) (num den : Nat) : roundDiv (k * num) (k * den) = roundDiv num den := by
  have hbelow : 2 * (k * (num % den)) < k * den ↔ 2 * (num % den) < den := by
    rw [Nat.mul_left_comm]
    exact Nat.mul_lt_mul_left hk
  have habove : k * den < 2 * (k * (num % den)) ↔ den < 2 * (num % den) := by
    rw [Nat.mul_left_comm]
    exact Nat.mul_lt_mul_left hk
  simp only [roundDiv, Nat.mul_div_mul_left _ _ hk, Nat.mul_mod_mul_left, hbelow, habove]

theorem nearestBits_mul_left {k : Nat} (hk : 0 < k) (num den : Nat) :
    nearestBits (k * num) (k * den) = nearestBits num den := by
  simp only [nearestBits, Nat.mul_assoc k, Nat.mul_div_mul_left _ _ hk, roundDiv_mul_left hk]

/-- Two ways to write a fraction have the same nearest double. -/
theorem nearestBits_congr {num den num' den' : Nat} (hden : 0 < den) (hden' : 0 < den')
    (h : num * den' = num' * den) : nearestBits num den = nearestBits num' den' := by
  calc nearestBits num den
      = nearestBits (den' * num) (den' * den) := (nearestBits_mul_left hden' num den).symm
    _ = nearestBits (den * num') (den * den') := by rw [Nat.mul_comm den' num, h, Nat.mul_comm num', Nat.mul_comm den']
    _ = nearestBits num' den' := nearestBits_mul_left hden num' den'

/-- A fraction that is less than half of the least double is nearest to zero. -/
theorem nearestBits_eq_zero {num den : Nat} (h : 2 * (num * twoPow 1074) < den) : nearestBits num den = 0 := by
  have hunits : num * twoPow 1074 < den := by omega
  have hround : roundDiv (num * twoPow 1074) (den * twoPow 0) = 0 := by
    rw [show twoPow 0 = 1 from rfl, Nat.mul_one, roundDiv, Nat.div_eq_of_lt hunits, Nat.mod_eq_of_lt hunits, if_pos h]
  simp only [nearestBits, Nat.div_eq_of_lt hunits]
  rw [show Nat.log2 0 - 52 = 0 from rfl, hround]
  rfl

/-- A fraction past the greatest double is nearest to infinity. -/
theorem nearestBits_eq_infinityBits {num den : Nat} (hden : 0 < den) (h : den * tenPow 310 ≤ num) :
    nearestBits num den = infinityBits := by
  have hunits : twoPow 2099 ≤ num * twoPow 1074 / den := by
    rw [Nat.le_div_iff_mul_le hden]
    calc twoPow 2099 * den ≤ (tenPow 310 * twoPow 1074) * den := Nat.mul_le_mul_right den (by decide +kernel)
      _ = den * tenPow 310 * twoPow 1074 := by ring
      _ ≤ num * twoPow 1074 := Nat.mul_le_mul_right _ h
  have hlog : 2099 ≤ (num * twoPow 1074 / den).log2 := le_log2_of_twoPow_le hunits
  have hscale : 2047 * mantissaBound ≤ ((num * twoPow 1074 / den).log2 - 52) * mantissaBound :=
    Nat.mul_le_mul_right mantissaBound (by omega)
  simp only [nearestBits, packBits]
  exact Nat.min_eq_right (Nat.le_trans hscale (Nat.le_add_right _ _))

/-- What is more than half a step below a whole number is not rounded to it. -/
theorem roundDiv_lt {num den k : Nat} (h : 2 * num + den < 2 * k * den) : roundDiv num den < k := by
  have hsplit := Nat.div_add_mod num den
  have hquotient : num / den < k := by
    by_contra hle
    have hmul : den * k ≤ den * (num / den) := Nat.mul_le_mul_left den (not_lt.1 hle)
    have hcomm : 2 * k * den = 2 * (den * k) := by ring
    omega
  simp only [roundDiv]
  by_cases hlast : num / den + 1 = k
  · have hrest : 2 * (num % den) < den := by
      have hcomm : 2 * k * den = 2 * (den * (num / den)) + 2 * den := by rw [← hlast]; ring
      omega
    rw [if_pos hrest]
    exact hquotient
  · split_ifs <;> omega

/-- The least whole number that is nearest to an infinity: half a step past the greatest finite double. -/
def wholeLimit : Nat := twoPow 1024 - twoPow 970

/-- A whole number below the limit is nearest to a finite double. -/
theorem nearestBits_lt_infinityBits {n : Nat} (h : n < wholeLimit) : nearestBits n 1 < infinityBits := by
  have hunits : n * twoPow 1074 < twoPow 2098 - twoPow 2044 := by
    calc n * twoPow 1074 < wholeLimit * twoPow 1074 := Nat.mul_lt_mul_of_pos_right h (twoPow_pos 1074)
      _ = twoPow 2098 - twoPow 2044 := by decide +kernel
  simp only [nearestBits, Nat.div_one, Nat.one_mul]
  apply Nat.lt_of_le_of_lt (Nat.min_le_left _ _)
  generalize n * twoPow 1074 = units at hunits
  have hlog : units < twoPow (units.log2 + 1) := Nat.lt_log2_self
  have hscale : units.log2 - 52 ≤ 2045 := by
    by_contra hlarge
    have hle : twoPow 2098 ≤ twoPow units.log2 := twoPow_le_twoPow (by omega)
    have hself : twoPow units.log2 ≤ units := Nat.log2_self_le (by rintro rfl; exact hlarge (by decide))
    omega
  have hden := twoPow_pos (units.log2 - 52)
  unfold packBits infinityBits
  rcases Nat.lt_or_eq_of_le hscale with hbelow | htop
  · have hround : roundDiv units (twoPow (units.log2 - 52)) < 2 * mantissaBound + 1 := by
      apply roundDiv_lt
      have hfits : units < 2 * mantissaBound * twoPow (units.log2 - 52) := by
        calc units < twoPow (units.log2 + 1) := hlog
          _ ≤ twoPow (53 + (units.log2 - 52)) := twoPow_le_twoPow (by omega)
          _ = 2 * mantissaBound * twoPow (units.log2 - 52) := Nat.pow_add 2 53 _
      calc 2 * units + twoPow (units.log2 - 52)
          < 2 * (2 * mantissaBound * twoPow (units.log2 - 52)) + 2 * twoPow (units.log2 - 52) := by omega
        _ = 2 * (2 * mantissaBound + 1) * twoPow (units.log2 - 52) := by ring
    have hmul : (units.log2 - 52) * mantissaBound ≤ 2044 * mantissaBound := Nat.mul_le_mul_right _ (by omega)
    have hpos : 0 < mantissaBound := twoPow_pos 52
    omega
  · -- At the greatest scale there is one mantissa more than for finite doubles, and rounding does not reach it.
    have hround : roundDiv units (twoPow 2045) < 2 * mantissaBound := by
      apply roundDiv_lt
      calc 2 * units + twoPow 2045 < 2 * (twoPow 2098 - twoPow 2044) + twoPow 2045 := by omega
        _ = 2 * (2 * mantissaBound) * twoPow 2045 := by decide +kernel
    rw [htop]
    omega

/-- A whole number has a nearest double if it is below the limit. -/
theorem exists_ofInt?_eq {n : Int} (h : n.natAbs < wholeLimit) : ∃ x, ofInt? n = some x := by
  simp only [ofInt?, if_neg (nearestBits_lt_infinityBits h).ne, Option.some.injEq, exists_eq']

theorem packBits_ne_zero {mantissa : Nat} (h : mantissa ≠ 0) (scale : Nat) : packBits mantissa scale ≠ 0 := by
  rw [packBits]
  omega

/-- A mantissa and a scale as they are found in the bits of a finite double. -/
structure Canonical (mantissa scale : Nat) : Prop where
  lt : mantissa < twoPow 53
  normal : scale = 0 ∨ twoPow 52 ≤ mantissa
  finite : packBits mantissa scale < infinityBits

theorem canonical_of_ofBits {bits mantissa scale : Nat} (hbits : bits < twoPow 63)
    (h : Magnitude.ofBits bits = .finite mantissa scale) :
    Canonical mantissa scale ∧ packBits mantissa scale = bits := by
  have hbound : mantissaBound = 4503599627370496 := by decide
  have hinfinity : infinityBits = 9218868437227405312 := by decide
  have h53 : twoPow 53 = 9007199254740992 := by decide
  have h52 : twoPow 52 = 4503599627370496 := by decide
  have h63 : twoPow 63 = 9223372036854775808 := by decide
  rw [h63] at hbits
  simp only [Magnitude.ofBits, hbound] at h
  split_ifs at h with htop hinf hfield
  · injection h with hmantissa hscale
    have hpack : packBits mantissa scale = bits := by
      rw [packBits, hbound]
      omega
    exact ⟨⟨by omega, .inl hscale.symm, by omega⟩, hpack⟩
  · injection h with hmantissa hscale
    have hpack : packBits mantissa scale = bits := by
      rw [packBits, hbound]
      omega
    exact ⟨⟨by omega, .inr (by omega), by omega⟩, hpack⟩

/-- The scale that rounding chooses for a canonical number of units is its own. -/
theorem log2_units {mantissa scale : Nat} (h : Canonical mantissa scale) :
    (mantissa * twoPow scale).log2 - 52 = scale := by
  rcases h.normal with rfl | hnormal
  · have hlog : mantissa.log2 ≤ 52 := by
      by_cases hzero : mantissa = 0
      · rw [hzero]
        decide
      · exact Nat.le_of_lt_succ ((Nat.log2_lt hzero).2 h.lt)
    rw [show twoPow 0 = 1 from rfl, Nat.mul_one]
    omega
  · have hlow : 2 ^ (52 + scale) ≤ mantissa * twoPow scale := by
      rw [Nat.pow_add]
      exact Nat.mul_le_mul_right _ hnormal
    have hhigh : mantissa * twoPow scale < 2 ^ (52 + scale + 1) := by
      rw [Nat.add_right_comm, Nat.pow_add]
      exact Nat.mul_lt_mul_of_pos_right h.lt (twoPow_pos scale)
    have hne : mantissa * twoPow scale ≠ 0 := (Nat.lt_of_lt_of_le (Nat.two_pow_pos _) hlow).ne'
    rw [(Nat.log2_eq_iff hne).2 ⟨hlow, hhigh⟩, Nat.add_sub_cancel_left]

theorem nearestBits_units {mantissa scale : Nat} (h : Canonical mantissa scale) :
    nearestBits (mantissa * twoPow scale) (twoPow 1074) = packBits mantissa scale := by
  have hdiv : mantissa * twoPow scale * twoPow 1074 / twoPow 1074 = mantissa * twoPow scale :=
    Nat.mul_div_cancel _ (twoPow_pos 1074)
  have hround : roundDiv (mantissa * twoPow scale * twoPow 1074) (twoPow 1074 * twoPow scale) = mantissa := by
    rw [Nat.mul_comm _ (twoPow 1074), roundDiv_mul_left (twoPow_pos 1074), Nat.mul_comm, roundDiv,
      Nat.mul_div_cancel_left _ (twoPow_pos scale), Nat.mul_mod_right, if_pos (twoPow_pos scale)]
  simp only [nearestBits, hdiv, log2_units h, hround]
  exact Nat.min_eq_left (Nat.le_of_lt h.finite)

namespace Decimal

theorem den_pos (d : Decimal) : 0 < d.den := tenPow_pos _

/-- The bits, sign apart, of the double nearest to a decimal. -/
def bits (d : Decimal) : Nat := nearestBits d.num d.den

/-- Zeros at the end of the digits can be taken into the power of ten. -/
theorem bits_shift (digits k : Nat) (exponent : Int) :
    bits ⟨digits * tenPow k, exponent⟩ = bits ⟨digits, exponent + k⟩ := by
  apply nearestBits_congr (den_pos _) (den_pos _)
  have hpowers : k + exponent.toNat + (-(exponent + k)).toNat = (exponent + k).toNat + (-exponent).toNat := by omega
  simp only [num, den]
  calc digits * tenPow k * tenPow exponent.toNat * tenPow (-(exponent + k)).toNat
      = digits * tenPow (k + exponent.toNat + (-(exponent + k)).toNat) := by
        rw [tenPow_add, tenPow_add, Nat.mul_assoc, Nat.mul_assoc, Nat.mul_assoc]
    _ = digits * tenPow (exponent + k).toNat * tenPow (-exponent).toNat := by
        rw [hpowers, tenPow_add, Nat.mul_assoc]

theorem digits_lt_tenPow (n : Nat) : n < tenPow (digitChars n).length :=
  (Nat.length_toDigits_le_iff (by decide) Nat.length_toDigits_pos).1 (Nat.le_refl _)

theorem tenPow_le_digits {n : Nat} (hn : n ≠ 0) : tenPow ((digitChars n).length - 1) ≤ n := by
  by_cases hone : (digitChars n).length - 1 = 0
  · rw [hone]
    exact Nat.pos_of_ne_zero hn
  · by_contra hlt
    have hle := (Nat.length_toDigits_le_iff (by decide) (Nat.pos_of_ne_zero hone)).2 (Nat.lt_of_not_le hlt)
    have hpos : 0 < (digitChars n).length := Nat.length_toDigits_pos
    exact absurd hle (by change ¬ (digitChars n).length ≤ _; omega)

/-- A decimal that lies deep enough is nearest to zero. -/
theorem bits_of_top_low {d : Decimal} (h : d.top < -330) : d.bits = 0 := by
  apply nearestBits_eq_zero
  have hdigits := digits_lt_tenPow d.digits
  have hexponent : d.exponent.toNat = 0 := by
    rw [top] at h
    omega
  have hden : tenPow (digitChars d.digits).length * tenPow 330 ≤ d.den := by
    rw [den, ← tenPow_add]
    apply tenPow_le_tenPow
    rw [top] at h
    omega
  rw [num, hexponent, show tenPow 0 = 1 from rfl, Nat.mul_one]
  calc 2 * (d.digits * twoPow 1074) = d.digits * (2 * twoPow 1074) := by ring
    _ ≤ d.digits * tenPow 330 := Nat.mul_le_mul_left _ (by decide +kernel)
    _ < tenPow (digitChars d.digits).length * tenPow 330 := Nat.mul_lt_mul_of_pos_right hdigits (tenPow_pos 330)
    _ ≤ d.den := hden

/-- A decimal that lies high enough is nearest to infinity. -/
theorem bits_of_top_high {d : Decimal} (hdigits : d.digits ≠ 0) (h : 310 < d.top) : d.bits = infinityBits := by
  apply nearestBits_eq_infinityBits d.den_pos
  have hlow := tenPow_le_digits hdigits
  have hpos : 0 < (digitChars d.digits).length := Nat.length_toDigits_pos
  rw [top] at h
  rw [num, den, ← tenPow_add]
  calc tenPow ((-d.exponent).toNat + 310)
      ≤ tenPow ((digitChars d.digits).length - 1 + d.exponent.toNat) := tenPow_le_tenPow (by omega)
    _ = tenPow ((digitChars d.digits).length - 1) * tenPow d.exponent.toNat := tenPow_add _ _
    _ ≤ d.digits * tenPow d.exponent.toNat := Nat.mul_le_mul_right _ hlow

theorem digits_ne_zero_of_bits {d : Decimal} (h : d.bits ≠ 0) : d.digits ≠ 0 := by
  intro hzero
  have hnum : d.num = 0 := by rw [num, hzero, Nat.zero_mul]
  rw [bits, hnum, nearestBits_eq_zero (by simpa using d.den_pos)] at h
  exact h rfl

/-- The bounds past which no power of ten is computed never change what a decimal is read as. -/
theorem toFloat_eq {d : Decimal} {mantissa scale : Nat} (h : Canonical mantissa scale) (hmantissa : mantissa ≠ 0)
    (hd : d.bits = packBits mantissa scale) (negative : Bool) :
    d.toFloat negative = ofSignBits negative (packBits mantissa scale) := by
  have hne := packBits_ne_zero hmantissa scale
  have hdigits : d.digits ≠ 0 := digits_ne_zero_of_bits (hd ▸ hne)
  have hlow : ¬ d.top < -330 := fun htop => hne (hd.symm.trans (bits_of_top_low htop))
  have hhigh : ¬ 310 < d.top := by
    intro htop
    have hfinite := h.finite
    rw [← hd, bits_of_top_high hdigits htop] at hfinite
    exact Nat.lt_irrefl _ hfinite
  rw [toFloat, if_neg (not_or.2 ⟨hdigits, hlow⟩), if_neg hhigh, nearest, ← bits, hd]

end Decimal

theorem nearestBits_fives (units k : Nat) :
    nearestBits (units * Nat.pow 5 k) (tenPow k) = nearestBits units (twoPow k) :=
  nearestBits_congr (tenPow_pos k) (twoPow_pos k) (by rw [tenPow_eq, Nat.mul_assoc])

theorem exactDecimal_bits {mantissa scale : Nat} (h : Canonical mantissa scale) :
    (exactDecimal (mantissa * twoPow scale)).bits = packBits mantissa scale := by
  -- the power of five has a name here because nothing should try to compute it
  obtain ⟨k, hk⟩ : ∃ k, 1074 = k := ⟨1074, rfl⟩
  have hnum (units : Nat) : (exactDecimal units).num = units * Nat.pow 5 k := by
    rw [exactDecimal, Decimal.num, hk]
    exact Nat.mul_one _
  have hden (units : Nat) : (exactDecimal units).den = tenPow k := hk ▸ rfl
  rw [Decimal.bits, hnum, hden, nearestBits_fives, ← hk, nearestBits_units h]

/-- The shortest decimal of a double reads back as that double. -/
theorem shortest_bits {mantissa scale : Nat} (h : Canonical mantissa scale) :
    (shortest mantissa scale).bits = packBits mantissa scale := by
  rw [shortest]
  cases hfound : (List.range 17).findSome? fun (i : Nat) =>
      (gridNeighbours (mantissa * twoPow scale) (twoPow 1074)
        (leadingPower (mantissa * twoPow scale) (twoPow 1074) - i)).find? (Decimal.readsBack mantissa scale) with
  | none => exact exactDecimal_bits h
  | some d =>
      obtain ⟨i, -, hi⟩ := List.exists_of_findSome?_eq_some hfound
      have hreads : d.readsBack mantissa scale = true := List.find?_some hi
      simpa only [Option.getD_some, Decimal.bits, Decimal.readsBack, decide_eq_true_eq] using hreads

end Binisaya
