import Mathlib
import Binisaya.Number.Binary

/-! Doubles and their bits. A double is told by its sign and the bits below it, so that there are two infinities and one
double that is no number. What is known about the bits of doubles in general comes with the whole library only. -/

namespace Binisaya

/-- A double is made up of its sign and the bits below it. -/
theorem ofSignBits_self (x : Float) : ofSignBits (isNegative x) (x.toBits.toNat % twoPow 63) = x := by
  have hrange : x.toBits.toNat < 2 * twoPow 63 := x.toBits.toNat_lt
  have hbits : (if isNegative x then twoPow 63 else 0) + x.toBits.toNat % twoPow 63 = x.toBits.toNat := by
    cases hsign : isNegative x with
    | true =>
        have hle : twoPow 63 ≤ x.toBits.toNat := of_decide_eq_true hsign
        rw [if_pos rfl, Nat.mod_eq_sub_mod hle, Nat.mod_eq_of_lt (by omega)]
        omega
    | false =>
        have hlt : ¬ twoPow 63 ≤ x.toBits.toNat := of_decide_eq_false hsign
        rw [if_neg Bool.false_ne_true, Nat.mod_eq_of_lt (by omega), Nat.zero_add]
  rw [ofSignBits, hbits, UInt64.ofNat_toNat, Float.ofBits_toBits]

theorem eq_infinity_of_magnitude {x : Float} (h : magnitude x = .infinite) : x = infinity (isNegative x) := by
  have hbits : x.toBits.toNat % twoPow 63 = infinityBits := by
    have hsplit := Nat.div_add_mod (x.toBits.toNat % twoPow 63) mantissaBound
    simp only [magnitude, Magnitude.ofBits] at h
    split_ifs at h with htop hstored
    rw [htop, hstored] at hsplit
    rw [← hsplit, infinityBits, Nat.mul_comm, Nat.add_zero]
  rw [infinity, ← hbits, ofSignBits_self]

open Float.Model UnpackedFloat in
/-- There is one double that is no number. -/
theorem eq_notANumber_of_magnitude {x : Float} (h : magnitude x = .nan) : x = notANumber := by
  have hbound : mantissaBound = 4503599627370496 := by decide
  have h63 : twoPow 63 = 9223372036854775808 := by decide
  simp only [magnitude, Magnitude.ofBits, hbound, h63] at h
  split_ifs at h with htop hstored
  obtain ⟨⟨b, hvalid⟩⟩ := x
  have hexponent : @unpackExponent Format.binary64 b.toBitVec = -BitVec.ofNat Format.binary64.exponentBits 1 := by
    rw [unpackExponent_def, BitVec.toNat_eq, BitVec.extractLsb'_toNat, Nat.shiftRight_eq_div_pow]
    change b.toNat / 4503599627370496 % 2048 = 2047
    change b.toNat % 9223372036854775808 / 4503599627370496 = 2047 at htop
    omega
  have hmantissa : @unpackMantissa Format.binary64 b.toBitVec ≠
      BitVec.ofNat Format.binary64.mantissaBitsWithoutImplicit 0 := by
    rw [unpackMantissa_def, ne_eq, BitVec.toNat_eq, BitVec.extractLsb'_toNat, Nat.shiftRight_eq_div_pow]
    change ¬ b.toNat / 1 % 4503599627370496 = 0
    change ¬ b.toNat % 9223372036854775808 % 4503599627370496 = 0 at hstored
    omega
  have hnan := hvalid.eq_packedNaN hexponent hmantissa
  rw [← Float.toBits_inj]
  apply UInt64.toBitVec_inj.1
  rw [show Float.toBits ⟨⟨b, hvalid⟩⟩ = b from rfl, hnan]
  decide +kernel

end Binisaya
