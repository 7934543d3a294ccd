import Mathlib.Data.List.TakeWhile
import Mathlib.Tactic.IntervalCases
import Binisaya.Number.Numeral
import Binisaya.Number.Style
import Binisaya.Proofs.Number.Bits
import Binisaya.Proofs.Number.Rounding

/-! Numbers as texts. The text of a double is put together from digits before a point, digits behind it and a power of
ten, and the decimal that these parts spell is nearest to no other double. -/

namespace Binisaya

/-- A decimal that is nearest to a finite double is read as it. -/
theorem toFloat_of_magnitude {x : Float} {mantissa scale : Nat} (h : magnitude x = .finite mantissa scale)
    (hmantissa : mantissa ≠ 0) {d : Decimal} (hd : d.bits = packBits mantissa scale) :
    d.toFloat (isNegative x) = x := by
  obtain ⟨hcanonical, hpack⟩ := canonical_of_ofBits (Nat.mod_lt _ (twoPow_pos 63)) h
  rw [Decimal.toFloat_eq hcanonical hmantissa hd, hpack, ofSignBits_self]

theorem ofDigitValues_map (cs : List Char) : ofDigitValues (cs.map digitValue) = Nat.ofDigitChars 10 cs 0 := by
  rw [ofDigitValues, List.foldl_map]
  rfl

theorem isDigit_of_mem_digitChars {n : Nat} {c : Char} (h : c ∈ digitChars n) : c.isDigit = true :=
  Nat.isDigit_of_mem_toDigits (by decide) (by decide) h

/-- The digits of a number other than zero do not start with a zero. -/
theorem exists_digitChars_eq_cons {n : Nat} (hn : n ≠ 0) : ∃ c cs, digitChars n = c :: cs ∧ c ≠ '0' := by
  induction n using Nat.strongRecOn with
  | _ n ih =>
      rw [digitChars, Nat.toDigits_eq_if (by decide)]
      split_ifs with hlt
      · refine ⟨n.digitChar, [], rfl, ?_⟩
        interval_cases n <;> first | exact absurd rfl hn | decide
      · obtain ⟨c, cs, hcs, hc⟩ := ih (n / 10) (by omega) (by omega)
        rw [digitChars] at hcs
        exact ⟨c, cs ++ [(n % 10).digitChar], by rw [hcs]; rfl, hc⟩

theorem exists_trimZeros_append (l : List Char) : ∃ k, l = trimZeros l ++ List.replicate k '0' := by
  refine ⟨(l.reverse.takeWhile (· == '0')).length, ?_⟩
  have hzeros : l.reverse.takeWhile (· == '0') = List.replicate (l.reverse.takeWhile (· == '0')).length '0' := by
    rw [List.eq_replicate_iff]
    refine ⟨rfl, fun c hc => ?_⟩
    have hzero := List.mem_takeWhile_imp hc
    exact eq_of_beq hzero
  rw [trimZeros, dropTrailing, ← List.reverse_replicate, ← hzeros, ← List.reverse_append,
    List.takeWhile_append_dropWhile, List.reverse_reverse]

/-- What is left of the digits of a number without the zeros at their end. -/
theorem exists_trimZeros_digitChars {n : Nat} (hn : n ≠ 0) : ∃ c cs k, trimZeros (digitChars n) = c :: cs ∧ c ≠ '0' ∧
    (∀ d ∈ c :: cs, d.isDigit = true) ∧ n = Nat.ofDigitChars 10 (c :: cs) 0 * tenPow k ∧
    (digitChars n).length = (c :: cs).length + k := by
  obtain ⟨c, cs, hcs, hc⟩ := exists_digitChars_eq_cons hn
  obtain ⟨k, hk⟩ := exists_trimZeros_append (digitChars n)
  cases htrim : trimZeros (digitChars n) with
  | nil =>
      rw [htrim, List.nil_append, hcs] at hk
      have hzero : c ∈ List.replicate k '0' := hk ▸ List.mem_cons_self ..
      exact absurd (List.eq_of_mem_replicate hzero) hc
  | cons d ds =>
      rw [htrim] at hk
      have hhead : d = c := by
        rw [hcs] at hk
        exact (List.cons.inj hk).1.symm
      refine ⟨d, ds, k, rfl, hhead ▸ hc, fun e he => ?_, ?_, ?_⟩
      · apply @isDigit_of_mem_digitChars n
        rw [hk]
        exact List.mem_append_left _ he
      · have hvalue : Nat.ofDigitChars 10 (digitChars n) 0 = n := Nat.ofDigitChars_ten_toDigits
        rw [hk, Nat.ofDigitChars_append, Nat.ofDigitChars_replicate_zero, Nat.mul_comm] at hvalue
        exact hvalue.symm
      · rw [hk, List.length_append, List.length_replicate]

/-- A power of ten is written as a letter, a sign and digits that spell its size. -/
theorem exists_writePower_eq (power : Int) : ∃ digits, digits ≠ [] ∧ (∀ c ∈ digits, c.isDigit = true) ∧
    Nat.ofDigitChars 10 digits 0 = power.natAbs ∧
    writePower power = 'e' :: (if power < 0 then '-' else '+') :: digits := by
  have hne : digitChars power.natAbs ≠ [] := Nat.toDigits_ne_nil
  have hvalue : Nat.ofDigitChars 10 (digitChars power.natAbs) 0 = power.natAbs := Nat.ofDigitChars_ten_toDigits
  by_cases hshort : (digitChars power.natAbs).length < 2
  · refine ⟨'0' :: digitChars power.natAbs, List.cons_ne_nil _ _, ?_, ?_, by rw [writePower, if_pos hshort]⟩
    · exact List.forall_mem_cons.2 ⟨rfl, fun c hc => isDigit_of_mem_digitChars hc⟩
    · rw [Nat.ofDigitChars_cons]
      exact hvalue
  · exact ⟨digitChars power.natAbs, hne, fun c hc => isDigit_of_mem_digitChars hc, hvalue,
      by rw [writePower, if_neg hshort]⟩

/-- The parts of a numeral: digits before and behind the point, and a power of ten. -/
structure Numeral where
  whole : List Char
  fraction : List Char
  power : Option Int

namespace Numeral

/-- The text of a numeral. There is no point without digits behind it. -/
def text (n : Numeral) : List Char :=
  n.whole ++ ((if n.fraction = [] then [] else '.' :: n.fraction) ++ n.power.elim [] writePower)

/-- The decimal that a numeral spells. -/
def decimal (n : Numeral) : Decimal :=
  .ofParts (n.whole.map digitValue) (n.fraction.map digitValue) (n.power.getD 0)

/-- A numeral is made of digits, of which there is one before the point, and only a single zero starts it. -/
structure Proper (n : Numeral) : Prop where
  whole_ne : n.whole ≠ []
  whole_digits : ∀ c ∈ n.whole, c.isDigit = true
  fraction_digits : ∀ c ∈ n.fraction, c.isDigit = true
  leading : n.whole = ['0'] ∨ n.whole.head? ≠ some '0'

theorem decimal_eq (n : Numeral) :
    n.decimal = ⟨Nat.ofDigitChars 10 (n.whole ++ n.fraction) 0, n.power.getD 0 - n.fraction.length⟩ := by
  rw [decimal, Decimal.ofParts, ← List.map_append, ofDigitValues_map, List.length_map]

/-- What follows the digits before the point starts with no digit. -/
theorem isDigit_head {rest : List Char} (fraction : List Char) (h : ∀ c ∈ rest.head?, c.isDigit = false) :
    ∀ c ∈ ((if fraction = [] then [] else '.' :: fraction) ++ rest).head?, c.isDigit = false := by
  split_ifs with hnil
  · exact h
  · rintro c ⟨⟩
    rfl

end Numeral

theorem takeWhile_digits {digits rest : List Char} (hdigits : ∀ c ∈ digits, c.isDigit = true)
    (hrest : ∀ c ∈ rest.head?, c.isDigit = false) :
    (digits ++ rest).takeWhile Char.isDigit = digits ∧ (digits ++ rest).dropWhile Char.isDigit = rest := by
  rw [List.takeWhile_append_of_pos hdigits, List.dropWhile_append_of_pos hdigits]
  cases rest with
  | nil => exact ⟨List.append_nil _, rfl⟩
  | cons c cs =>
      have hc : ¬ c.isDigit = true := by rw [hrest c rfl]; exact Bool.false_ne_true
      rw [List.takeWhile_cons, if_neg hc, List.dropWhile_cons, if_neg hc, List.append_nil]
      exact ⟨rfl, rfl⟩

theorem splitFraction_append {fraction rest : List Char} (hdigits : ∀ c ∈ fraction, c.isDigit = true)
    (hrest : ∀ c ∈ rest.head?, c.isDigit = false ∧ c ≠ '.') :
    splitFraction ((if fraction = [] then [] else '.' :: fraction) ++ rest) = (fraction, rest) := by
  by_cases hnil : fraction = []
  · rw [if_pos hnil, List.nil_append, splitFraction, hnil]
    rintro cs rfl
    exact (hrest '.' rfl).2 rfl
  · obtain ⟨htake, hdrop⟩ := takeWhile_digits hdigits fun c hc => (hrest c hc).1
    rw [if_neg hnil, List.cons_append, splitFraction, htake, hdrop]

theorem splitSign_power (power : Int) (cs : List Char) :
    splitSign ((if power < 0 then '-' else '+') :: cs) = (decide (power < 0), cs) := by
  split_ifs with h <;> simp [splitSign, h]

theorem ite_natAbs (power : Int) : (if decide (power < 0) then -(power.natAbs : Int) else power.natAbs) = power := by
  split_ifs with h
  · have hlt := of_decide_eq_true h
    omega
  · have hge := of_decide_eq_false (Bool.eq_false_iff.2 h)
    omega

/-- The parts in which a decimal that is not zero is written. -/
def NumberStyle.numeral (style : NumberStyle) (d : Decimal) : Numeral :=
  let digits := trimZeros (digitChars d.digits)
  let lead := d.top - 1
  let places := lead.toNat + 1
  if -4 ≤ lead ∧ lead < 16 then
    if lead < 0 then ⟨['0'], List.replicate (-lead - 1).toNat '0' ++ digits, none⟩
    else if digits.length ≤ places then
      ⟨digits ++ List.replicate (places - digits.length) '0', style.whole.drop 1, none⟩
    else ⟨digits.take places, digits.drop places, none⟩
  else ⟨digits.take 1, digits.drop 1, some lead⟩

namespace NumberStyle

/-- A style puts nothing behind a whole number, or a point and a zero. -/
def MarksWhole (style : NumberStyle) : Prop := style.whole = [] ∨ style.whole = ['.', '0']

theorem writeDecimal_eq_text {style : NumberStyle} (hstyle : style.MarksWhole) {d : Decimal} (hd : d.digits ≠ 0) :
    style.writeDecimal d = (style.numeral d).text := by
  obtain ⟨c, cs, -, htrim, -⟩ := exists_trimZeros_digitChars hd
  rw [writeDecimal, numeral, htrim]
  split_ifs with hplace hlead hshort
  · simp [writeInPlace, hlead, Numeral.text]
  · rw [writeInPlace, if_neg hlead, if_pos hshort]
    rcases hstyle with hwhole | hwhole <;> simp [Numeral.text, hwhole]
  · have hdrop : (c :: cs).drop ((d.top - 1).toNat + 1) ≠ [] := by
      rw [ne_eq, List.drop_eq_nil_iff]
      exact hshort
    rw [writeInPlace, if_neg hlead, if_neg hshort]
    simp only [Numeral.text, if_neg hdrop, Option.elim_none, List.append_nil]
  · cases cs with
    | nil => rfl
    | cons e es => rfl

theorem numeral_proper {style : NumberStyle} (hstyle : style.MarksWhole) {d : Decimal} (hd : d.digits ≠ 0) :
    (style.numeral d).Proper := by
  obtain ⟨c, cs, -, htrim, hc, hdigits, -⟩ := exists_trimZeros_digitChars hd
  have hzeros {k : Nat} : ∀ e ∈ List.replicate k '0', e.isDigit = true := by
    intro e he
    rw [List.eq_of_mem_replicate he]
    rfl
  have hhead : some c ≠ some '0' := fun h => hc (Option.some.inj h)
  rw [numeral, htrim]
  split_ifs with hplace hlead hshort
  · exact ⟨List.cons_ne_nil _ _, List.forall_mem_singleton.2 rfl, List.forall_mem_append.2 ⟨hzeros, hdigits⟩, .inl rfl⟩
  · refine ⟨List.cons_ne_nil _ _, List.forall_mem_append.2 ⟨hdigits, hzeros⟩, ?_, .inr hhead⟩
    rcases hstyle with hwhole | hwhole <;> simp [hwhole]
  · exact ⟨List.cons_ne_nil _ _, fun e he => hdigits e (List.mem_of_mem_take he),
      fun e he => hdigits e (List.mem_of_mem_drop he), .inr hhead⟩
  · exact ⟨List.cons_ne_nil _ _, fun e he => hdigits e (List.mem_of_mem_take he),
      fun e he => hdigits e (List.mem_of_mem_drop he), .inr hhead⟩

/-- The parts of a written decimal spell that decimal. -/
theorem numeral_bits {style : NumberStyle} (hstyle : style.MarksWhole) {d : Decimal} (hd : d.digits ≠ 0) :
    (style.numeral d).decimal.bits = d.bits := by
  obtain ⟨c, cs, k, htrim, -, -, hvalue, hlength⟩ := exists_trimZeros_digitChars hd
  have hbits : d.bits = Decimal.bits ⟨Nat.ofDigitChars 10 (c :: cs) 0, d.top - (c :: cs).length⟩ := by
    have hexponent : d.top - (c :: cs).length = d.exponent + k := by
      rw [Decimal.top, hlength]
      omega
    rw [hexponent, ← Decimal.bits_shift, ← hvalue]
  rw [hbits, numeral, htrim]
  split_ifs with hplace hlead hshort
  · have hdigits : Nat.ofDigitChars 10 (['0'] ++ (List.replicate (-(d.top - 1) - 1).toNat '0' ++ c :: cs)) 0 =
        Nat.ofDigitChars 10 (c :: cs) 0 := by
      rw [Nat.ofDigitChars_append, Nat.ofDigitChars_append, Nat.ofDigitChars_replicate_zero]
      rfl
    rw [Numeral.decimal_eq, hdigits]
    congr 2
    simp only [List.length_append, List.length_replicate, Option.getD_none]
    omega
  · have hdigits (k l : Nat) : Nat.ofDigitChars 10 (c :: cs ++ List.replicate k '0' ++ List.replicate l '0') 0 =
        Nat.ofDigitChars 10 (c :: cs) 0 * tenPow (k + l) := by
      rw [Nat.ofDigitChars_append, Nat.ofDigitChars_append, Nat.ofDigitChars_replicate_zero,
        Nat.ofDigitChars_replicate_zero, Nat.add_comm, tenPow_add, Nat.mul_comm, Nat.mul_comm (10 ^ k), Nat.mul_assoc,
        Nat.mul_comm (tenPow l)]
      rfl
    obtain ⟨l, hl⟩ : ∃ l, style.whole.drop 1 = List.replicate l '0' := by
      rcases hstyle with hwhole | hwhole
      · exact ⟨0, by rw [hwhole]; rfl⟩
      · exact ⟨1, by rw [hwhole]; rfl⟩
    rw [Numeral.decimal_eq, hl, hdigits, Decimal.bits_shift, List.length_replicate]
    congr 2
    simp only [Option.getD_none]
    omega
  · rw [Numeral.decimal_eq, List.take_append_drop]
    congr 2
    simp only [List.length_drop, Option.getD_none]
    omega
  · rw [Numeral.decimal_eq, List.take_append_drop]
    congr 2
    simp only [List.length_drop, Option.getD_some, List.length_cons]
    omega

/-- A style that marks whole numbers writes a point or a power of ten in every number. -/
theorem numeral_marked {style : NumberStyle} (hstyle : style.whole = ['.', '0']) {d : Decimal} (hd : d.digits ≠ 0) :
    (style.numeral d).fraction ≠ [] ∨ (style.numeral d).power ≠ none := by
  obtain ⟨c, cs, -, htrim, -⟩ := exists_trimZeros_digitChars hd
  rw [numeral, htrim]
  split_ifs with hplace hlead hshort
  · exact .inl (List.append_ne_nil_of_right_ne_nil _ (List.cons_ne_nil c cs))
  · rw [hstyle]
    exact .inl (List.cons_ne_nil _ _)
  · left
    rw [ne_eq, List.drop_eq_nil_iff]
    exact hshort
  · exact .inr (Option.some_ne_none _)

/-- The text of a finite double is a sign and a numeral, and reading that numeral gives the double back. -/
theorem exists_writeChars_eq {style : NumberStyle} (hstyle : style.MarksWhole) {x : Float} {mantissa scale : Nat}
    (h : magnitude x = .finite mantissa scale) : ∃ n : Numeral, n.Proper ∧
      style.writeChars x = (if isNegative x then ['-'] else []) ++ n.text ∧ n.decimal.toFloat (isNegative x) = x ∧
      (style.whole = ['.', '0'] → n.fraction ≠ [] ∨ n.power ≠ none) := by
  obtain ⟨hcanonical, hpack⟩ := canonical_of_ofBits (Nat.mod_lt _ (twoPow_pos 63)) h
  cases mantissa with
  | zero =>
      have hscale : scale = 0 := hcanonical.normal.resolve_right (Nat.not_le.2 (twoPow_pos 52))
      have hzero : ofSignBits (isNegative x) 0 = x := by
        have hself := ofSignBits_self x
        rwa [← hpack, hscale] at hself
      have hwrite : style.writeChars x = (if isNegative x then ['-'] else []) ++ '0' :: style.whole := by
        simp only [writeChars, h]
      have hdigits (n : Numeral) (hn : n.decimal.digits = 0) : n.decimal.toFloat (isNegative x) = x := by
        rw [Decimal.toFloat, if_pos (.inl hn), hzero]
      rcases hstyle with hwhole | hwhole
      · refine ⟨⟨['0'], [], none⟩, ⟨by simp, by simp, by simp, .inl rfl⟩, ?_, hdigits _ rfl, ?_⟩
        · rw [hwrite, hwhole]
          rfl
        · rw [hwhole]
          exact fun hpoint => absurd hpoint.symm (List.cons_ne_nil _ _)
      · refine ⟨⟨['0'], ['0'], none⟩, ⟨by simp, by simp, by simp, .inl rfl⟩, ?_, hdigits _ rfl, ?_⟩
        · rw [hwrite, hwhole]
          rfl
        · exact fun _ => .inl (List.cons_ne_nil _ _)
  | succ m =>
      have hbits := shortest_bits hcanonical
      have hdigits : (shortest (m + 1) scale).digits ≠ 0 :=
        Decimal.digits_ne_zero_of_bits (hbits ▸ packBits_ne_zero (Nat.succ_ne_zero m) scale)
      refine ⟨style.numeral (shortest (m + 1) scale), numeral_proper hstyle hdigits, ?_, ?_,
        fun hwhole => numeral_marked hwhole hdigits⟩
      · rw [← writeDecimal_eq_text hstyle hdigits]
        simp only [writeChars, h]
      · exact toFloat_of_magnitude h (Nat.succ_ne_zero m) ((numeral_bits hstyle hdigits).trans hbits)

end NumberStyle

end Binisaya
