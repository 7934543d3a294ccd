import Binisaya.Proofs.Proper

/-! What operators answer. An operator of any name, applied to any values, gives a value of the language or an error of
the language, with one exception: an infinite number has no remainder, and where it is divided by a number other than
zero that is not an error of the language either. -/

namespace Binisaya

/-- The values that the language knows. -/
def Value.InLanguage : Value → Prop
  | .number _ | .text _ | .char _ | .nil => True
  | .absent | .flag _ => False

/-- A value of the language or an error of the language. -/
def Answers : Except Failure Value → Prop
  | .ok v => v.InLanguage
  | .error (.fault _) => True
  | .error (.defect _) => False

theorem Value.Proper.inLanguage {v : Value} (h : v.Proper) : v.InLanguage := by
  cases v with
  | number | text | char => trivial
  | nil | absent | flag => cases h

/-- An infinite number and one to divide it by that is neither a zero nor `NaN`. -/
def LacksRemainder (a b : Value) : Prop :=
  ∃ x y, a = .number x ∧ b = .number y ∧ magnitude x = .infinite ∧ magnitude y ≠ .nan ∧ (y == 0) = false

theorem eq_zero_of_ofBits {bits k : Nat} (h : Magnitude.ofBits bits = .finite 0 k) : bits = 0 := by
  have hbound : 0 < mantissaBound := by decide
  simp only [Magnitude.ofBits] at h
  split_ifs at h with htop hinf hfield
  · injection h with hstored
    rw [← Nat.div_add_mod bits mantissaBound, hfield, hstored, Nat.mul_zero, Nat.add_zero]
  · injection h with hmantissa
    omega

theorem eq_of_toBits {x y : Float} (h : x.toBits = y.toBits) : x = y := by
  obtain ⟨⟨a, ha⟩⟩ := x
  obtain ⟨⟨b, hb⟩⟩ := y
  obtain rfl : a = b := h
  rfl

/-- A double of no units is a zero. -/
theorem eq_zero_of_magnitude {y : Float} {k : Nat} (h : magnitude y = .finite 0 k) : (y == 0) = true := by
  have hbits : y.toBits.toNat % twoPow 63 = 0 := eq_zero_of_ofBits h
  have hrange : y.toBits.toNat < 2 * twoPow 63 := y.toBits.toNat_lt
  have hcases : y.toBits = 0 ∨ y.toBits = 9223372036854775808 := by
    have htwo : twoPow 63 = 9223372036854775808 := by decide
    rw [htwo] at hbits hrange
    rcases Nat.lt_or_ge y.toBits.toNat 9223372036854775808 with hlt | hge
    · exact .inl (UInt64.toNat_inj.1 (by rw [Nat.mod_eq_of_lt hlt] at hbits; simpa using hbits))
    · refine .inr (UInt64.toNat_inj.1 ?_)
      change y.toBits.toNat = 9223372036854775808
      omega
  rcases hcases with hplus | hminus
  · have hzero : (0 : Float).toBits = 0 := by decide +kernel
    rw [eq_of_toBits (hplus.trans hzero.symm)]
    decide +kernel
  · have hzero : (-0 : Float).toBits = 9223372036854775808 := by decide +kernel
    rw [eq_of_toBits (hminus.trans hzero.symm)]
    decide +kernel

theorem remainder?_eq_none_iff {x y : Float} (hy : (y == 0) = false) :
    remainder? x y = none ↔ magnitude x = .infinite ∧ magnitude y ≠ .nan := by
  cases hx : magnitude x with
  | nan => simp [remainder?, hx]
  | infinite => cases hm : magnitude y <;> simp [remainder?, hx, hm]
  | finite m k =>
      cases hm : magnitude y with
      | nan | infinite => simp [remainder?, hx, hm]
      | finite n l =>
          have hn : n ≠ 0 := by
            rintro rfl
            rw [eq_zero_of_magnitude hm] at hy
            cases hy
          simp [remainder?, hx, hm, hn]

theorem remainder_infiniteDividend_iff {x y : Float} : remainder x y = .error (.defect .infiniteDividend) ↔
    magnitude x = .infinite ∧ magnitude y ≠ .nan ∧ (y == 0) = false := by
  cases hy : y == 0 with
  | true => simp [remainder, hy]
  | false =>
      have hdefect : remainder x y = .error (.defect .infiniteDividend) ↔ remainder? x y = none := by
        rw [remainder, hy, if_neg Bool.false_ne_true]
        cases remainder? x y <;> simp
      rw [hdefect, remainder?_eq_none_iff hy]
      simp

theorem BinaryOp.symbol_of_ofSymbol? {symbol : String} {op : BinaryOp} (h : BinaryOp.ofSymbol? symbol = some op) :
    op.symbol = symbol := by
  unfold BinaryOp.ofSymbol? at h
  split at h <;> cases h <;> rfl

theorem onNumbers_defect {f : Float → Float → Except Failure Value} {a b : Value} {d : Defect}
    (h : onNumbers f a b = .error (.defect d)) : ∃ x y, a = .number x ∧ b = .number y ∧ f x y = .error (.defect d) := by
  unfold onNumbers at h
  split at h
  · exact ⟨_, _, rfl, rfl, h⟩
  · cases h

theorem BinaryOp.apply_infiniteDividend_iff {op : BinaryOp} {a b : Value} :
    op.apply a b = .error (.defect .infiniteDividend) ↔ op = .rem ∧ LacksRemainder a b := by
  constructor
  · intro h
    cases op with
    | concat | or | and | eq => cases h
    | ne =>
        simp only [BinaryOp.apply, unequal] at h
        split at h <;> cases h
    | add =>
        simp only [BinaryOp.apply, addValues] at h
        split at h <;> cases h
    | ge | le | gt | lt | sub | mul =>
        obtain ⟨x, y, _, _, hxy⟩ := onNumbers_defect h
        cases hxy
    | div =>
        obtain ⟨x, y, _, _, hxy⟩ := onNumbers_defect h
        unfold divide at hxy
        split at hxy <;> cases hxy
    | rem =>
        obtain ⟨x, y, ha, hb, hxy⟩ := onNumbers_defect h
        exact ⟨rfl, x, y, ha, hb, remainder_infiniteDividend_iff.1 hxy⟩
  · rintro ⟨rfl, x, y, rfl, rfl, hxy⟩
    exact remainder_infiniteDividend_iff.2 hxy

theorem evalBinary_infiniteDividend_iff {symbol : String} {a b : Value} :
    evalBinary symbol a b = .error (.defect .infiniteDividend) ↔ symbol = "%" ∧ LacksRemainder a b := by
  constructor
  · intro h
    unfold evalBinary at h
    cases hop : BinaryOp.ofSymbol? symbol with
    | none =>
        rw [hop] at h
        cases h
    | some op =>
        rw [hop] at h
        obtain ⟨rfl, hab⟩ := BinaryOp.apply_infiniteDividend_iff.1 h
        exact ⟨(BinaryOp.symbol_of_ofSymbol? hop).symm, hab⟩
  · rintro ⟨rfl, hab⟩
    have hop : BinaryOp.ofSymbol? "%" = some .rem := BinaryOp.ofSymbol?_symbol .rem
    rw [evalBinary, hop]
    exact BinaryOp.apply_infiniteDividend_iff.2 ⟨rfl, hab⟩

theorem evalUnary_answers (symbol : String) (a : Value) : Answers (evalUnary symbol a) := by
  unfold evalUnary
  cases UnaryOp.ofSymbol? symbol with
  | none => trivial
  | some op =>
      cases op with
      | not => trivial
      | minus | plus => cases a <;> trivial

theorem evalBinary_answers {symbol : String} {a b : Value} (h : ¬ (symbol = "%" ∧ LacksRemainder a b)) :
    Answers (evalBinary symbol a b) := by
  cases hop : BinaryOp.ofSymbol? symbol with
  | none =>
      rw [evalBinary, hop]
      trivial
  | some op =>
      have hsettled := settled_evalBinary hop a b
      cases hr : evalBinary symbol a b with
      | ok v =>
          rw [hr] at hsettled
          exact hsettled.inLanguage
      | error f =>
          rw [hr] at hsettled
          cases f with
          | fault f => trivial
          | defect d =>
              obtain rfl : d = .infiniteDividend := hsettled
              exact absurd (evalBinary_infiniteDividend_iff.1 hr) h

/-- **Operators answer.** Whatever its name and its operands, an operator gives a value or an error of the language,
except that `%` fails in another way on an infinite number and a number that is neither a zero nor `NaN`. -/
theorem operators_answer (symbol : String) (a b : Value) :
    Answers (evalUnary symbol a) ∧
      (symbol = "%" ∧ LacksRemainder a b ∧ evalBinary symbol a b = .error (.defect .infiniteDividend) ∨
        ¬ (symbol = "%" ∧ LacksRemainder a b) ∧ Answers (evalBinary symbol a b)) := by
  refine ⟨evalUnary_answers symbol a, ?_⟩
  by_cases h : symbol = "%" ∧ LacksRemainder a b
  · exact .inl ⟨h.1, h.2, evalBinary_infiniteDividend_iff.2 h⟩
  · exact .inr ⟨h, evalBinary_answers h⟩

/-- Infinity by two is such a case. -/
theorem infinite_remainder_unanswered :
    evalBinary "%" (.number (infinity false)) (.number 2) = .error (.defect .infiniteDividend) ∧
      ¬ ∀ symbol a b, Value.InLanguage a → Value.InLanguage b → Answers (evalBinary symbol a b) := by
  have h : evalBinary "%" (.number (infinity false)) (.number 2) = .error (.defect .infiniteDividend) := by
    decide +kernel
  refine ⟨h, fun hall => ?_⟩
  have hanswers := hall "%" (.number (infinity false)) (.number 2) trivial trivial
  rw [h] at hanswers
  exact hanswers

end Binisaya
