import Binisaya.Field
import Binisaya.Proofs.Number.Numerals
import Binisaya.Proofs.Source.Scanning

/-! The syntax of typed numbers. A `TypedNumber` is put together from the parts that a number may have when a user types
it, so that there is none that is not well formed; its text and its value are read off the parts. Exactly these texts
are read, each of the steps in which they are read finds what the step before it promises, and reading them in one go
gives the same. -/

namespace Binisaya

/-- A sign, which may be missing. -/
inductive SignMark where
  | absent
  | plus
  | minus
deriving DecidableEq

def SignMark.text : SignMark → List Char
  | absent => []
  | plus => ['+']
  | minus => ['-']

def SignMark.negative : SignMark → Bool
  | absent => false
  | plus => false
  | minus => true

/-- A power of ten as it is typed: a small or capital letter, perhaps a sign, and digits. -/
structure TypedPower where
  capital : Bool
  sign : SignMark
  digits : List Char
  digits_ne : digits ≠ []
  isDigit_digits : ∀ c ∈ digits, c.isDigit = true

namespace TypedPower

def text (p : TypedPower) : List Char := (if p.capital then 'E' else 'e') :: (p.sign.text ++ p.digits)

def exponent (p : TypedPower) : Int :=
  if p.sign.negative then -(ofDigitValues (p.digits.map digitValue) : Int) else ofDigitValues (p.digits.map digitValue)

end TypedPower

/-- A numeral as it is typed: digits, perhaps a point with or without digits behind it, and perhaps a power of ten.
There is a digit before or behind the point. -/
structure TypedNumeral where
  whole : List Char
  fraction : Option (List Char)
  power : Option TypedPower
  isDigit_whole : ∀ c ∈ whole, c.isDigit = true
  isDigit_fraction : ∀ c ∈ fraction.getD [], c.isDigit = true
  digits_ne : whole ≠ [] ∨ fraction.getD [] ≠ []

namespace TypedNumeral

/-- What follows the digits before the point. -/
def behind (n : TypedNumeral) : List Char := n.fraction.elim [] ('.' :: ·) ++ n.power.elim [] TypedPower.text

def text (n : TypedNumeral) : List Char := n.whole ++ n.behind

def decimal (n : TypedNumeral) : Decimal :=
  .ofParts (n.whole.map digitValue) ((n.fraction.getD []).map digitValue) (n.power.elim 0 TypedPower.exponent)

end TypedNumeral

/-- A number without its sign: one of two words or a numeral. -/
inductive TypedMagnitude where
  | nan
  | infinity
  | numeral (n : TypedNumeral)

def TypedMagnitude.text : TypedMagnitude → List Char
  | nan => "NaN".toList
  | infinity => "Infinity".toList
  | numeral n => n.text

theorem TypedMagnitude.text_numeral (n : TypedNumeral) : (numeral n).text = n.text := rfl

/-- The double that a number with a sign stands for. What is no number has no sign. -/
def TypedMagnitude.value (negative : Bool) : TypedMagnitude → Float
  | nan => notANumber
  | infinity => Binisaya.infinity negative
  | numeral n => n.decimal.toFloat negative

/-- A number as a user may type it: perhaps a sign, a word or a numeral, and perhaps one letter behind it. -/
structure TypedNumber where
  sign : SignMark
  magnitude : TypedMagnitude
  suffix : Option Char
  isNumberSuffix_suffix : ∀ c ∈ suffix, isNumberSuffix c = true

namespace TypedNumber

/-- The text without the letter at its end. -/
def bareText (n : TypedNumber) : List Char := n.sign.text ++ n.magnitude.text

def text (n : TypedNumber) : List Char := n.bareText ++ n.suffix.toList

def value (n : TypedNumber) : Float := n.magnitude.value n.sign.negative

/-- The number typed without a letter. -/
def bare (n : TypedNumber) : TypedNumber := ⟨n.sign, n.magnitude, none, fun _ hc => by cases hc⟩

theorem bare_text (n : TypedNumber) : n.bare.text = n.bareText := List.append_nil _

end TypedNumber

/-- What starts with neither of the signs is taken as it is. -/
theorem splitSign_of_head {cs : List Char} (hminus : cs.head? ≠ some '-') (hplus : cs.head? ≠ some '+') :
    splitSign cs = (false, cs) := by
  unfold splitSign
  split
  · exact absurd rfl hminus
  · exact absurd rfl hplus
  · rfl

theorem splitSign_text (s : SignMark) {cs : List Char} (hminus : cs.head? ≠ some '-') (hplus : cs.head? ≠ some '+') :
    splitSign (s.text ++ cs) = (s.negative, cs) := by
  cases s with
  | absent => exact splitSign_of_head hminus hplus
  | plus => rfl
  | minus => rfl

theorem exists_splitSign_eq (cs : List Char) : ∃ s : SignMark, cs = s.text ++ (splitSign cs).2 := by
  unfold splitSign
  split
  · exact ⟨.minus, rfl⟩
  · exact ⟨.plus, rfl⟩
  · exact ⟨.absent, rfl⟩

theorem readDigits?_eq_some_iff {cs : List Char} {n : Nat} : readDigits? cs = some n ↔
    cs ≠ [] ∧ (∀ c ∈ cs, c.isDigit = true) ∧ ofDigitValues (cs.map digitValue) = n := by
  simp only [readDigits?, Option.ite_none_right_eq_some, Bool.and_eq_true, Bool.not_eq_true', List.isEmpty_eq_false_iff,
    List.all_eq_true, Option.some.injEq, and_assoc]

theorem head?_digits_ne {digits : List Char} (h : ∀ c ∈ digits, c.isDigit = true) {d : Char} (hd : d.isDigit = false) :
    digits.head? ≠ some d := by
  intro hhead
  rw [h d (List.mem_of_mem_head? hhead)] at hd
  cases hd

theorem readPower?_text (p : TypedPower) : readPower? p.text = some p.exponent := by
  have hletter : (if p.capital then 'E' else 'e') = 'e' ∨ (if p.capital then 'E' else 'e') = 'E' := by
    split_ifs
    · exact .inr rfl
    · exact .inl rfl
  have hsign := splitSign_text p.sign (head?_digits_ne p.isDigit_digits (d := '-') rfl)
    (head?_digits_ne p.isDigit_digits (d := '+') rfl)
  have hread := readDigits?_eq_some_iff.2 ⟨p.digits_ne, p.isDigit_digits, rfl⟩
  rw [TypedPower.text, readPower?, if_pos hletter, hsign, hread]
  rfl

/-- What ends a numeral is a power of ten or nothing. -/
theorem exists_power_of_readPower? {cs : List Char} {e : Int} (h : readPower? cs = some e) :
    ∃ p : Option TypedPower, p.elim [] TypedPower.text = cs := by
  cases cs with
  | nil => exact ⟨none, rfl⟩
  | cons c cs =>
      rw [readPower?, Option.ite_none_right_eq_some] at h
      obtain ⟨hletter, hpower⟩ := h
      obtain ⟨_, hsize, -⟩ := Option.map_eq_some_iff.1 hpower
      obtain ⟨n, hread, -⟩ := Option.bind_eq_some_iff.1 hsize
      obtain ⟨hne, hdigits, -⟩ := readDigits?_eq_some_iff.1 hread
      obtain ⟨s, hcs⟩ := exists_splitSign_eq cs
      rcases hletter with rfl | rfl
      · exact ⟨some ⟨false, s, _, hne, hdigits⟩, congrArg ('e' :: ·) hcs.symm⟩
      · exact ⟨some ⟨true, s, _, hne, hdigits⟩, congrArg ('E' :: ·) hcs.symm⟩

theorem splitFraction_elim {fraction : Option (List Char)} (h : ∀ c ∈ fraction.getD [], c.isDigit = true)
    {rest : List Char} (hrest : ∀ c ∈ rest.head?, c.isDigit = false ∧ c ≠ '.') :
    splitFraction (fraction.elim [] ('.' :: ·) ++ rest) = (fraction.getD [], rest) := by
  cases fraction with
  | none =>
      rw [Option.elim_none, List.nil_append, splitFraction, Option.getD_none]
      rintro cs rfl
      exact (hrest '.' rfl).2 rfl
  | some digits =>
      obtain ⟨htake, hdrop⟩ := takeWhile_digits h fun c hc => (hrest c hc).1
      rw [Option.elim_some, List.cons_append, splitFraction, Option.getD_some] at *
      rw [htake, hdrop]

theorem exists_splitFraction_eq (cs : List Char) : ∃ fraction : Option (List Char),
    (splitFraction cs).1 = fraction.getD [] ∧ (∀ c ∈ fraction.getD [], c.isDigit = true) ∧
      cs = fraction.elim [] ('.' :: ·) ++ (splitFraction cs).2 := by
  unfold splitFraction
  split
  · next cs =>
      exact ⟨some (cs.takeWhile Char.isDigit), rfl, fun c hc => List.mem_takeWhile_imp hc,
        congrArg ('.' :: ·) List.takeWhile_append_dropWhile.symm⟩
  · exact ⟨none, rfl, List.forall_mem_nil _, rfl⟩

theorem head?_power (power : Option TypedPower) :
    ∀ c ∈ (power.elim [] TypedPower.text).head?, c.isDigit = false ∧ c ≠ '.' := by
  cases power with
  | none => rintro c ⟨⟩
  | some p =>
      rintro c ⟨⟩
      split_ifs <;> exact ⟨rfl, by decide⟩

theorem readDecimal?_typed (n : TypedNumeral) : readDecimal? n.text = some n.decimal := by
  have hbehind : ∀ c ∈ n.behind.head?, c.isDigit = false := by
    rw [TypedNumeral.behind]
    cases n.fraction with
    | none => exact fun c hc => (head?_power n.power c hc).1
    | some digits =>
        rintro c ⟨⟩
        rfl
  obtain ⟨htake, hdrop⟩ := takeWhile_digits n.isDigit_whole hbehind
  have hpower : readPower? (n.power.elim [] TypedPower.text) = some (n.power.elim 0 TypedPower.exponent) := by
    cases n.power with
    | none => rfl
    | some p => exact readPower?_text p
  have hdigits : ¬ (n.whole.isEmpty && (n.fraction.getD []).isEmpty) = true := by
    rw [Bool.and_eq_true, List.isEmpty_iff, List.isEmpty_iff, not_and_or]
    exact n.digits_ne
  rw [TypedNumeral.text, readDecimal?]
  simp only [htake, hdrop]
  rw [TypedNumeral.behind, splitFraction_elim n.isDigit_fraction (head?_power n.power)]
  simp only [if_neg hdigits, hpower]
  rfl

theorem exists_numeral_of_readDecimal? {cs : List Char} {d : Decimal} (h : readDecimal? cs = some d) :
    ∃ n : TypedNumeral, n.text = cs := by
  obtain ⟨fraction, hfraction, hdigits, hrest⟩ := exists_splitFraction_eq (cs.dropWhile Char.isDigit)
  simp only [readDecimal?, hfraction, Option.ite_none_left_eq_some] at h
  obtain ⟨hne, hread⟩ := h
  obtain ⟨e, hpower, -⟩ := Option.map_eq_some_iff.1 hread
  obtain ⟨power, hpower⟩ := exists_power_of_readPower? hpower
  rw [Bool.and_eq_true, List.isEmpty_iff, List.isEmpty_iff, not_and_or] at hne
  refine ⟨⟨_, fraction, power, fun c hc => List.mem_takeWhile_imp hc, hdigits, hne⟩, ?_⟩
  rw [TypedNumeral.text, TypedNumeral.behind, hpower, ← hrest, List.takeWhile_append_dropWhile]

/-- A numeral starts with a digit or with its point. -/
theorem TypedNumeral.head?_text (n : TypedNumeral) : ∃ c, n.text.head? = some c ∧ (c.isDigit = true ∨ c = '.') := by
  rw [text]
  cases hwhole : n.whole with
  | cons c cs => exact ⟨c, rfl, .inl (n.isDigit_whole c (hwhole ▸ List.mem_cons_self))⟩
  | nil =>
      cases hfraction : n.fraction with
      | some digits => exact ⟨'.', by rw [behind, hfraction]; rfl, .inr rfl⟩
      | none =>
          have hne := n.digits_ne
          rw [hwhole, hfraction] at hne
          exact absurd rfl (hne.resolve_left fun h => h rfl)

theorem TypedNumeral.text_ne (n : TypedNumeral) {word : List Char} {d : Char} (hword : word.head? = some d)
    (hd : ¬ (d.isDigit = true ∨ d = '.')) : n.text ≠ word := by
  rintro rfl
  obtain ⟨c, hc, hstart⟩ := n.head?_text
  obtain rfl : d = c := Option.some.inj (hword.symm.trans hc)
  exact hd hstart

/-- The characters of numerals. -/
def numeralChars : List Char := "0123456789.eE+-".toList

theorem mem_numeralChars_of_isDigit {c : Char} (h : c.isDigit = true) : c ∈ numeralChars := by
  simp only [Char.isDigit, Bool.and_eq_true, decide_eq_true_eq, UInt32.le_iff_toNat_le] at h
  have hlow : 48 ≤ c.toNat := h.1
  have hhigh : c.toNat ≤ 57 := h.2
  rw [← Char.ofNat_toNat c]
  generalize c.toNat = k at hlow hhigh
  interval_cases k <;> decide

theorem SignMark.mem_numeralChars {s : SignMark} {c : Char} (hc : c ∈ s.text) : c ∈ numeralChars := by
  cases s with
  | absent => cases hc
  | plus => rw [List.mem_singleton.1 hc]; decide
  | minus => rw [List.mem_singleton.1 hc]; decide

theorem TypedPower.mem_numeralChars {p : TypedPower} {c : Char} (hc : c ∈ p.text) : c ∈ numeralChars := by
  rw [text, List.mem_cons, List.mem_append] at hc
  rcases hc with rfl | hsign | hdigits
  · split_ifs <;> decide
  · exact SignMark.mem_numeralChars hsign
  · exact mem_numeralChars_of_isDigit (p.isDigit_digits c hdigits)

theorem TypedNumeral.mem_numeralChars {n : TypedNumeral} {c : Char} (hc : c ∈ n.text) : c ∈ numeralChars := by
  rw [text, behind, List.mem_append, List.mem_append] at hc
  rcases hc with hwhole | hfraction | hpower
  · exact mem_numeralChars_of_isDigit (n.isDigit_whole c hwhole)
  · have hdigits := n.isDigit_fraction
    cases hoption : n.fraction with
    | none =>
        rw [hoption] at hfraction
        cases hfraction
    | some digits =>
        rw [hoption] at hfraction hdigits
        rcases List.mem_cons.1 hfraction with rfl | hfraction
        · decide
        · exact mem_numeralChars_of_isDigit (hdigits c hfraction)
  · cases hoption : n.power with
    | none =>
        rw [hoption] at hpower
        cases hpower
    | some p =>
        rw [hoption] at hpower
        exact TypedPower.mem_numeralChars hpower

/-- The characters of numbers, be they numerals or words. -/
def numberChars : List Char := numeralChars ++ "NaN".toList ++ "Infinity".toList

theorem TypedMagnitude.mem_numberChars {m : TypedMagnitude} {c : Char} (hc : c ∈ m.text) : c ∈ numberChars := by
  rw [numberChars, List.mem_append, List.mem_append]
  cases m with
  | nan => exact .inl (.inr hc)
  | infinity => exact .inr hc
  | numeral n => exact .inl (.inl (TypedNumeral.mem_numeralChars hc))

theorem TypedNumber.mem_bareText {n : TypedNumber} {c : Char} (hc : c ∈ n.bareText) : c ∈ numberChars := by
  rcases List.mem_append.1 hc with hsign | hmagnitude
  · rw [numberChars, List.append_assoc]
    exact List.mem_append_left _ (SignMark.mem_numeralChars hsign)
  · exact TypedMagnitude.mem_numberChars hmagnitude

/-- No number ends with one of the letters that may follow it, although a word has one inside. -/
theorem TypedMagnitude.getLast?_text (m : TypedMagnitude) :
    ∃ c, m.text.getLast? = some c ∧ isNumberSuffix c = false := by
  cases m with
  | nan => exact ⟨'N', rfl, rfl⟩
  | infinity => exact ⟨'y', rfl, rfl⟩
  | numeral n =>
      obtain ⟨first, hfirst, -⟩ := n.head?_text
      have hne : n.text ≠ [] := by
        intro hnil
        rw [hnil] at hfirst
        cases hfirst
      have hletters : ∀ c ∈ numeralChars, isNumberSuffix c = false := forall_mem_of_all (by decide)
      exact ⟨_, List.getLast?_eq_some_getLast hne, hletters _ (TypedNumeral.mem_numeralChars (List.getLast_mem hne))⟩

/-- A number without its sign starts with no sign. -/
theorem TypedMagnitude.head?_text_ne (m : TypedMagnitude) : m.text.head? ≠ some '-' ∧ m.text.head? ≠ some '+' := by
  cases m with
  | nan => decide
  | infinity => decide
  | numeral n =>
      obtain ⟨c, hc, hstart⟩ := n.head?_text
      rw [text_numeral, hc]
      constructor
      · rintro ⟨⟩
        exact absurd hstart (by decide)
      · rintro ⟨⟩
        exact absurd hstart (by decide)

/-- Reads a number without its sign and the letter after it. -/
def readMagnitude? (negative : Bool) (cs : List Char) : Option Float :=
  if cs = "NaN".toList then some notANumber
  else if cs = "Infinity".toList then some (infinity negative)
  else (readDecimal? cs).map (Decimal.toFloat negative)

/-- Reads a number as a user may type it, in one go: an optional sign, a numeral or one of two words, and perhaps a
letter after it. -/
def readNumber? (cs : List Char) : Option Float :=
  let (negative, rest) := splitSign cs
  readMagnitude? negative (dropSuffix rest)

/-- The one letter that may follow a number is taken from its end, and nothing else. -/
theorem dropSuffix_text {cs : List Char} (h : ∀ c ∈ cs.getLast?, isNumberSuffix c = false) {suffix : Option Char}
    (hsuffix : ∀ c ∈ suffix, isNumberSuffix c = true) : dropSuffix (cs ++ suffix.toList) = cs := by
  cases suffix with
  | none =>
      rw [Option.toList_none, List.append_nil, dropSuffix]
      split
      · next c rest hrest =>
          have hlast : c ∈ cs.getLast? := by rw [← List.head?_reverse, hrest]; rfl
          rw [h c hlast, if_neg Bool.false_ne_true]
      · next hnil => rw [List.reverse_eq_nil_iff.1 hnil]
  | some c =>
      rw [Option.toList_some, dropSuffix, List.reverse_append]
      simp [hsuffix c rfl]

theorem exists_dropSuffix_eq (cs : List Char) : ∃ suffix : Option Char,
    (∀ c ∈ suffix, isNumberSuffix c = true) ∧ cs = dropSuffix cs ++ suffix.toList := by
  have hnone : ∀ c ∈ (none : Option Char), isNumberSuffix c = true := by
    rintro c ⟨⟩
  unfold dropSuffix
  split
  · next c rest hrest =>
      split_ifs with hc
      · refine ⟨some c, fun d hd => by cases hd; exact hc, ?_⟩
        rw [Option.toList_some, ← List.reverse_cons, ← hrest, List.reverse_reverse]
      · exact ⟨none, hnone, (List.append_nil cs).symm⟩
  · next hnil => exact ⟨none, hnone, List.reverse_eq_nil_iff.1 hnil⟩

theorem readNumber?_eq (cs : List Char) :
    readNumber? cs = readMagnitude? (splitSign cs).1 (dropSuffix (splitSign cs).2) := rfl

/-- The form of a text is looked at just as it is read. -/
theorem isSome_readNumber? (cs : List Char) : (readNumber? cs).isSome = hasNumberForm cs := by
  rw [readNumber?_eq, readMagnitude?, hasNumberForm]
  generalize dropSuffix (splitSign cs).2 = body
  split_ifs with hnan hinfinity
  · rw [decide_eq_true hnan]
    rfl
  · rw [decide_eq_false hnan, decide_eq_true hinfinity]
    rfl
  · rw [decide_eq_false hnan, decide_eq_false hinfinity, Option.isSome_map]
    rfl

theorem readMagnitude?_typed (negative : Bool) (m : TypedMagnitude) :
    readMagnitude? negative m.text = some (m.value negative) := by
  cases m with
  | nan => exact if_pos rfl
  | infinity => exact (if_neg (by decide)).trans (if_pos rfl)
  | numeral n =>
      have hnan : n.text ≠ "NaN".toList := n.text_ne (d := 'N') rfl (by decide)
      have hinfinity : n.text ≠ "Infinity".toList := n.text_ne (d := 'I') rfl (by decide)
      rw [TypedMagnitude.text_numeral, readMagnitude?, if_neg hnan, if_neg hinfinity, readDecimal?_typed]
      rfl

theorem exists_magnitude_of_readMagnitude? {negative : Bool} {cs : List Char} {x : Float}
    (h : readMagnitude? negative cs = some x) : ∃ m : TypedMagnitude, m.text = cs := by
  unfold readMagnitude? at h
  split_ifs at h with hnan hinfinity
  · exact ⟨.nan, hnan.symm⟩
  · exact ⟨.infinity, hinfinity.symm⟩
  · obtain ⟨d, hread, -⟩ := Option.map_eq_some_iff.1 h
    obtain ⟨n, hn⟩ := exists_numeral_of_readDecimal? hread
    exact ⟨.numeral n, hn⟩

namespace TypedNumber

theorem splitSign_text (n : TypedNumber) :
    splitSign n.text = (n.sign.negative, n.magnitude.text ++ n.suffix.toList) := by
  obtain ⟨c, hc, -⟩ := n.magnitude.getLast?_text
  have hhead : (n.magnitude.text ++ n.suffix.toList).head? = n.magnitude.text.head? := by
    cases hform : n.magnitude.text with
    | nil =>
        rw [hform] at hc
        cases hc
    | cons d cs => rfl
  obtain ⟨hminus, hplus⟩ := n.magnitude.head?_text_ne
  rw [text, bareText, List.append_assoc]
  exact Binisaya.splitSign_text n.sign (hhead ▸ hminus) (hhead ▸ hplus)

theorem dropSuffix_splitSign (n : TypedNumber) : dropSuffix (splitSign n.text).2 = n.magnitude.text := by
  obtain ⟨c, hc, hletter⟩ := n.magnitude.getLast?_text
  rw [n.splitSign_text]
  refine dropSuffix_text (fun d hd => ?_) n.isNumberSuffix_suffix
  rw [hc] at hd
  cases hd
  exact hletter

theorem readNumber?_text (n : TypedNumber) : readNumber? n.text = some n.value := by
  rw [readNumber?_eq, n.dropSuffix_splitSign, n.splitSign_text, readMagnitude?_typed]
  rfl

end TypedNumber

theorem exists_typed_of_readNumber? {cs : List Char} {x : Float} (h : readNumber? cs = some x) :
    ∃ n : TypedNumber, n.text = cs := by
  rw [readNumber?_eq] at h
  obtain ⟨sign, hsign⟩ := exists_splitSign_eq cs
  obtain ⟨suffix, hletter, hsuffix⟩ := exists_dropSuffix_eq (splitSign cs).2
  obtain ⟨m, hm⟩ := exists_magnitude_of_readMagnitude? h
  refine ⟨⟨sign, m, suffix, hletter⟩, ?_⟩
  rw [TypedNumber.text, TypedNumber.bareText, hm, List.append_assoc, ← hsuffix, ← hsign]

/-! ### Reading in steps -/

theorem joinDigits?_of_not_mem {cs : List Char} (h : '_' ∉ cs) (afterDigit : Bool) :
    joinDigits? afterDigit cs = some cs := by
  induction cs generalizing afterDigit with
  | nil => rfl
  | cons c cs ih =>
      obtain ⟨hc, hcs⟩ := not_or.1 (mt List.mem_cons.2 h)
      rw [joinDigits?, if_neg (Ne.symm hc), ih hcs]
      rfl

/-- What a number is written with means the same to the conversion, which knows more. -/
theorem plain_of_mem_numberChars : ∀ c ∈ numberChars, asciiDigit c = c ∧ isMargin c = false ∧ c ≠ '_' :=
  forall_mem_of_all (by decide)

theorem convertPlain?_of_splitSign {cs rest : List Char} {negative : Bool} (h : splitSign cs = (negative, rest)) :
    convertPlain? cs = if rest.map Char.toLower = "nan".toList then some notANumber
      else if rest.map Char.toLower = "inf".toList ∨ rest.map Char.toLower = "infinity".toList then
        some (infinity negative)
      else (readDecimal? rest).map (Decimal.toFloat negative) := by
  rw [convertPlain?, h]

/-- A numeral is none of the words, in whatever letters they are written. -/
theorem TypedNumeral.map_toLower_ne (n : TypedNumeral) {word : List Char} {d : Char} (hword : word.head? = some d)
    (hd : d = 'n' ∨ d = 'i') : n.text.map Char.toLower ≠ word := by
  have hlower : ∀ c ∈ numeralChars, c.toLower ≠ 'n' ∧ c.toLower ≠ 'i' := forall_mem_of_all (by decide)
  obtain ⟨c, hc, -⟩ := n.head?_text
  obtain ⟨hn, hi⟩ := hlower c (mem_numeralChars (List.mem_of_mem_head? hc))
  rintro rfl
  rw [List.head?_map, hc] at hword
  obtain rfl : c.toLower = d := Option.some.inj hword
  exact hd.elim hn hi

namespace TypedNumber

theorem convertPlain?_bareText (n : TypedNumber) : convertPlain? n.bareText = some n.value := by
  obtain ⟨hminus, hplus⟩ := n.magnitude.head?_text_ne
  rw [bareText, convertPlain?_of_splitSign (Binisaya.splitSign_text n.sign hminus hplus), value]
  generalize n.sign.negative = negative
  cases n.magnitude with
  | nan => exact if_pos (by decide)
  | infinity => exact (if_neg (by decide)).trans (if_pos (.inr (by decide)))
  | numeral m =>
      have hnan : m.text.map Char.toLower ≠ "nan".toList := m.map_toLower_ne (d := 'n') rfl (.inl rfl)
      have hinf : m.text.map Char.toLower ≠ "inf".toList := m.map_toLower_ne (d := 'i') rfl (.inr rfl)
      have hinfinity : m.text.map Char.toLower ≠ "infinity".toList := m.map_toLower_ne (d := 'i') rfl (.inr rfl)
      rw [TypedMagnitude.text_numeral, if_neg hnan, if_neg (not_or.2 ⟨hinf, hinfinity⟩), readDecimal?_typed]
      rfl

theorem convert?_bareText (n : TypedNumber) : convert? n.bareText = some n.value := by
  have hplain : ∀ c ∈ n.bareText, asciiDigit c = c ∧ isMargin c = false ∧ c ≠ '_' :=
    fun c hc => plain_of_mem_numberChars c (mem_bareText hc)
  have hascii : n.bareText.map asciiDigit = n.bareText :=
    (List.map_congr_left fun c hc => (hplain c hc).1).trans (List.map_id _)
  have hmargin : n.bareText.dropWhile isMargin = n.bareText := by
    rw [List.dropWhile_eq_self_iff]
    intro hpos
    simpa using (hplain _ (List.getElem_mem hpos)).2.1
  have htrailing : dropTrailing isMargin n.bareText = n.bareText := dropTrailing_eq_self fun c hc => (hplain c hc).2.1
  rw [convert?, hascii, hmargin, htrailing, joinDigits?_of_not_mem fun h => (hplain '_' h).2.2 rfl]
  exact n.convertPlain?_bareText

theorem dropTrailing_text (n : TypedNumber) : dropTrailing isNumberSuffix n.text = n.bareText := by
  obtain ⟨c, hc, hletter⟩ := n.magnitude.getLast?_text
  have hlast : n.bareText.getLast? = some c := by
    rw [bareText, List.getLast?_append, hc]
    rfl
  have hsuffix : ∀ d ∈ n.suffix.toList, isNumberSuffix d = true :=
    fun d hd => n.isNumberSuffix_suffix d (Option.mem_toList.1 hd)
  rw [text, dropTrailing_append hsuffix, dropTrailing_of_getLast?]
  rw [hlast]
  rintro d ⟨⟩
  exact hletter

theorem parseNumber_text (n : TypedNumber) : parseNumber n.text = .ok n.value := by
  have hform : hasNumberForm n.text = true := by
    rw [← isSome_readNumber?, n.readNumber?_text]
    rfl
  rw [parseNumber, if_pos hform]
  simp only [n.dropTrailing_text, n.convert?_bareText]
  rfl

end TypedNumber

theorem parseNumber_eq_ok_iff {cs : List Char} :
    (∃ x, parseNumber cs = .ok x) ↔ ∃ n : TypedNumber, n.text = cs := by
  constructor
  · rintro ⟨x, hx⟩
    rw [parseNumber] at hx
    split_ifs at hx with hform
    rw [← isSome_readNumber?, Option.isSome_iff_exists] at hform
    obtain ⟨y, hy⟩ := hform
    exact exists_typed_of_readNumber? hy
  · rintro ⟨n, rfl⟩
    exact ⟨n.value, n.parseNumber_text⟩

theorem parseNumber_of_forall_ne {cs : List Char} (h : ∀ n : TypedNumber, n.text ≠ cs) :
    readNumber? cs = none ∧ parseNumber cs = .error (numberComplaint (.ofList cs)) := by
  have hnone : readNumber? cs = none := by
    rw [Option.eq_none_iff_forall_ne_some]
    intro x hx
    obtain ⟨n, hn⟩ := exists_typed_of_readNumber? hx
    exact h n hn
  have hform : ¬ hasNumberForm cs = true := by
    rw [← isSome_readNumber?, hnone]
    exact Bool.false_ne_true
  exact ⟨hnone, by rw [parseNumber, if_neg hform]⟩

/-- **Numbers are read exactly as they are typed.** A text is accepted if and only if it is that of a `TypedNumber`.
Then striking off all letters that may follow a number takes the one that was typed, if any, and no other; what is left
is converted, to the number that the parts stand for; and the text with the letter and without it is read as that
number. Any other text is said to be no number. -/
theorem typed_numbers_read (cs : List Char) :
    ((∃ x, parseNumber cs = .ok x) ↔ ∃ n : TypedNumber, n.text = cs) ∧
      (∀ n : TypedNumber, n.text = cs →
        dropTrailing isNumberSuffix cs = n.bareText ∧ cs = n.bareText ++ n.suffix.toList ∧
          convert? n.bareText = some n.value ∧ parseNumber cs = .ok n.value ∧ parseNumber n.bareText = .ok n.value ∧
          readNumber? cs = some n.value) ∧
      ((∀ n : TypedNumber, n.text ≠ cs) →
        readNumber? cs = none ∧ parseNumber cs = .error (numberComplaint (.ofList cs))) := by
  refine ⟨parseNumber_eq_ok_iff, ?_, parseNumber_of_forall_ne⟩
  rintro n rfl
  have hbare := n.bare.parseNumber_text
  rw [n.bare_text] at hbare
  exact ⟨n.dropTrailing_text, rfl, n.convert?_bareText, n.parseNumber_text, hbare, n.readNumber?_text⟩

/-- A small number without digits before its point, typed with all marks that a number can have. -/
def smallTyped : TypedNumber where
  sign := .plus
  magnitude := .numeral
    { whole := []
      fraction := some ['5']
      power := some ⟨true, .minus, ['0', '3'], List.cons_ne_nil _ _, forall_mem_of_all (by decide)⟩
      isDigit_whole := List.forall_mem_nil _
      isDigit_fraction := forall_mem_of_all (by decide)
      digits_ne := .inr (List.cons_ne_nil _ _) }
  suffix := some 'D'
  isNumberSuffix_suffix := fun c hc => by cases hc; rfl

theorem typed_numbers_read_smallTyped :
    dropTrailing isNumberSuffix "+.5E-03D".toList = "+.5E-03".toList ∧
      parseNumber "+.5E-03D".toList = .ok (Decimal.toFloat false ⟨5, -4⟩) ∧
      parseNumber "+.5E-03".toList = .ok (Decimal.toFloat false ⟨5, -4⟩) ∧
      parseNumber "Infinityff".toList = .error "not a number: 'Infinityff'" := by
  obtain ⟨-, haccepted, -⟩ := typed_numbers_read "+.5E-03D".toList
  obtain ⟨hbare, -, -, hparse, hparseBare, -⟩ := haccepted smallTyped rfl
  obtain ⟨-, -, hrejected⟩ := typed_numbers_read "Infinityff".toList
  have hnone : readNumber? "Infinityff".toList = none := by decide +kernel
  have hno : ∀ n : TypedNumber, n.text ≠ "Infinityff".toList := by
    intro n hn
    rw [← hn, n.readNumber?_text] at hnone
    cases hnone
  refine ⟨hbare, hparse, hparseBare, (hrejected hno).2.trans ?_⟩
  decide

end Binisaya
