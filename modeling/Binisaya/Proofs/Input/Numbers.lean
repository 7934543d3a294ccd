import Binisaya.Proofs.Input.NumberSyntax
import Binisaya.Proofs.Input.Statement
import Binisaya.Proofs.Printing
import Binisaya.Proofs.Stepwise.LaterInput

/-! Printed numbers as input. The printed form of a number, whether that has a point, a power of ten or is a word, is one
that a user may type, and is read as that number. There is neither a comma nor white space in it, so that it may also be
the answer to an input statement. -/

namespace Binisaya

open Exec Machine Stepwise

/-- A written power of ten is one that a user may type. -/
theorem exists_typedPower (power : Int) : ∃ p : TypedPower, p.text = writePower power ∧ p.exponent = power := by
  obtain ⟨digits, hne, hdigits, hvalue, hwrite⟩ := exists_writePower_eq power
  by_cases hnegative : power < 0
  · refine ⟨⟨false, .minus, digits, hne, hdigits⟩, ?_, ?_⟩
    · rw [hwrite, if_pos hnegative]
      rfl
    · rw [TypedPower.exponent, ofDigitValues_map, hvalue, SignMark.negative, if_pos rfl]
      omega
  · refine ⟨⟨false, .plus, digits, hne, hdigits⟩, ?_, ?_⟩
    · rw [hwrite, if_neg hnegative]
      rfl
    · rw [TypedPower.exponent, ofDigitValues_map, hvalue, SignMark.negative, if_neg Bool.false_ne_true]
      omega

/-- A written numeral is one that a user may type. -/
theorem exists_typedNumeral {n : Numeral} (hn : n.Proper) :
    ∃ t : TypedNumeral, t.text = n.text ∧ t.decimal = n.decimal := by
  obtain ⟨power, hpower, hexponent⟩ : ∃ power : Option TypedPower,
      power.elim [] TypedPower.text = n.power.elim [] writePower ∧
        power.elim 0 TypedPower.exponent = n.power.getD 0 := by
    cases n.power with
    | none => exact ⟨none, rfl, rfl⟩
    | some k =>
        obtain ⟨p, htext, hexponent⟩ := exists_typedPower k
        exact ⟨some p, htext, hexponent⟩
  have hfraction : ∃ fraction : Option (List Char), fraction.getD [] = n.fraction ∧
      fraction.elim [] ('.' :: ·) = if n.fraction = [] then [] else '.' :: n.fraction := by
    by_cases hnil : n.fraction = []
    · exact ⟨none, hnil.symm, (if_pos hnil).symm⟩
    · exact ⟨some n.fraction, rfl, (if_neg hnil).symm⟩
  obtain ⟨fraction, hdigits, hpoint⟩ := hfraction
  refine ⟨⟨n.whole, fraction, power, hn.whole_digits, hdigits ▸ hn.fraction_digits, .inl hn.whole_ne⟩, ?_, ?_⟩
  · rw [TypedNumeral.text, TypedNumeral.behind, hpoint, hpower, Numeral.text]
  · simp only [TypedNumeral.decimal, hdigits, hexponent, Numeral.decimal]

/-- A printed number is one that a user may type, without a letter behind it. -/
theorem exists_typed_printed (x : Float) :
    ∃ n : TypedNumber, n.bareText = NumberStyle.printed.writeChars x ∧ n.value = x := by
  obtain ⟨sign, hsign, hnegative⟩ : ∃ sign : SignMark,
      sign.text = (if isNegative x then ['-'] else []) ∧ sign.negative = isNegative x := by
    cases isNegative x with
    | true => exact ⟨.minus, rfl, rfl⟩
    | false => exact ⟨.absent, rfl, rfl⟩
  have hnone : ∀ c ∈ (none : Option Char), isNumberSuffix c = true := by
    rintro c ⟨⟩
  cases hx : magnitude x with
  | nan =>
      refine ⟨⟨.absent, .nan, none, hnone⟩, ?_, (eq_notANumber_of_magnitude hx).symm⟩
      simp only [NumberStyle.writeChars, hx]
      rfl
  | infinite =>
      refine ⟨⟨sign, .infinity, none, hnone⟩, ?_, ?_⟩
      · simp only [TypedNumber.bareText, NumberStyle.writeChars, hx, hsign]
        rfl
      · rw [TypedNumber.value, hnegative]
        exact (eq_infinity_of_magnitude hx).symm
  | finite mantissa scale =>
      obtain ⟨n, hn, hwrite, hread, -⟩ := @NumberStyle.exists_writeChars_eq .printed (.inl rfl) _ _ _ hx
      obtain ⟨t, htext, hdecimal⟩ := exists_typedNumeral hn
      refine ⟨⟨sign, .numeral t, none, hnone⟩, ?_, ?_⟩
      · rw [hwrite, ← htext, ← hsign]
        rfl
      · rw [TypedNumber.value, TypedMagnitude.value, hdecimal, hnegative, hread]

/-- A number is read from its printed form. -/
theorem read_printed (x : Float) : readNumber? (NumberStyle.printed.writeChars x) = some x ∧
    parseNumber (NumberStyle.printed.writeChars x) = .ok x := by
  obtain ⟨n, htext, rfl⟩ := exists_typed_printed x
  rw [← htext, ← n.bare_text]
  exact ⟨n.bare.readNumber?_text, n.bare.parseNumber_text⟩

/-- There is neither a comma nor white space in a printed number. -/
theorem mem_printed {x : Float} {c : Char} (hc : c ∈ NumberStyle.printed.writeChars x) : c ≠ ',' ∧ isBlank c = false := by
  have hall : ∀ c ∈ numberChars, c ≠ ',' ∧ isBlank c = false := forall_mem_of_all (by decide)
  obtain ⟨n, htext, -⟩ := exists_typed_printed x
  rw [← htext] at hc
  exact hall c (TypedNumber.mem_bareText hc)

theorem printed_ne_nil (x : Float) : NumberStyle.printed.writeChars x ≠ [] := by
  intro hnil
  have hread := (read_printed x).1
  rw [hnil] at hread
  cases hread

/-- A printed number that makes up a line is its only field. -/
theorem lineFields_printed (x : Float) :
    lineFields (bareLine (NumberStyle.printed.writeChars x)) = [NumberStyle.printed.writeChars x] := by
  have hbare : bareLine (NumberStyle.printed.writeChars x) = NumberStyle.printed.writeChars x := by
    apply dropTrailing_eq_self
    intro c hc
    have hblank := (mem_printed hc).2
    simp only [Bool.or_eq_false_iff, beq_eq_false_iff_ne]
    constructor
    · rintro rfl
      cases hblank
    · rintro rfl
      cases hblank
  have htrim : trim (NumberStyle.printed.writeChars x) = NumberStyle.printed.writeChars x :=
    trim_eq_self (fun c hc => (mem_printed (List.mem_of_head? hc)).2)
      fun c hc => (mem_printed (List.mem_of_getLast? hc)).2
  have hcomma : (NumberStyle.printed.writeChars x).contains ',' = false :=
    Bool.eq_false_iff.2 fun h => (mem_printed (List.contains_iff_mem.1 h)).1 rfl
  rw [hbare, lineFields, hcomma, if_neg Bool.false_ne_true, htrim]

theorem exec_print_number {cfg : Settings} (n : Nat) {e : Node} {x : Float} {m m₁ : Machine}
    (h : eval cfg.silent e m = .done (.number x) m₁) : ∃ m₂, m₁.Notes cfg m₂ ∧
      exec cfg (n + 1) (.print [e]) m = .done () (m₂.writing (NumberStyle.printed.write x)) := by
  have hsilent : textOf cfg.silent e m = .done (NumberStyle.printed.write x) m₁ := by
    rw [textOf, bind_apply, h]
    rfl
  have halike := textOf_alike_silent cfg e _ m (Notes.noted cfg (.executing "PrintStmt") m)
  rw [exec_print, textsOf_singleton, bind_apply]
  rw [hsilent] at halike
  generalize textOf cfg e (noted cfg (.executing "PrintStmt") m) = o at halike
  cases halike with
  | done _ hm₂ => exact ⟨_, hm₂, rfl⟩

/-- **Printed numbers are read back.** The printed form of a number, be it a zero with a sign, an infinity or no number
at all, is read as that number. It is what a print statement writes for an expression with this value, and an input
statement that finds it on a line gives the number back to a number variable. -/
theorem printed_number_restored (x : Float) :
    let text := NumberStyle.printed.writeChars x
    readNumber? text = some x ∧ parseNumber text = .ok x ∧
      (∀ (cfg : Settings) (n : Nat) (e : Node) (m m₁ : Machine), eval cfg.silent e m = .done (.number x) m₁ →
        ∃ m₂, m₁.Notes cfg m₂ ∧ exec cfg (n + 1) (.print [e]) m = .done () (m₂.writing (String.ofList text))) ∧
      ∀ (cfg : Settings) (n : Nat) (name : String) (m : Machine) (rest : List Char), m.typeOf name = some .number →
        m.unread = text ++ '\n' :: rest ∨ m.unread = text ∧ rest = [] →
        ∃ m', exec cfg (n + 1) (.input [name]) m = .done () m' ∧
          { m with scope := m.scope.assign name (.number x), unread := rest }.Notes cfg m' ∧
          m'.scope.get? name = some (.number x) := by
  intro text
  refine ⟨(read_printed x).1, (read_printed x).2, fun cfg n e m m₁ h => exec_print_number n h, ?_⟩
  intro cfg n name m rest htype hunread
  have hnewline : '\n' ∉ text := fun hmem => absurd (mem_printed hmem).2 (by decide)
  have hline : takeLine? m.unread = some (bareLine text, rest) := by
    rcases hunread with hunread | ⟨hunread, rfl⟩
    · rw [hunread, takeLine?_line hnewline]
    · rw [hunread, takeLine?_last hnewline (printed_ne_nil x)]
  have hfit : FieldsFit m.typeOf [name] (lineFields (bareLine text)) [(name, .number x)] := by
    rw [lineFields_printed]
    refine .cons ?_ .nil
    rw [htype]
    exact .number (read_printed x).2
  obtain ⟨m', hexec, hm'⟩ := exec_input_of_fits cfg n hline hfit
  refine ⟨m', hexec, hm', ?_⟩
  rw [hm'.same.1]
  exact Scope.get?_assign_self ..

/-- The negative double next to zero. -/
def leastNegative : Float := ofSignBits true 1

/-- A number variable that holds something else, and a number to read with no newline behind it. -/
def echoMachine : Machine :=
  { scope := ⟨.ofList [("k", .text "old")], []⟩
    types := .ofList [("k", some .number)]
    unread := "-5e-324".toList }

theorem printed_number_restored_echoMachine :
    (∃ m, exec {} 1 (.print [.literal (.number leastNegative) "Number"]) {} = .done () m ∧ m.output = "-5e-324") ∧
      ∃ m, exec {} 1 (.input ["k"]) echoMachine = .done () m ∧ m.scope.get? "k" = some (.number leastNegative) := by
  have htext : NumberStyle.printed.writeChars leastNegative = "-5e-324".toList := by decide +kernel
  obtain ⟨-, -, hprint, hinput⟩ := printed_number_restored leastNegative
  obtain ⟨m₁, hm₁, hprinted⟩ := hprint {} 0 (.literal (.number leastNegative) "Number") {} {} rfl
  obtain ⟨m₂, hread, -, hvalue⟩ := hinput {} 0 "k" echoMachine [] (by decide) (.inr ⟨htext.symm, rfl⟩)
  refine ⟨⟨_, hprinted, ?_⟩, m₂, hread, hvalue⟩
  rw [hm₁.eq_of_level_zero rfl, htext]
  decide

end Binisaya
