import Binisaya.Json.Reader
import Binisaya.Json.Writer
import Binisaya.Proofs.Number.Numerals
import Binisaya.Proofs.StoredRoundTrip
import Binisaya.Text.Lines

/-! Written JSON is read back. Strings with any characters, all doubles and values nested to any depth come back from
their text as they were, and so do objects in which no name stands twice, with their fields in the same order. -/

namespace Binisaya.Json

/-- Characters below the blank are escaped by four digits. -/
theorem exists_hexDigits {n : Nat} (hn : n < 0x20) :
    ∃ a b c d, hexDigits 4 n = [a, b, c, d] ∧ hexUnit? a b c d = some n := by
  interval_cases n <;> exact ⟨_, _, _, _, rfl, by decide⟩

theorem readUnits_plain {c : Char} (hquote : c ≠ '"') (hbackslash : c ≠ '\\') (hc : ¬ c.toNat < 0x20) (cs : List Char) :
    readUnits (c :: cs) = (readUnits cs).map fun (us, rest) => (c.toNat :: us, rest) := by
  rw [readUnits, if_neg hc]
  all_goals simp [hquote, hbackslash]

theorem readUnits_escape {e c : Char} (he : escaped? e = some c) (cs : List Char) :
    readUnits ('\\' :: e :: cs) = (readUnits cs).map fun (us, rest) => (c.toNat :: us, rest) := by
  have hu : e ≠ 'u' := by
    rintro rfl
    cases he
  rw [readUnits]
  · rw [he]
    cases readUnits cs <;> rfl
  · intro a b c d rest h
    exact absurd h hu

/-- Each character of a string is read as its code point, however it is written. -/
theorem readUnits_writeChar (c : Char) (cs : List Char) :
    readUnits (writeChar c ++ cs) = (readUnits cs).map fun (us, rest) => (c.toNat :: us, rest) := by
  unfold writeChar
  split
  · exact readUnits_escape rfl cs
  · exact readUnits_escape rfl cs
  · exact readUnits_escape rfl cs
  · exact readUnits_escape rfl cs
  · exact readUnits_escape rfl cs
  · exact readUnits_escape rfl cs
  · exact readUnits_escape rfl cs
  · rename_i hquote hbackslash _ _ _ _ _
    split_ifs with hlow
    · obtain ⟨a, b, c', d, hdigits, hunit⟩ := exists_hexDigits hlow
      rw [hdigits]
      change readUnits ('\\' :: 'u' :: a :: b :: c' :: d :: cs) = _
      rw [readUnits, hunit]
      cases readUnits cs <;> rfl
    · exact readUnits_plain hquote hbackslash hlow cs

theorem readUnits_flatMap (cs rest : List Char) :
    readUnits (cs.flatMap writeChar ++ '"' :: rest) = some (cs.map Char.toNat, rest) := by
  induction cs with
  | nil => rfl
  | cons c cs ih =>
      rw [List.flatMap_cons, List.append_assoc, readUnits_writeChar, ih]
      rfl

/-- No code point of a character is one half of a pair. -/
theorem joinUnits_cons (c : Char) (us : List Nat) : joinUnits (c.toNat :: us) = c :: joinUnits us := by
  have hvalid : c.toNat < 0xD800 ∨ 0xDFFF < c.toNat ∧ c.toNat < 0x110000 := c.valid
  have hunit : unitChar c.toNat = c := by
    rw [unitChar, if_neg (by simp; omega), Char.ofNat_toNat]
  cases us with
  | nil => exact congrArg (fun d => [d]) hunit
  | cons v us => rw [joinUnits, if_neg (by simp; omega), hunit]

theorem joinUnits_map (cs : List Char) : joinUnits (cs.map Char.toNat) = cs := by
  induction cs with
  | nil => rfl
  | cons c cs ih => rw [List.map_cons, joinUnits_cons, ih]

theorem readString_flatMap (s : String) (rest : List Char) :
    readString (s.toList.flatMap writeChar ++ '"' :: rest) = some (s, rest) := by
  rw [readString, readUnits_flatMap, Option.map_some]
  simp only [joinUnits_map, String.ofList_toList]

/-- No digit, point or power goes on with a number here. -/
def NumberEnds (rest : List Char) : Prop := ∀ c ∈ rest.head?, c.isDigit = false ∧ c ≠ '.' ∧ c ≠ 'e' ∧ c ≠ 'E'

theorem splitWhole_append {whole rest : List Char} (hdigits : ∀ c ∈ whole, c.isDigit = true)
    (hleading : whole = ['0'] ∨ whole.head? ≠ some '0') (hne : whole ≠ [])
    (hrest : ∀ c ∈ rest.head?, c.isDigit = false) : splitWhole (whole ++ rest) = (whole, rest) := by
  rcases hleading with rfl | hleading
  · rfl
  · obtain ⟨htake, hdrop⟩ := takeWhile_digits hdigits hrest
    rw [splitWhole, htake, hdrop]
    intro cs hcs
    cases whole with
    | nil => exact hne rfl
    | cons c whole => exact hleading (congrArg some (List.cons.inj hcs).1)

theorem takeFraction_append {fraction rest : List Char} (hdigits : ∀ c ∈ fraction, c.isDigit = true)
    (hrest : ∀ c ∈ rest.head?, c.isDigit = false ∧ c ≠ '.') :
    takeFraction ((if fraction = [] then [] else '.' :: fraction) ++ rest) = (fraction, rest) := by
  simp only [takeFraction, splitFraction_append hdigits hrest]
  by_cases hnil : fraction = [] <;> simp [hnil]

theorem takePower_append (power : Option Int) {rest : List Char} (hrest : NumberEnds rest) :
    takePower (power.elim [] writePower ++ rest) = (power, rest) := by
  cases power with
  | none =>
      cases rest with
      | nil => rfl
      | cons c cs =>
          obtain ⟨-, -, he, hE⟩ := hrest c rfl
          simp [takePower, he, hE]
  | some power =>
      obtain ⟨digits, hne, hdigits, hvalue, hwrite⟩ := exists_writePower_eq power
      obtain ⟨htake, hdrop⟩ := takeWhile_digits hdigits fun c hc => (hrest c hc).1
      rw [Option.elim_some, hwrite, List.cons_append, List.cons_append, takePower]
      simp only [splitSign_power, htake, hdrop, ofDigitValues_map, hvalue, ite_natAbs]
      simp [hne]

/-- A numeral with a point or a power is read as the double nearest to its decimal. -/
theorem readUnsigned_text {n : Numeral} (hn : n.Proper) (hmarked : n.fraction ≠ [] ∨ n.power ≠ none) {rest : List Char}
    (hrest : NumberEnds rest) (negative : Bool) :
    readUnsigned negative (n.text ++ rest) = .ok (.float (n.decimal.toFloat negative), rest) := by
  have hpower := takePower_append n.power hrest
  have hpowerHead : ∀ c ∈ (n.power.elim [] writePower ++ rest).head?, c.isDigit = false ∧ c ≠ '.' := by
    cases n.power with
    | none => exact fun c hc => ⟨(hrest c hc).1, (hrest c hc).2.1⟩
    | some power =>
        rintro c ⟨⟩
        exact ⟨rfl, by decide⟩
  have hfraction := takeFraction_append hn.fraction_digits hpowerHead
  have hfractionHead := Numeral.isDigit_head n.fraction fun c hc => (hpowerHead c hc).1
  have hwhole := splitWhole_append hn.whole_digits hn.leading hn.whole_ne hfractionHead
  have hpoint : ¬ (n.fraction.isEmpty && n.power.isNone) = true := by
    simpa [imp_iff_not_or] using hmarked
  rw [Numeral.text, List.append_assoc, List.append_assoc]
  simp only [readUnsigned, hwhole, hfraction, hpower]
  rw [if_neg (by simpa using hn.whole_ne), if_neg hpoint]
  rfl

theorem isPrefixOf?_cons_of_ne {c d : Char} (h : c ≠ d) (cs ds : List Char) :
    (c :: cs).isPrefixOf? (d :: ds) = none := by
  rw [List.isPrefixOf?, beq_eq_false_iff_ne.2 h]
  rfl

theorem ne_of_isDigit {c d : Char} (hc : c.isDigit = false) (hd : d.isDigit = true) : c ≠ d := by
  rintro rfl
  rw [hc] at hd
  cases hd

theorem findSome?_wordValues {cs : List Char} (h : ∀ p ∈ wordValues, p.1.toList.isPrefixOf? cs = none) :
    (wordValues.findSome? fun (word, j) => (word.toList.isPrefixOf? cs).map (j, ·)) = none := by
  rw [List.findSome?_eq_none_iff]
  rintro ⟨word, j⟩ hp
  simp only [h _ hp, Option.map_none]

/-- A number without a sign is none of the words. -/
theorem readScalar_digit {c : Char} (hc : c.isDigit = true) (cs : List Char) :
    readScalar (c :: cs) = readUnsigned false (c :: cs) := by
  have hwords : ∀ p ∈ wordValues, p.1.toList.isPrefixOf? (c :: cs) = none := by
    intro p hp
    simp only [wordValues, List.mem_cons, List.not_mem_nil, or_false] at hp
    rcases hp with rfl | rfl | rfl | rfl | rfl | rfl <;> exact isPrefixOf?_cons_of_ne (ne_of_isDigit rfl hc) _ _
  rw [readScalar, findSome?_wordValues hwords]
  · rintro rest ⟨⟩
    cases hc
  · rintro rest ⟨⟩
    cases hc

/-- A number with a sign is not the word with that sign. -/
theorem readScalar_minus {c : Char} (hc : c.isDigit = true) (cs : List Char) :
    readScalar ('-' :: c :: cs) = readUnsigned true (c :: cs) := by
  have hwords : ∀ p ∈ wordValues, p.1.toList.isPrefixOf? ('-' :: c :: cs) = none := by
    intro p hp
    simp only [wordValues, List.mem_cons, List.not_mem_nil, or_false] at hp
    rcases hp with rfl | rfl | rfl | rfl | rfl | rfl
    · rfl
    · rfl
    · rfl
    · rfl
    · rfl
    · exact isPrefixOf?_cons_of_ne (@ne_of_isDigit 'I' c rfl hc) "nfinity".toList cs
  rw [readScalar, findSome?_wordValues hwords]

theorem readScalar_string (s : String) (rest : List Char) :
    readScalar (writeString s ++ rest) = .ok (.string s, rest) := by
  have htext : writeString s ++ rest = '"' :: (s.toList.flatMap writeChar ++ '"' :: rest) := by simp [writeString]
  rw [htext]
  change Reading.ofOption ((readString (s.toList.flatMap writeChar ++ '"' :: rest)).map _) = _
  rw [readString_flatMap]
  rfl

/-- All doubles are read back, those that are no finite numbers too. -/
theorem readScalar_float (x : Float) {rest : List Char} (hrest : NumberEnds rest) :
    readScalar (NumberStyle.stored.writeChars x ++ rest) = .ok (.float x, rest) := by
  cases hx : magnitude x with
  | nan =>
      have hwrite : NumberStyle.stored.writeChars x = "NaN".toList := by simp only [NumberStyle.writeChars, hx]; rfl
      rw [hwrite, eq_notANumber_of_magnitude hx]
      rfl
  | infinite =>
      have hwrite : NumberStyle.stored.writeChars x = (if isNegative x then ['-'] else []) ++ "Infinity".toList := by
        simp only [NumberStyle.writeChars, hx]
        rfl
      have hsign := eq_infinity_of_magnitude hx
      rw [hwrite]
      cases hnegative : isNegative x with
      | true =>
          rw [hsign, hnegative]
          rfl
      | false =>
          rw [hsign, hnegative]
          rfl
  | finite mantissa scale =>
      obtain ⟨n, hn, hwrite, hvalue, hmarked⟩ := @NumberStyle.exists_writeChars_eq .stored (.inr rfl) x _ _ hx
      have hread := readUnsigned_text hn (hmarked rfl) hrest
      obtain ⟨c, cs, hwhole⟩ := List.exists_cons_of_ne_nil hn.whole_ne
      have hc : c.isDigit = true := hn.whole_digits c (hwhole ▸ List.mem_cons_self ..)
      obtain ⟨cs, htext⟩ : ∃ cs, n.text ++ rest = c :: cs := ⟨_, by rw [Numeral.text, hwhole]; rfl⟩
      rw [hwrite, List.append_assoc, htext]
      rw [htext] at hread
      cases hsign : isNegative x with
      | true =>
          rw [hsign] at hvalue
          rw [if_pos rfl]
          exact (readScalar_minus hc cs).trans ((hread true).trans (by rw [hvalue]))
      | false =>
          rw [hsign] at hvalue
          rw [if_neg Bool.false_ne_true]
          exact (readScalar_digit hc cs).trans ((hread false).trans (by rw [hvalue]))

theorem skipSpace_cons {c : Char} (hc : isSpace c = false) (cs : List Char) : skipSpace (c :: cs) = c :: cs := by
  rw [skipSpace, List.dropWhile_cons, if_neg (by rw [hc]; exact Bool.false_ne_true)]

theorem skipSpace_skipSpace (cs : List Char) : skipSpace (skipSpace cs) = skipSpace cs :=
  List.dropWhile_idempotent isSpace cs

/-- A new line and its indentation are skipped. -/
theorem skipSpace_writeBreak (level : Nat) (cs : List Char) : skipSpace (writeBreak level ++ cs) = skipSpace cs := by
  have hspace : ∀ c ∈ writeBreak level, isSpace c = true := by
    refine List.forall_mem_cons.2 ⟨rfl, fun c hc => ?_⟩
    rw [List.eq_of_mem_replicate hc]
    rfl
  rw [skipSpace, List.dropWhile_append_of_pos hspace]
  rfl

theorem readItems_skipSpace (value : List Char → Reading Json) (n : Nat) (cs : List Char) :
    readItems value n (skipSpace cs) = readItems value n cs := by
  cases n with
  | zero => rfl
  | succ n => rw [readItems, readItems, skipSpace_skipSpace]

theorem readFields_skipSpace (value : List Char → Reading Json) (n : Nat) (cs : List Char) :
    readFields value n (skipSpace cs) = readFields value n cs := by
  cases n with
  | zero => rfl
  | succ n => rw [readFields, readFields, readKey, readKey, skipSpace_skipSpace]

/-- A value whose text is read back: it has no whole numbers, and no name stands twice in an object. -/
inductive Storable : Json → Prop
  | null : Storable .null
  | bool (b : Bool) : Storable (.bool b)
  | float (x : Float) : Storable (.float x)
  | string (s : String) : Storable (.string s)
  | array {items : List Json} (h : ∀ j ∈ items, Storable j) : Storable (.array items)
  | object {fields : List (String × Json)} (hnames : (fields.map Prod.fst).Nodup)
      (h : ∀ f ∈ fields, Storable f.2) : Storable (.object fields)

/-- A value ends here: nothing, a comma or a new line follows it. -/
def ValueEnds (rest : List Char) : Prop := ∀ c ∈ rest.head?, c = ',' ∨ c = '\n'

theorem ValueEnds.numberEnds {rest : List Char} (h : ValueEnds rest) : NumberEnds rest := by
  intro c hc
  rcases h c hc with rfl | rfl <;> decide

/-- Tells that a character can start a value: it is neither space nor the end of an array or object. -/
def startsValue (c : Char) : Bool := !isSpace c && c != ']' && c != '}'

theorem startsValue_iff {c : Char} : startsValue c = true ↔ isSpace c = false ∧ c ≠ ']' ∧ c ≠ '}' := by
  simp [startsValue, and_assoc]

/-- Tells that a character can start a value without parts. -/
def startsScalar (c : Char) : Bool := startsValue c && c != '[' && c != '{'

theorem startsScalar_iff {c : Char} : startsScalar c = true ↔ startsValue c = true ∧ c ≠ '[' ∧ c ≠ '{' := by
  simp [startsScalar, and_assoc]

theorem startsScalar_of_isDigit {c : Char} (hc : c.isDigit = true) : startsScalar c = true := by
  have hne {d : Char} (hd : d.isDigit = false) : c ≠ d := (ne_of_isDigit hd hc).symm
  rw [startsScalar_iff, startsValue_iff]
  refine ⟨⟨?_, hne rfl, hne rfl⟩, hne rfl, hne rfl⟩
  simp [isSpace, @hne ' ' rfl, @hne '\t' rfl, @hne '\n' rfl, @hne '\r' rfl]

theorem exists_writeChars_eq_cons (x : Float) :
    ∃ c cs, NumberStyle.stored.writeChars x = c :: cs ∧ startsScalar c = true := by
  cases hx : magnitude x with
  | nan => exact ⟨'N', "aN".toList, by simp only [NumberStyle.writeChars, hx]; rfl, rfl⟩
  | infinite =>
      cases hsign : isNegative x with
      | true => exact ⟨'-', "Infinity".toList, by simp only [NumberStyle.writeChars, hx, hsign]; rfl, rfl⟩
      | false => exact ⟨'I', "nfinity".toList, by simp only [NumberStyle.writeChars, hx, hsign]; rfl, rfl⟩
  | finite mantissa scale =>
      obtain ⟨n, hn, hwrite, -⟩ := @NumberStyle.exists_writeChars_eq .stored (.inr rfl) x _ _ hx
      obtain ⟨c, cs, hwhole⟩ := List.exists_cons_of_ne_nil hn.whole_ne
      have hc : c.isDigit = true := hn.whole_digits c (hwhole ▸ List.mem_cons_self ..)
      rw [hwrite, Numeral.text, hwhole]
      cases isNegative x with
      | true => exact ⟨'-', _, rfl, rfl⟩
      | false => exact ⟨c, _, rfl, startsScalar_of_isDigit hc⟩

theorem exists_writeAt_eq_cons (level : Nat) {j : Json} (hj : Storable j) :
    ∃ c cs, writeAt level j = c :: cs ∧ startsValue c = true := by
  cases hj with
  | null => exact ⟨'n', "ull".toList, by rw [writeAt]; rfl, rfl⟩
  | bool b =>
      cases b with
      | true => exact ⟨'t', "rue".toList, by rw [writeAt]; rfl, rfl⟩
      | false => exact ⟨'f', "alse".toList, by rw [writeAt]; rfl, rfl⟩
  | float x =>
      obtain ⟨c, cs, htext, hc⟩ := exists_writeChars_eq_cons x
      exact ⟨c, cs, by rw [writeAt, htext], (startsScalar_iff.1 hc).1⟩
  | string s => exact ⟨'"', _, by rw [writeAt]; rfl, rfl⟩
  | @array items _ =>
      cases items with
      | nil => exact ⟨'[', _, by rw [writeAt], rfl⟩
      | cons j js => exact ⟨'[', _, by rw [writeAt]; rfl, rfl⟩
  | @object fields _ _ =>
      cases fields with
      | nil => exact ⟨'{', _, by rw [writeAt], rfl⟩
      | cons f fs => exact ⟨'{', _, by rw [writeAt]; rfl, rfl⟩

theorem skipSpace_writeAt (level : Nat) {j : Json} (hj : Storable j) (rest : List Char) :
    skipSpace (writeAt level j ++ rest) = writeAt level j ++ rest := by
  obtain ⟨c, cs, htext, hc⟩ := exists_writeAt_eq_cons level hj
  rw [htext, List.cons_append, skipSpace_cons (startsValue_iff.1 hc).1]

/-! ### Parts

The values of an array after the first and the fields of an object after the first are written in the same way, each
behind a comma. -/

theorem writeItems_eq_flatMap (level : Nat) (js : List Json) :
    writeItems level js = js.flatMap fun j => ',' :: (writeBreak level ++ writeAt level j) := by
  induction js with
  | nil => rw [writeItems, List.flatMap_nil]
  | cons j js ih => rw [writeItems, ih, List.flatMap_cons, List.cons_append, List.cons_append]

theorem writeFields_eq_flatMap (level : Nat) (fs : List (String × Json)) :
    writeFields level fs =
      fs.flatMap fun f => ',' :: (writeBreak level ++ (writeString f.1 ++ ':' :: ' ' :: writeAt level f.2)) := by
  induction fs with
  | nil => rw [writeFields, List.flatMap_nil]
  | cons f fs ih => simp [writeFields, ih]

section

variable {α : Type} (part : α → List Char)

theorem valueEnds_parts (as : List α) (level : Nat) (rest : List Char) :
    ValueEnds (as.flatMap (fun a => ',' :: part a) ++ (writeBreak level ++ rest)) := by
  cases as with
  | nil =>
      rintro c ⟨⟩
      exact .inr rfl
  | cons a as =>
      rintro c ⟨⟩
      exact .inl rfl

theorem length_le_parts (as : List α) : as.length ≤ (as.flatMap fun a => ',' :: part a).length := by
  induction as with
  | nil => exact Nat.le_refl 0
  | cons a as ih =>
      rw [List.flatMap_cons, List.length_append, List.length_cons, List.length_cons]
      omega

theorem length_part_lt {as : List α} {a : α} (ha : a ∈ as) :
    (part a).length < (as.flatMap fun a => ',' :: part a).length := by
  have hmem : ',' :: part a ∈ as.map fun a => ',' :: part a := List.mem_map_of_mem ha
  rw [List.flatMap_def]
  exact (List.sublist_flatten_of_mem hmem).length_le

theorem return_notMem_parts {as : List α} (h : ∀ a ∈ as, '\r' ∉ part a) :
    '\r' ∉ as.flatMap fun a => ',' :: part a := by
  intro hmem
  obtain ⟨a, ha, hc⟩ := List.mem_flatMap.1 hmem
  rcases List.mem_cons.1 hc with hcomma | hc
  · cases hcomma
  · exact h a ha hc

end

/-- An array is longer than each of its values, and has more characters than values. -/
theorem length_array {level : Nat} {items : List Json} :
    items.length < (writeAt level (array items)).length ∧
      ∀ j ∈ items, (writeAt (level + 1) j).length < (writeAt level (array items)).length := by
  cases items with
  | nil =>
      rw [writeAt]
      exact ⟨by decide, by simp⟩
  | cons j js =>
      simp only [writeAt, writeItems_eq_flatMap, List.length_append, List.length_cons, List.forall_mem_cons]
      have hcount := length_le_parts (fun j => writeBreak (level + 1) ++ writeAt (level + 1) j) js
      refine ⟨by omega, by omega, fun k hk => ?_⟩
      have hlength := length_part_lt (fun j => writeBreak (level + 1) ++ writeAt (level + 1) j) hk
      rw [List.length_append] at hlength
      omega

/-- An object is longer than each of its values, and has more characters than fields. -/
theorem length_object {level : Nat} {fields : List (String × Json)} :
    fields.length < (writeAt level (object fields)).length ∧
      ∀ f ∈ fields, (writeAt (level + 1) f.2).length < (writeAt level (object fields)).length := by
  cases fields with
  | nil =>
      rw [writeAt]
      exact ⟨by decide, by simp⟩
  | cons f fs =>
      simp only [writeAt, writeFields_eq_flatMap, List.length_append, List.length_cons, List.forall_mem_cons]
      have hcount := length_le_parts (fun f : String × Json =>
        writeBreak (level + 1) ++ (writeString f.1 ++ ':' :: ' ' :: writeAt (level + 1) f.2)) fs
      refine ⟨by omega, by omega, fun g hg => ?_⟩
      have hlength := length_part_lt (fun f : String × Json =>
        writeBreak (level + 1) ++ (writeString f.1 ++ ':' :: ' ' :: writeAt (level + 1) f.2)) hg
      simp only [List.length_append, List.length_cons] at hlength
      omega

/-- The values of an array are read back if each of them is. -/
theorem readItems_write {value : List Char → Reading Json} {level outer : Nat} (j : Json) (js : List Json) {n : Nat}
    (hn : js.length < n) (hj : ∀ k ∈ j :: js, Storable k)
    (hvalue : ∀ k ∈ j :: js, ∀ rest, ValueEnds rest → value (writeAt level k ++ rest) = .ok (k, rest))
    (rest : List Char) :
    readItems value n (writeAt level j ++ (writeItems level js ++ (writeBreak outer ++ ']' :: rest))) =
      .ok (j :: js, rest) := by
  have hends (js : List Json) : ValueEnds (writeItems level js ++ (writeBreak outer ++ ']' :: rest)) := by
    rw [writeItems_eq_flatMap]
    exact valueEnds_parts _ js outer _
  induction js generalizing j n with
  | nil =>
      obtain ⟨n, rfl⟩ := Nat.exists_eq_succ_of_ne_zero (Nat.ne_zero_of_lt hn)
      have hfirst := hvalue j (List.mem_cons_self ..) _ (hends [])
      have hend : skipSpace (writeItems level [] ++ (writeBreak outer ++ ']' :: rest)) = ']' :: rest := by
        rw [writeItems, List.nil_append, skipSpace_writeBreak, skipSpace_cons rfl]
      simp only [readItems, skipSpace_writeAt level (hj j (List.mem_cons_self ..)), hfirst, hend]
  | cons k js ih =>
      obtain ⟨n, rfl⟩ := Nat.exists_eq_succ_of_ne_zero (Nat.ne_zero_of_lt hn)
      have hfirst := hvalue j (List.mem_cons_self ..) _ (hends (k :: js))
      have hrest := ih k (Nat.lt_of_succ_lt_succ hn) (fun i hi => hj i (List.mem_cons_of_mem j hi))
        fun i hi => hvalue i (List.mem_cons_of_mem j hi)
      have hcomma : skipSpace (writeItems level (k :: js) ++ (writeBreak outer ++ ']' :: rest)) =
          ',' :: (writeBreak level ++
            (writeAt level k ++ (writeItems level js ++ (writeBreak outer ++ ']' :: rest)))) := by
        simp only [writeItems, List.cons_append, List.append_assoc]
        exact skipSpace_cons rfl _
      simp only [readItems, skipSpace_writeAt level (hj j (List.mem_cons_self ..)), hfirst, hcomma]
      rw [← readItems_skipSpace, skipSpace_writeBreak, readItems_skipSpace, hrest]
      rfl

theorem readKey_writeString (key : String) (rest : List Char) :
    readKey (writeString key ++ ':' :: rest) = some (key, rest) := by
  have htext : writeString key ++ ':' :: rest = '"' :: (key.toList.flatMap writeChar ++ '"' :: ':' :: rest) := by
    simp [writeString]
  rw [htext, readKey, skipSpace_cons rfl]
  simp only [readString_flatMap]
  rw [skipSpace_cons rfl]
  rfl

/-- The fields of an object are read back if their values are. -/
theorem readFields_write {value : List Char → Reading Json} {level outer : Nat} (f : String × Json)
    (fs : List (String × Json)) {n : Nat} (hn : fs.length < n) (hf : ∀ g ∈ f :: fs, Storable g.2)
    (hvalue : ∀ g ∈ f :: fs, ∀ rest, ValueEnds rest → value (writeAt level g.2 ++ rest) = .ok (g.2, rest))
    (rest : List Char) :
    readFields value n (writeString f.1 ++ ':' :: ' ' :: (writeAt level f.2 ++ (writeFields level fs ++
      (writeBreak outer ++ '}' :: rest)))) = .ok (f :: fs, rest) := by
  have hends (fs : List (String × Json)) : ValueEnds (writeFields level fs ++ (writeBreak outer ++ '}' :: rest)) := by
    rw [writeFields_eq_flatMap]
    exact valueEnds_parts _ fs outer _
  have hblank (g : String × Json) (hg : Storable g.2) (cs : List Char) :
      skipSpace (' ' :: (writeAt level g.2 ++ cs)) = writeAt level g.2 ++ cs := skipSpace_writeAt level hg cs
  induction fs generalizing f n with
  | nil =>
      obtain ⟨n, rfl⟩ := Nat.exists_eq_succ_of_ne_zero (Nat.ne_zero_of_lt hn)
      have hfirst := hvalue f (List.mem_cons_self ..) _ (hends [])
      have hend : skipSpace (writeFields level [] ++ (writeBreak outer ++ '}' :: rest)) = '}' :: rest := by
        rw [writeFields, List.nil_append, skipSpace_writeBreak, skipSpace_cons rfl]
      simp only [readFields, readKey_writeString, hblank f (hf f (List.mem_cons_self ..)), hfirst, hend]
  | cons g fs ih =>
      obtain ⟨n, rfl⟩ := Nat.exists_eq_succ_of_ne_zero (Nat.ne_zero_of_lt hn)
      have hfirst := hvalue f (List.mem_cons_self ..) _ (hends (g :: fs))
      have hrest := ih g (Nat.lt_of_succ_lt_succ hn) (fun i hi => hf i (List.mem_cons_of_mem f hi))
        fun i hi => hvalue i (List.mem_cons_of_mem f hi)
      have hcomma : skipSpace (writeFields level (g :: fs) ++ (writeBreak outer ++ '}' :: rest)) =
          ',' :: (writeBreak level ++ (writeString g.1 ++ ':' :: ' ' :: (writeAt level g.2 ++ (writeFields level fs ++
            (writeBreak outer ++ '}' :: rest))))) := by
        simp only [writeFields, List.cons_append, List.append_assoc]
        exact skipSpace_cons rfl _
      simp only [readFields, readKey_writeString, hblank f (hf f (List.mem_cons_self ..)), hfirst, hcomma]
      rw [← readFields_skipSpace, skipSpace_writeBreak, readFields_skipSpace, hrest]
      rfl

theorem uniqueFields_of_nodup {fields : List (String × Json)} (h : (fields.map Prod.fst).Nodup) :
    uniqueFields fields = fields := by
  have htable : uniqueFields fields = (Table.ofList fields).entries := by
    change fields.foldl _ (Table.empty : Table Json).entries = Table.entries (fields.foldl _ _)
    exact List.foldl_hom Table.entries fun _ _ => rfl
  rw [htable]
  exact Table.entries_insertAll fields .empty h

/-- Only arrays and objects have parts. -/
theorem readValue_scalar {c : Char} (harray : c ≠ '[') (hobject : c ≠ '{') (bound n : Nat) (cs : List Char) :
    readValue bound (n + 1) (c :: cs) = readScalar (c :: cs) := by
  rw [readValue]
  · rintro rest ⟨⟩
    exact harray rfl
  · rintro rest ⟨⟩
    exact hobject rfl

theorem readValue_array {c : Char} (hc : c ≠ ']') {cs cs' : List Char} (hcs : skipSpace cs = c :: cs') (bound n : Nat) :
    readValue bound (n + 1) ('[' :: cs) =
      (readItems (readValue bound n) bound (c :: cs')).map fun (js, rest) => (array js, rest) := by
  rw [readValue, hcs]
  split
  · rename_i heq
    exact absurd (List.cons.inj heq).1 hc
  · rfl

theorem readValue_object {c : Char} (hc : c ≠ '}') {cs cs' : List Char} (hcs : skipSpace cs = c :: cs')
    (bound n : Nat) : readValue bound (n + 1) ('{' :: cs) =
      (readFields (readValue bound n) bound (c :: cs')).map fun (fs, rest) => (object (uniqueFields fs), rest) := by
  rw [readValue, hcs]
  split
  · rename_i heq
    exact absurd (List.cons.inj heq).1 hc
  · rfl

/-- A value is read back from its text wherever that stands. The bounds on how many parts there are and how deep they
are nested hold if they are not below the length of the text. -/
theorem readValue_writeAt {j : Json} (hj : Storable j) {bound n level : Nat} {rest : List Char}
    (hbound : (writeAt level j).length ≤ bound) (hn : (writeAt level j).length ≤ n) (hrest : ValueEnds rest) :
    readValue bound (n + 1) (writeAt level j ++ rest) = .ok (j, rest) := by
  induction hj generalizing n level rest with
  | null =>
      rw [writeAt]
      rfl
  | bool b => cases b <;> rw [writeAt] <;> rfl
  | float x =>
      obtain ⟨c, cs, htext, hc⟩ := exists_writeChars_eq_cons x
      obtain ⟨-, harray, hobject⟩ := startsScalar_iff.1 hc
      have hread := readScalar_float x hrest.numberEnds
      rw [htext] at hread
      rw [writeAt, htext, List.cons_append, readValue_scalar harray hobject]
      exact hread
  | string s =>
      rw [writeAt]
      exact readScalar_string s rest
  | @array items h ih =>
      obtain ⟨hcount, hlength⟩ := @length_array level items
      obtain ⟨n, rfl⟩ := Nat.exists_eq_succ_of_ne_zero (Nat.ne_zero_of_lt (Nat.lt_of_lt_of_le hcount hn))
      have hvalue : ∀ k ∈ items, ∀ rest, ValueEnds rest →
          readValue bound (n + 1) (writeAt (level + 1) k ++ rest) = .ok (k, rest) := fun k hk rest hends =>
        ih k hk (Nat.le_trans (Nat.le_of_lt (hlength k hk)) hbound)
          (Nat.le_of_lt_succ (Nat.lt_of_lt_of_le (hlength k hk) hn)) hends
      cases items with
      | nil =>
          rw [writeAt]
          rfl
      | cons j js =>
          obtain ⟨c, cs, htext, hc⟩ := exists_writeAt_eq_cons (level + 1) (h j (List.mem_cons_self ..))
          obtain ⟨hspace, hend, -⟩ := startsValue_iff.1 hc
          have hcount' : js.length < bound := Nat.lt_of_succ_lt (Nat.lt_of_lt_of_le hcount hbound)
          have hitems := @readItems_write _ (level + 1) level j js bound hcount' h hvalue rest
          rw [htext, List.cons_append] at hitems
          have hskip (tail : List Char) : skipSpace (writeBreak (level + 1) ++ (writeAt (level + 1) j ++ tail)) =
              c :: (cs ++ tail) := by
            rw [skipSpace_writeBreak, htext, List.cons_append, skipSpace_cons hspace]
          simp only [writeAt, List.cons_append, List.append_assoc, List.nil_append]
          rw [readValue_array hend (hskip _), hitems]
          rfl
  | @object fields hnames h ih =>
      obtain ⟨hcount, hlength⟩ := @length_object level fields
      obtain ⟨n, rfl⟩ := Nat.exists_eq_succ_of_ne_zero (Nat.ne_zero_of_lt (Nat.lt_of_lt_of_le hcount hn))
      have hvalue : ∀ g ∈ fields, ∀ rest, ValueEnds rest →
          readValue bound (n + 1) (writeAt (level + 1) g.2 ++ rest) = .ok (g.2, rest) := fun g hg rest hends =>
        ih g hg (Nat.le_trans (Nat.le_of_lt (hlength g hg)) hbound)
          (Nat.le_of_lt_succ (Nat.lt_of_lt_of_le (hlength g hg) hn)) hends
      cases fields with
      | nil =>
          rw [writeAt]
          rfl
      | cons f fs =>
          have hcount' : fs.length < bound := Nat.lt_of_succ_lt (Nat.lt_of_lt_of_le hcount hbound)
          have hfields := @readFields_write _ (level + 1) level f fs bound hcount' h hvalue rest
          have hskip (tail : List Char) : skipSpace (writeBreak (level + 1) ++ (writeString f.1 ++ tail)) =
              '"' :: (f.1.toList.flatMap writeChar ++ ['"'] ++ tail) := by
            rw [skipSpace_writeBreak]
            exact skipSpace_cons rfl _
          simp only [writeAt, List.cons_append, List.append_assoc, List.nil_append]
          rw [readValue_object (by decide) (hskip _)]
          change (readFields _ _ (writeString f.1 ++ _)).map _ = _
          rw [hfields]
          simp only [Except.map, uniqueFields_of_nodup hnames]

/-- **Written JSON is read back.** -/
theorem parse_write {j : Json} (hj : Storable j) : parse (write j) = .ok j := by
  have hspace := skipSpace_writeAt 0 hj []
  have hends : ValueEnds [] := fun c hc => by cases hc
  have hread := readValue_writeAt hj (Nat.le_succ (writeAt 0 j).length) (Nat.le_refl _) hends
  rw [List.append_nil] at hspace hread
  rw [parse, write, hspace, hread]
  rfl

/-! ### Line ends

Files are read with all line ends made one, which leaves written JSON as it is: carriage returns are escaped. -/

theorem return_notMem_writeChar (c : Char) : '\r' ∉ writeChar c := by
  unfold writeChar
  split
  all_goals try decide
  rename_i hreturn _ _ _
  split_ifs with hlow
  · have hhex : ∀ n < 0x20, '\r' ∉ hexDigits 4 n := by decide
    simpa using hhex c.toNat hlow
  · exact fun h => hreturn (List.mem_singleton.1 h).symm

theorem return_notMem_writeString (s : String) : '\r' ∉ writeString s := by
  simp [writeString, return_notMem_writeChar]

theorem return_notMem_writeBreak (level : Nat) : '\r' ∉ writeBreak level := by
  simp [writeBreak, List.mem_replicate]

theorem return_notMem_digits {digits : List Char} (h : ∀ c ∈ digits, c.isDigit = true) : '\r' ∉ digits :=
  fun hmem => ne_of_isDigit rfl (h '\r' hmem) rfl

theorem return_notMem_writeChars (x : Float) : '\r' ∉ NumberStyle.stored.writeChars x := by
  cases hx : magnitude x with
  | nan =>
      simp only [NumberStyle.writeChars, hx]
      decide
  | infinite =>
      simp only [NumberStyle.writeChars, hx]
      cases isNegative x <;> decide
  | finite mantissa scale =>
      obtain ⟨n, hn, hwrite, -⟩ := @NumberStyle.exists_writeChars_eq .stored (.inr rfl) x _ _ hx
      have hsign : '\r' ∉ (if isNegative x then ['-'] else []) := by cases isNegative x <;> decide
      have hpoint : '\r' ∉ (if n.fraction = [] then [] else '.' :: n.fraction) := by
        split_ifs
        · exact List.not_mem_nil
        · simpa using return_notMem_digits hn.fraction_digits
      have hpower : '\r' ∉ n.power.elim [] writePower := by
        cases n.power with
        | none => exact List.not_mem_nil
        | some power =>
            obtain ⟨digits, -, hdigits, -, hpower⟩ := exists_writePower_eq power
            rw [Option.elim_some, hpower]
            have hnot := return_notMem_digits hdigits
            split_ifs <;> simpa using hnot
      simp only [hwrite, Numeral.text, List.mem_append, not_or]
      exact ⟨hsign, return_notMem_digits hn.whole_digits, hpoint, hpower⟩

theorem return_notMem_writeAt {j : Json} (hj : Storable j) (level : Nat) : '\r' ∉ writeAt level j := by
  induction hj generalizing level with
  | null =>
      rw [writeAt]
      decide
  | bool b => cases b <;> rw [writeAt] <;> decide
  | float x =>
      rw [writeAt]
      exact return_notMem_writeChars x
  | string s =>
      rw [writeAt]
      exact return_notMem_writeString s
  | @array items h ih =>
      cases items with
      | nil =>
          rw [writeAt]
          decide
      | cons j js =>
          have hfirst := ih j (List.mem_cons_self ..) (level + 1)
          have hrest : '\r' ∉ writeItems (level + 1) js := by
            rw [writeItems_eq_flatMap]
            refine return_notMem_parts _ fun k hk => ?_
            simp [return_notMem_writeBreak, ih k (List.mem_cons_of_mem j hk)]
          simp [writeAt, return_notMem_writeBreak, hfirst, hrest]
  | @object fields hnames h ih =>
      cases fields with
      | nil =>
          rw [writeAt]
          decide
      | cons f fs =>
          have hfirst := ih f (List.mem_cons_self ..) (level + 1)
          have hrest : '\r' ∉ writeFields (level + 1) fs := by
            rw [writeFields_eq_flatMap]
            refine return_notMem_parts _ fun g hg => ?_
            simp [return_notMem_writeBreak, return_notMem_writeString, ih g (List.mem_cons_of_mem f hg)]
          simp [writeAt, return_notMem_writeBreak, return_notMem_writeString, hfirst, hrest]

theorem unifyNewlines_eq_self {cs : List Char} (h : '\r' ∉ cs) : unifyNewlines cs = cs := by
  induction cs with
  | nil => rfl
  | cons c cs ih =>
      simp only [List.mem_cons, not_or] at h
      rw [unifyNewlines, ih h.2]
      · rintro rest rfl
        exact absurd rfl h.1
      · rintro rfl
        exact absurd rfl h.1

end Binisaya.Json
