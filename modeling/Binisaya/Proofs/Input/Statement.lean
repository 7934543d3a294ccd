import Binisaya.Proofs.Messages
import Binisaya.Proofs.Scoping.Flat
import Binisaya.Proofs.Stepwise.Reading
import Binisaya.Proofs.Tables

/-! Input statements as a whole. A statement takes one line, reads a field of it for each of its variables, and only
then gives the variables their values. So if there is no line, if it has another number of fields, or if some field does
not fit its variable, no variable has been touched. -/

namespace Binisaya

open Exec Machine Stepwise

/-- The value that a field has for a variable of some type. A variable without one of the three types that say how to
read it takes the field as it is. -/
inductive Fits : Option VarType → List Char → Value → Prop
  | number {field : List Char} {x : Float} (h : parseNumber field = .ok x) : Fits (some .number) field (.number x)
  | boolean {field : List Char} {v : Value} (h : readBoolean? field = some v) : Fits (some .boolean) field v
  | character (c : Char) : Fits (some .character) [c] (.char (String.ofList [c]))
  | text {type : Option VarType} {field : List Char} (hnumber : type ≠ some .number) (hboolean : type ≠ some .boolean)
      (hcharacter : type ≠ some .character) : Fits type field (.text (String.ofList field))

/-- What is said about a field that does not fit its variable. -/
def misfit (type : Option VarType) (name field : String) : Fault :=
  if type = some .number then .badNumber name field
  else if type = some .boolean then .badBoolean name field
  else .badCharacter name field

theorem misfit_kind (type : Option VarType) (name field : String) : (misfit type name field).kind = "InputFormatError" := by
  unfold misfit
  split_ifs <;> rfl

theorem fieldValue_of_fits {name : String} {field : List Char} {type : Option VarType} {v : Value}
    (h : Fits type field v) : fieldValue name field type = .ok v := by
  cases h with
  | number h => simp [fieldValue, h]
  | boolean h =>
      have hne : (some VarType.boolean : Option VarType) ≠ some .number := by decide
      simp [fieldValue, hne, h]
  | character c => rfl
  | text hnumber hboolean hcharacter => simp [fieldValue, hnumber, hboolean, hcharacter]

theorem fieldValue_of_not_fits (name : String) {field : List Char} {type : Option VarType}
    (h : ∀ v, ¬ Fits type field v) : fieldValue name field type = .error (misfit type name (String.ofList field)) := by
  unfold fieldValue misfit
  split_ifs with hnumber hboolean hcharacter
  · subst hnumber
    cases hread : parseNumber field with
    | error => rfl
    | ok x => exact absurd (.number hread) (h _)
  · subst hboolean
    cases hread : readBoolean? field with
    | none => rfl
    | some v => exact absurd (.boolean hread) (h v)
  · subst hcharacter
    split
    · next c => exact absurd (.character c) (h _)
    · rfl
  · exact absurd (.text hnumber hboolean hcharacter) (h _)

/-- Fields fit variables, one each, and these are the variables with the values that they are given. -/
inductive FieldsFit (typeOf : String → Option VarType) :
    List String → List (List Char) → List (String × Value) → Prop
  | nil : FieldsFit typeOf [] [] []
  | cons {name : String} {names : List String} {field : List Char} {fields : List (List Char)} {v : Value}
      {pairs : List (String × Value)} (h : Fits (typeOf name) field v) (hrest : FieldsFit typeOf names fields pairs) :
      FieldsFit typeOf (name :: names) (field :: fields) ((name, v) :: pairs)

/-- Of the fields that do not fit their variables, this one comes first. -/
inductive FirstMisfit (typeOf : String → Option VarType) :
    List String → List (List Char) → String → List Char → Prop
  | here {name : String} {names : List String} {field : List Char} {fields : List (List Char)}
      (h : ∀ v, ¬ Fits (typeOf name) field v) : FirstMisfit typeOf (name :: names) (field :: fields) name field
  | later {name name' : String} {names : List String} {field field' : List Char} {fields : List (List Char)} {v : Value}
      (h : Fits (typeOf name) field v) (hrest : FirstMisfit typeOf names fields name' field') :
      FirstMisfit typeOf (name :: names) (field :: fields) name' field'

section

variable {typeOf : String → Option VarType} {names : List String} {fields : List (List Char)}
  {pairs : List (String × Value)} {name : String} {field : List Char}

theorem FieldsFit.length_eq (h : FieldsFit typeOf names fields pairs) : fields.length = names.length := by
  induction h with
  | nil => rfl
  | cons _ _ ih => rw [List.length_cons, List.length_cons, ih]

theorem FieldsFit.fieldValues (h : FieldsFit typeOf names fields pairs) : fieldValues typeOf names fields = .ok pairs := by
  induction h with
  | nil => rfl
  | cons h _ ih =>
      rw [Binisaya.fieldValues, fieldValue_of_fits h, ih]
      rfl

theorem FirstMisfit.fieldValues (h : FirstMisfit typeOf names fields name field) :
    fieldValues typeOf names fields = .error (misfit (typeOf name) name (String.ofList field)) := by
  induction h with
  | here h =>
      rw [Binisaya.fieldValues, fieldValue_of_not_fits _ h]
      rfl
  | later h _ ih =>
      rw [Binisaya.fieldValues, fieldValue_of_fits h, ih]
      rfl

/-- Either all fields fit or there is a first one that does not. -/
theorem fieldsFit_or_firstMisfit (hlength : fields.length = names.length) :
    (∃ pairs, FieldsFit typeOf names fields pairs) ∨ ∃ name field, FirstMisfit typeOf names fields name field := by
  induction names generalizing fields with
  | nil =>
      rw [List.length_eq_zero_iff.1 hlength]
      exact .inl ⟨[], .nil⟩
  | cons name names ih =>
      cases fields with
      | nil => cases hlength
      | cons field fields =>
          by_cases hfits : ∃ v, Fits (typeOf name) field v
          · obtain ⟨v, hv⟩ := hfits
            rcases ih (Nat.succ.inj hlength) with ⟨pairs, hpairs⟩ | ⟨name', field', hmisfit⟩
            · exact .inl ⟨_, .cons hv hpairs⟩
            · exact .inr ⟨name', field', .later hv hmisfit⟩
          · exact .inr ⟨name, field, .here (not_exists.1 hfits)⟩

end

/-- Assigns values to names, one after the other. -/
def Scope.assignAll (s : Scope) (pairs : List (String × Value)) : Scope := pairs.foldl (fun s p => s.assign p.1 p.2) s

theorem Scope.get?_assign_of_ne {s : Scope} {name other : String} (h : other ≠ name) (v : Value) :
    (s.assign name v).get? other = s.get? other := by
  rw [get?_eq_column, column_assign_of_ne h v, ← get?_eq_column]

/-- A name that is assigned to several times keeps the last value. -/
theorem Scope.get?_assignAll (s : Scope) (pairs : List (String × Value)) (name : String) :
    (s.assignAll pairs).get? name = (pairs.reverse.lookup name).or (s.get? name) := by
  induction pairs generalizing s with
  | nil => rfl
  | cons p rest ih =>
      change ((s.assign p.1 p.2).assignAll rest).get? name = _
      rw [ih, List.reverse_cons, List.lookup_append, Option.or_assoc]
      congr 1
      by_cases hname : name = p.1
      · rw [hname, get?_assign_self, List.lookup_cons_self, Option.some_or]
      · rw [get?_assign_of_ne hname, List.lookup_cons, beq_eq_false_iff_ne.2 hname]
        rfl

theorem assignFields_notes (cfg : Settings) (pairs : List (String × Value)) (m : Machine) : ∃ m',
    assignFields cfg pairs m = .done () m' ∧ { m with scope := m.scope.assignAll pairs }.Notes cfg m' := by
  induction pairs generalizing m with
  | nil => exact ⟨m, rfl, Notes.refl cfg m⟩
  | cons p rest ih =>
      have hnotes := Notes.noted cfg (.readField p.1 p.2) { m with scope := m.scope.assign p.1 p.2 }
      have hscope : (noted cfg (.readField p.1 p.2) { m with scope := m.scope.assign p.1 p.2 }).scope =
          m.scope.assign p.1 p.2 := hnotes.same.1
      obtain ⟨m', hassign, hm'⟩ := ih (noted cfg (.readField p.1 p.2) { m with scope := m.scope.assign p.1 p.2 })
      rw [hscope] at hm'
      refine ⟨m', ?_, (hnotes.withScope _).trans hm'⟩
      rw [assignFields, bind_apply]
      simp only [Exec.assign, Exec.modify, note_bind, hassign]

/-- How an input statement may end. -/
inductive InputEnds (cfg : Settings) (names : List String) (m : Machine) : Outcome Unit → Prop
  | noInput {m' : Machine} (hnone : m.unread = []) (hm' : m.Notes cfg m') :
      InputEnds cfg names m (.failed (.fault .noInput) m')
  | fieldCount {line : List Char} {lines : List (List Char)} {m' : Machine} (hline : inputLines m.unread = line :: lines)
      (hcount : (lineFields (bareLine line)).length ≠ names.length)
      (hm' : { m with unread := lines.flatten }.Notes cfg m') :
      InputEnds cfg names m (.failed (.fault (.fieldCount names.length (lineFields (bareLine line)).length)) m')
  | misfit {line : List Char} {lines : List (List Char)} {name : String} {field : List Char} {m' : Machine}
      (hline : inputLines m.unread = line :: lines) (hcount : (lineFields (bareLine line)).length = names.length)
      (hmisfit : FirstMisfit m.typeOf names (lineFields (bareLine line)) name field)
      (hm' : { m with unread := lines.flatten }.Notes cfg m') :
      InputEnds cfg names m (.failed (.fault (misfit (m.typeOf name) name (String.ofList field))) m')
  | bound {line : List Char} {lines : List (List Char)} {pairs : List (String × Value)} {m' : Machine}
      (hline : inputLines m.unread = line :: lines)
      (hfit : FieldsFit m.typeOf names (lineFields (bareLine line)) pairs)
      (hm' : { m with scope := m.scope.assignAll pairs, unread := lines.flatten }.Notes cfg m') :
      InputEnds cfg names m (.done () m')

theorem Machine.Notes.same_reads {cfg : Settings} {m m' : Machine} (h : m.Notes cfg m') :
    m'.scope = m.scope ∧ m'.typeOf = m.typeOf ∧ m'.unread = m.unread := by
  obtain ⟨hscope, htypes, hunread⟩ := h.same
  refine ⟨hscope, ?_, hunread⟩
  funext name
  rw [Machine.typeOf, htypes, Machine.typeOf]

theorem exec_input (cfg : Settings) (n : Nat) (names : List String) (m : Machine) :
    exec cfg (n + 1) (.input names) m =
      (readInput names >>= assignFields cfg) (noted cfg (.executing "InputStmt") m) := note_bind ..

/-- Where all fields of the line fit, the variables are given their values. -/
theorem exec_input_of_fits (cfg : Settings) (n : Nat) {names : List String} {m : Machine} {line rest : List Char}
    {pairs : List (String × Value)} (hline : takeLine? m.unread = some (line, rest))
    (hfit : FieldsFit m.typeOf names (lineFields line) pairs) : ∃ m', exec cfg (n + 1) (.input names) m = .done () m' ∧
      { m with scope := m.scope.assignAll pairs, unread := rest }.Notes cfg m' := by
  have hnotes := Notes.noted cfg (.executing "InputStmt") m
  rw [exec_input, bind_apply]
  generalize noted cfg (.executing "InputStmt") m = m₁ at hnotes
  obtain ⟨hscope, htypeOf, hunread⟩ := hnotes.same_reads
  have hvalues : lineValues m₁.typeOf names line = .ok pairs := by
    rw [lineValues, if_pos hfit.length_eq, htypeOf, hfit.fieldValues]
  obtain ⟨m', hassign, hm'⟩ := assignFields_notes cfg pairs { m₁ with unread := rest }
  rw [readInput_of_ok (hunread ▸ hline) hvalues]
  refine ⟨m', hassign, ((hnotes.withUnread rest).withScope _).trans ?_⟩
  rw [hscope] at hm'
  exact hm'

theorem exec_input_ends (cfg : Settings) (n : Nat) (names : List String) (m : Machine) :
    InputEnds cfg names m (exec cfg (n + 1) (.input names) m) := by
  have hnotes := Notes.noted cfg (.executing "InputStmt") m
  obtain ⟨-, htypeOf, hunread⟩ := hnotes.same_reads
  cases hlines : inputLines m.unread with
  | nil =>
      have hnone : m.unread = [] := by
        rw [← flatten_inputLines m.unread, hlines]
        rfl
      rw [exec_input, bind_apply, readInput_of_none (takeLine?_eq_none.2 (hunread.trans hnone))]
      exact .noInput hnone hnotes
  | cons line lines =>
      have hline : takeLine? m.unread = some (bareLine line, lines.flatten) := by
        rw [takeLine?_eq, hlines]
        rfl
      have hrefused {f : Fault} (hf : lineValues m.typeOf names (bareLine line) = .error f) :
          exec cfg (n + 1) (.input names) m =
            .failed (.fault f) { noted cfg (.executing "InputStmt") m with unread := lines.flatten } := by
        rw [exec_input, bind_apply, readInput_of_error (hunread ▸ hline) (htypeOf ▸ hf)]
      by_cases hcount : (lineFields (bareLine line)).length = names.length
      · rcases @fieldsFit_or_firstMisfit m.typeOf names _ hcount with ⟨pairs, hfit⟩ | ⟨name, field, hmisfit⟩
        · obtain ⟨m', hexec, hm'⟩ := exec_input_of_fits cfg n hline hfit
          rw [hexec]
          exact .bound hlines hfit hm'
        · have hvalues : lineValues m.typeOf names (bareLine line) =
              .error (misfit (m.typeOf name) name (String.ofList field)) := by
            rw [lineValues, if_pos hcount, hmisfit.fieldValues]
          rw [hrefused hvalues]
          exact .misfit hlines hcount hmisfit (hnotes.withUnread lines.flatten)
      · have hvalues : lineValues m.typeOf names (bareLine line) =
            .error (.fieldCount names.length (lineFields (bareLine line)).length) := by
          rw [lineValues, if_neg hcount]
        rw [hrefused hvalues]
        exact .fieldCount hlines hcount (hnotes.withUnread lines.flatten)

/-- The action fails with an error of some kind. -/
def Outcome.FailsAs {α : Type} (o : Outcome α) (kind : String) : Prop :=
  ∃ f m, o = .failed (.fault f) m ∧ f.kind = kind

@[simp]
theorem Outcome.failsAs_failed {α : Type} (f : Fault) (m : Machine) (kind : String) :
    (Outcome.failed (.fault f) m : Outcome α).FailsAs kind ↔ f.kind = kind := by
  simp [FailsAs]

@[simp]
theorem Outcome.not_failsAs_done {α : Type} (a : α) (m : Machine) (kind : String) :
    ¬ (Outcome.done a m).FailsAs kind := by
  simp [FailsAs]

theorem ne_nil_of_inputLines {cs line : List Char} {lines : List (List Char)} (h : inputLines cs = line :: lines) :
    cs ≠ [] := by
  rintro rfl
  cases h

namespace InputEnds

variable {cfg : Settings} {names : List String} {m : Machine} {o : Outcome Unit}

/-- All variables have been given the values of their fields, or nothing has changed but for the input. -/
theorem bound_or_failed (h : InputEnds cfg names m o) :
    (∃ pairs m', o = .done () m' ∧
        FieldsFit m.typeOf names (lineFields (bareLine ((inputLines m.unread).headD []))) pairs ∧
        { m with scope := m.scope.assignAll pairs, unread := (inputLines m.unread).tail.flatten }.Notes cfg m') ∨
      ∃ f m', o = .failed (.fault f) m' ∧ { m with unread := (inputLines m.unread).tail.flatten }.Notes cfg m' := by
  cases h with
  | @noInput m' hnone hm' =>
      have hsame : { m with unread := (inputLines m.unread).tail.flatten } = m := by
        rw [hnone, inputLines, List.tail_nil, List.flatten_nil, ← hnone]
      exact .inr ⟨_, m', rfl, hsame.symm ▸ hm'⟩
  | @fieldCount line lines m' hline _ hm' =>
      rw [hline]
      exact .inr ⟨_, m', rfl, hm'⟩
  | @misfit line lines name field m' hline _ _ hm' =>
      rw [hline]
      exact .inr ⟨_, m', rfl, hm'⟩
  | @bound line lines pairs m' hline hfit hm' =>
      rw [hline]
      exact .inl ⟨pairs, m', rfl, hfit, hm'⟩

theorem inputError_iff (h : InputEnds cfg names m o) : o.FailsAs "InputError" ↔ m.unread = [] := by
  cases h with
  | noInput hnone _ => simp [hnone, Fault.kind]
  | fieldCount hline _ _ => simp [ne_nil_of_inputLines hline, Fault.kind]
  | misfit hline _ _ _ => simp [ne_nil_of_inputLines hline, misfit_kind]
  | bound hline _ _ => simp [ne_nil_of_inputLines hline]

theorem arityError_iff (h : InputEnds cfg names m o) : o.FailsAs "InputArityError" ↔
    m.unread ≠ [] ∧ (lineFields (bareLine ((inputLines m.unread).headD []))).length ≠ names.length := by
  cases h with
  | noInput hnone _ => simp [hnone, Fault.kind]
  | fieldCount hline hcount _ => simp [ne_nil_of_inputLines hline, hline, hcount, Fault.kind]
  | misfit hline hcount _ _ => simp [hline, hcount, misfit_kind]
  | bound hline hfit _ => simp [hline, hfit.length_eq]

/-- A failure is one of a field that does not fit just when it is that of the first such field. -/
theorem formatError_iff (h : InputEnds cfg names m o) {f : Fault} (hf : f.kind = "InputFormatError") :
    (∃ m', o = .failed (.fault f) m') ↔ m.unread ≠ [] ∧
      (lineFields (bareLine ((inputLines m.unread).headD []))).length = names.length ∧
      ∃ name field, FirstMisfit m.typeOf names (lineFields (bareLine ((inputLines m.unread).headD []))) name field ∧
        f = Binisaya.misfit (m.typeOf name) name (String.ofList field) := by
  have hother {g : Fault} (hg : g.kind ≠ "InputFormatError") : g ≠ f := by
    rintro rfl
    exact hg hf
  cases h with
  | noInput hnone _ =>
      have hne : Fault.noInput ≠ f := hother (by decide)
      simp [hnone, hne]
  | @fieldCount line lines m' hline hcount _ =>
      have hne : Fault.fieldCount names.length (lineFields (bareLine line)).length ≠ f := hother (by simp [Fault.kind])
      simp [hline, hcount, hne]
  | @misfit line lines name field m' hline hcount hmisfit _ =>
      rw [hline, List.headD_cons]
      refine ⟨fun hfailed => ⟨ne_nil_of_inputLines hline, hcount, name, field, hmisfit, ?_⟩, fun hfirst => ?_⟩
      · obtain ⟨m'', hm''⟩ := hfailed
        injection hm'' with hfault
        injection hfault with hfault
        exact hfault.symm
      · obtain ⟨-, -, name', field', hfirst, rfl⟩ := hfirst
        have hsame := Except.error.inj (hmisfit.fieldValues.symm.trans hfirst.fieldValues)
        exact ⟨m', by rw [hsame]⟩
  | bound hline hfit _ =>
      rw [hline, List.headD_cons]
      refine ⟨fun hfailed => ?_, fun hfirst => ?_⟩
      · obtain ⟨m'', hm''⟩ := hfailed
        cases hm''
      · obtain ⟨-, -, name, field, hfirst, -⟩ := hfirst
        have hboth := hfit.fieldValues.symm.trans hfirst.fieldValues
        cases hboth

end InputEnds

/-- **An input statement does all or nothing.** Either each variable has a field of the line that fits it, and the
statement leaves the variables as if they were assigned to from left to right, so that a repeated one keeps the last of
its fields; or the statement fails and has changed neither a variable nor a type nor the output. It takes one line, if
there is one. It fails for want of input just when there is none; otherwise by the number of fields just when that is
not the number of variables; and otherwise, in the name of its variable, by the first field that does not fit. -/
theorem input_all_or_nothing (cfg : Settings) (n : Nat) (names : List String) (m : Machine) :
    let o := exec cfg (n + 1) (.input names) m
    let fields := lineFields (bareLine ((inputLines m.unread).headD []))
    let rest := (inputLines m.unread).tail.flatten
    ((∃ pairs m', o = .done () m' ∧ FieldsFit m.typeOf names fields pairs ∧
          { m with scope := m.scope.assignAll pairs, unread := rest }.Notes cfg m' ∧
          ∀ name, m'.scope.get? name = (pairs.reverse.lookup name).or (m.scope.get? name)) ∨
        ∃ f m', o = .failed (.fault f) m' ∧ { m with unread := rest }.Notes cfg m' ∧
          m'.scope = m.scope ∧ m'.types = m.types ∧ (m.KeepsOutput cfg → m'.output = m.output)) ∧
      (o.FailsAs "InputError" ↔ m.unread = []) ∧
      (o.FailsAs "InputArityError" ↔ m.unread ≠ [] ∧ fields.length ≠ names.length) ∧
      ∀ f : Fault, f.kind = "InputFormatError" →
        ((∃ m', o = .failed (.fault f) m') ↔ m.unread ≠ [] ∧ fields.length = names.length ∧
          ∃ name field, FirstMisfit m.typeOf names fields name field ∧
            f = misfit (m.typeOf name) name (String.ofList field)) := by
  have hends := exec_input_ends cfg n names m
  refine ⟨?_, hends.inputError_iff, hends.arityError_iff, fun f hf => hends.formatError_iff hf⟩
  rcases hends.bound_or_failed with ⟨pairs, m', ho, hfit, hm'⟩ | ⟨f, m', ho, hm'⟩
  · refine .inl ⟨pairs, m', ho, hfit, hm', fun name => ?_⟩
    rw [hm'.same.1, Scope.get?_assignAll]
  · obtain ⟨hscope, htypes, -⟩ := hm'.same
    refine .inr ⟨f, m', ho, hm', hscope, htypes, fun hkeeps => ?_⟩
    rw [hm'.eq_of_keepsOutput hkeeps]

/-- Two number variables and a boolean one inside another scope, with two lines to read. -/
def formMachine : Machine :=
  { scope := ⟨.empty, [.ofList [("n", .text "old")]]⟩
    types := .ofList [("n", some .number), ("k", some .number), ("b", some .boolean)]
    unread := "1, maybe ,x\nrest".toList }

theorem input_all_or_nothing_formMachine :
    (exec {} 1 (.input ["n", "b", "k"]) formMachine =
      .failed (.fault (.badBoolean "b" "maybe")) { formMachine with unread := "rest".toList }) ∧
    FirstMisfit formMachine.typeOf ["n", "b", "k"] [['1'], "maybe".toList, ['x']] "b" "maybe".toList := by
  have hexec : exec {} 1 (.input ["n", "b", "k"]) formMachine =
      .failed (.fault (.badBoolean "b" "maybe")) { formMachine with unread := "rest".toList } := by decide +kernel
  refine ⟨hexec, ?_⟩
  obtain ⟨-, -, -, hformat⟩ := input_all_or_nothing {} 0 ["n", "b", "k"] formMachine
  obtain ⟨-, -, name, field, hfirst, hfault⟩ := (hformat (.badBoolean "b" "maybe") rfl).1 ⟨_, hexec⟩
  have hfields : lineFields (bareLine ((inputLines formMachine.unread).headD [])) =
      [['1'], "maybe".toList, ['x']] := by decide +kernel
  rw [hfields] at hfirst
  unfold misfit at hfault
  split_ifs at hfault
  injection hfault with hname hfield
  have hfield' : "maybe".toList = field := by rw [hfield, String.toList_ofList]
  rwa [← hname, ← hfield'] at hfirst

end Binisaya
