import Mathlib.Data.List.Basic
import Mathlib.Tactic.SplitIfs
import Binisaya.Field
import Binisaya.Operator
import Binisaya.Proofs.WellFormed

/-! What operators and input fields give. Operators that exist turn proper values into proper values, whatever an
input line holds gives proper values, and where there is no value the reason is an error of the language or the
remainder of an infinite number. -/

namespace Binisaya

/-- The kinds of errors that a run can report. -/
def runTimeKinds : List String :=
  ["NameError", "TypeError", "ArithmeticError", "InputArityError", "InputFormatError", "InputError"]

/-- The failures of programs that come from source text: an error that is reported under one of the kinds above and
is not about an operator that does not exist, or a remainder of an infinite number. -/
def Failure.IsRunTime : Failure → Prop
  | .fault f => f.kind ∈ runTimeKinds ∧
      ∀ symbol, f.message ≠ "unknown operator " ++ symbol ∧ f.message ≠ "unsupported unary operator " ++ symbol
  | .defect d => d = .infiniteDividend

/-- A result is proper, or the failure in its place is one of a run. -/
def Settled : Except Failure Value → Prop
  | .ok v => v.Proper
  | .error f => f.IsRunTime

/-- The errors that are neither about the source nor about an operator that does not exist. -/
def Fault.atRunTime : Fault → Bool
  | .unknownOperator _ | .unsupportedUnary _ | .unexpectedInput .. => false
  | _ => true

/-- How the messages of these errors begin. -/
def openings : List (List Char) :=
  [['o', 'p', 'e'], ['c', 'a', 'n'], ['d', 'i', 'v'], ['m', 'o', 'd'], ['u', 'n', 'd'], ['e', 'x', 'p'],
    ['i', 'n', 'v'], ['n', 'o', ' ']]

theorem isPrefix_append {l : List Char} {a b : String} (h : l <+: a.toList) : l <+: (a ++ b).toList := by
  rw [String.toList_append]
  exact h.trans (List.prefix_append _ _)

theorem Fault.exists_opening {f : Fault} (hf : f.atRunTime = true) : ∃ l ∈ openings, l <+: f.message.toList := by
  cases f with
  | operandsNotNumbers left right =>
      exact ⟨['o', 'p', 'e'], by decide, isPrefix_append (isPrefix_append (isPrefix_append (by decide)))⟩
  | operandNotNumber kind => exact ⟨['o', 'p', 'e'], by decide, isPrefix_append (by decide)⟩
  | operandsNotAddable => exact ⟨['o', 'p', 'e'], by decide, by decide⟩
  | numberWithCharacter => exact ⟨['c', 'a', 'n'], by decide, by decide⟩
  | divisionByZero => exact ⟨['d', 'i', 'v'], by decide, by decide⟩
  | moduloByZero => exact ⟨['m', 'o', 'd'], by decide, by decide⟩
  | undefinedVariable name => exact ⟨['u', 'n', 'd'], by decide, isPrefix_append (isPrefix_append (by decide))⟩
  | fieldCount expected got =>
      exact ⟨['e', 'x', 'p'], by decide, isPrefix_append (isPrefix_append (isPrefix_append (by decide)))⟩
  | badNumber name field =>
      exact ⟨['i', 'n', 'v'], by decide, isPrefix_append (isPrefix_append (isPrefix_append (by decide)))⟩
  | badBoolean name field | badCharacter name field =>
      exact ⟨['i', 'n', 'v'], by decide,
        isPrefix_append (isPrefix_append (isPrefix_append (isPrefix_append (by decide))))⟩
  | noInput => exact ⟨['n', 'o', ' '], by decide, by decide⟩
  | unknownOperator symbol | unsupportedUnary symbol | unexpectedInput line column => cases hf

/-- Their messages are told from those about operators by how they begin. -/
theorem Fault.message_ne {f : Fault} (hf : f.atRunTime = true) {l : List Char} {text : String} (hl : l <+: text.toList)
    (hlength : l.length = 3) (hnot : l ∉ openings) (symbol : String) : f.message ≠ text ++ symbol := by
  intro h
  obtain ⟨k, hk, hprefix⟩ := Fault.exists_opening hf
  have hthree : ∀ k ∈ openings, k.length = 3 := by decide
  rw [h] at hprefix
  have hlen : k.length = l.length := (hthree k hk).trans hlength.symm
  have hkl : k <+: l := List.prefix_of_prefix_length_le hprefix (isPrefix_append hl) (Nat.le_of_eq hlen)
  rw [hkl.eq_of_length hlen] at hk
  exact hnot hk

theorem Fault.kind_mem_runTimeKinds {f : Fault} (hf : f.atRunTime = true) : f.kind ∈ runTimeKinds := by
  cases f with
  | unexpectedInput line column => cases hf
  | _ => simp [Fault.kind, runTimeKinds]

theorem Fault.isRunTime {f : Fault} (hf : f.atRunTime = true) : (Failure.fault f).IsRunTime := by
  refine ⟨Fault.kind_mem_runTimeKinds hf, fun symbol => ⟨?_, ?_⟩⟩
  · exact @Fault.message_ne f hf ['u', 'n', 'k'] "unknown operator " (by decide) rfl (by decide) symbol
  · exact @Fault.message_ne f hf ['u', 'n', 's'] "unsupported unary operator " (by decide) rfl (by decide) symbol

theorem settled_onNumber {f : Float → Value} (hf : ∀ x, (f x).Proper) (a : Value) : Settled (onNumber f a) := by
  cases a with
  | number x => exact hf x
  | _ => exact Fault.isRunTime rfl

theorem settled_onNumbers {f : Float → Float → Except Failure Value} (hf : ∀ x y, Settled (f x y)) (a b : Value) :
    Settled (onNumbers f a b) := by
  unfold onNumbers
  split
  · exact hf _ _
  · exact Fault.isRunTime rfl

theorem settled_addValues (a b : Value) : Settled (addValues a b) := by
  unfold addValues
  split
  · trivial
  · trivial
  · trivial
  · trivial
  · exact Fault.isRunTime rfl

theorem settled_divide (x y : Float) : Settled (divide x y) := by
  unfold divide
  split
  · exact Fault.isRunTime rfl
  · trivial

theorem settled_remainder (x y : Float) : Settled (remainder x y) := by
  unfold remainder
  split
  · exact Fault.isRunTime rfl
  · cases remainder? x y with
    | some r => trivial
    | none => rfl

theorem settled_unequal (a b : Value) : Settled (unequal a b) := by
  unfold unequal
  split
  · exact Fault.isRunTime rfl
  · exact Fault.isRunTime rfl
  · trivial

theorem UnaryOp.settled_apply (op : UnaryOp) (a : Value) : Settled (op.apply a) := by
  cases op with
  | minus | plus =>
      refine settled_onNumber (fun x => ?_) a
      trivial
  | not => trivial

theorem BinaryOp.settled_apply (op : BinaryOp) (a b : Value) : Settled (op.apply a b) := by
  cases op with
  | concat | or | and | eq => trivial
  | ne => exact settled_unequal a b
  | add => exact settled_addValues a b
  | ge | le | gt | lt | sub | mul =>
      refine settled_onNumbers (fun x y => ?_) a b
      trivial
  | div => exact settled_onNumbers settled_divide a b
  | rem => exact settled_onNumbers settled_remainder a b

theorem settled_evalUnary {symbol : String} {op : UnaryOp} (hop : UnaryOp.ofSymbol? symbol = some op) (a : Value) :
    Settled (evalUnary symbol a) := by
  rw [evalUnary, hop]
  exact op.settled_apply a

theorem settled_evalBinary {symbol : String} {op : BinaryOp} (hop : BinaryOp.ofSymbol? symbol = some op) (a b : Value) :
    Settled (evalBinary symbol a b) := by
  rw [evalBinary, hop]
  exact op.settled_apply a b

theorem readBoolean?_proper {cs : List Char} {v : Value} (h : readBoolean? cs = some v) : v.Proper := by
  unfold readBoolean? at h
  split at h
  · cases h
    trivial
  · split at h
    · cases h
      trivial
    · cases h

/-- A field gives a proper value, or it does not fit. -/
theorem fieldValue_settled (name : String) (field : List Char) (type : Option VarType) :
    Settled ((fieldValue name field type).mapError .fault) := by
  unfold fieldValue
  by_cases hn : type = some .number
  · simp only [if_pos hn]
    cases parseNumber field with
    | ok x => trivial
    | error => exact Fault.isRunTime rfl
  · simp only [if_neg hn]
    by_cases hb : type = some .boolean
    · simp only [if_pos hb]
      cases h : readBoolean? field with
      | some v => exact readBoolean?_proper h
      | none => exact Fault.isRunTime rfl
    · simp only [if_neg hb]
      by_cases hc : type = some .character
      · simp only [if_pos hc]
        split
        · exact String.length_ofList
        · exact Fault.isRunTime rfl
      · simp only [if_neg hc]
        trivial

/-- The fields of a line give proper values, or one of them does not fit. -/
def FieldsSettled : Except Fault (List (String × Value)) → Prop
  | .ok pairs => ∀ q ∈ pairs, q.2.Proper
  | .error f => (Failure.fault f).IsRunTime

theorem fieldValues_settled (typeOf : String → Option VarType) (names : List String) (fields : List (List Char)) :
    FieldsSettled (fieldValues typeOf names fields) := by
  induction names generalizing fields with
  | nil => exact List.forall_mem_nil _
  | cons name names ih =>
      cases fields with
      | nil => exact List.forall_mem_nil _
      | cons field fields =>
          have hfield := fieldValue_settled name field (typeOf name)
          have hrest := ih fields
          rw [fieldValues]
          cases hv : fieldValue name field (typeOf name) with
          | error f =>
              rw [hv] at hfield
              exact hfield
          | ok v =>
              rw [hv] at hfield
              cases hvs : fieldValues typeOf names fields with
              | error f =>
                  rw [hvs] at hrest
                  exact hrest
              | ok pairs =>
                  rw [hvs] at hrest
                  intro q hq
                  rcases List.mem_cons.1 hq with rfl | hq
                  · exact hfield
                  · exact hrest q hq

theorem lineValues_settled (typeOf : String → Option VarType) (names : List String) (line : List Char) :
    FieldsSettled (lineValues typeOf names line) := by
  simp only [lineValues]
  split
  · exact fieldValues_settled typeOf names _
  · exact Fault.isRunTime rfl

end Binisaya
