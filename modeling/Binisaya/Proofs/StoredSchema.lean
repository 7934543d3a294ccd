import Binisaya.Proofs.Number.Rounding
import Binisaya.Proofs.StoredRoundTrip

/-! The format of stored programs as a table, and what reading has to do with it. Each kind of node has its fields, in
the order in which they are read. Where every field holds what the table says, all that can be wrong with a value is
listed by its place, and reading finds the first of it. -/

namespace Binisaya.Document

/-- What a field of a node is for. -/
inductive FieldSort where
  | node
  | nodes
  | text
  | texts
  | literal
  | type
  | types

structure FieldRule where
  name : String
  sort : FieldSort
  required : Bool

/-- The fields of each kind of node, in the order of reading. -/
def fieldRules : String → Option (List FieldRule)
  | "Program" => some [⟨"variable_types", .types, false⟩, ⟨"body", .nodes, true⟩]
  | "ExprStmt" => some [⟨"expr", .node, true⟩]
  | "PrintStmt" => some [⟨"exprs", .nodes, true⟩]
  | "VarDecl" => some [⟨"name", .text, true⟩, ⟨"expr", .node, false⟩, ⟨"type_spec", .type, false⟩]
  | "Block" => some [⟨"statements", .nodes, true⟩]
  | "IfStmt" => some [⟨"condition", .node, true⟩, ⟨"then_branch", .node, true⟩, ⟨"else_branch", .node, false⟩]
  | "WhileStmt" => some [⟨"condition", .node, true⟩, ⟨"body", .node, true⟩]
  | "InputStmt" => some [⟨"names", .texts, true⟩]
  | "Literal" => some [⟨"value", .literal, true⟩, ⟨"literal_type", .text, true⟩]
  | "Grouping" => some [⟨"expr", .node, true⟩]
  | "UnaryOp" => some [⟨"op", .text, true⟩, ⟨"operand", .node, true⟩]
  | "BinaryOp" => some [⟨"op", .text, true⟩, ⟨"left", .node, true⟩, ⟨"right", .node, true⟩]
  | "Ident" => some [⟨"name", .text, true⟩]
  | "Assign" => some [⟨"name", .text, true⟩, ⟨"value", .node, true⟩]
  | _ => none

/-- The rules for an object, if its kind is known. -/
def rulesOf? (fields : List (String × Json)) : Option (List FieldRule) :=
  match fields.lookup "type" with
  | some (.string kind) => fieldRules kind
  | _ => none

/-- The values that stand for nodes in a field. -/
def FieldSort.nodesIn : FieldSort → Json → List Json
  | .node, j => [j]
  | .nodes, .array js => js
  | _, _ => []

def FieldRule.nodes (r : FieldRule) (fields : List (String × Json)) : List Json :=
  (fields.lookup r.name).elim [] r.sort.nodesIn

/-- A type is a text or missing. -/
def IsType (j : Json) : Prop := j = .null ∨ ∃ s, j = .string s

/-- What the format prescribes for a literal. What an object is tagged with is left open, but a character must be a
text. -/
inductive IsLiteral : Json → Prop
  | null : IsLiteral .null
  | bool (b : Bool) : IsLiteral (.bool b)
  | int {n : Int} (h : n.natAbs < wholeLimit) : IsLiteral (.int n)
  | float (x : Float) : IsLiteral (.float x)
  | string (s : String) : IsLiteral (.string s)
  | object {fields : List (String × Json)}
      (h : fields.lookup "__type__" = some (.string "Char") → ∀ j, fields.lookup "value" = some j → ∃ s, j = .string s) :
      IsLiteral (.object fields)

/-- What the format prescribes for a field. What should be a node may be anything. -/
inductive Prescribed : FieldSort → Json → Prop
  | node (j : Json) : Prescribed .node j
  | nodes (js : List Json) : Prescribed .nodes (.array js)
  | text (s : String) : Prescribed .text (.string s)
  | texts (names : List String) : Prescribed .texts (.array (names.map .string))
  | literal {j : Json} (h : IsLiteral j) : Prescribed .literal j
  | type {j : Json} (h : IsType j) : Prescribed .type j
  | types {entries : List (String × Json)} (h : ∀ e ∈ entries, IsType e.2) : Prescribed .types (.object entries)

/-- The field is missing or holds what is prescribed. -/
def FieldRule.TypedIn (r : FieldRule) (fields : List (String × Json)) : Prop :=
  ∀ j, fields.lookup r.name = some j → Prescribed r.sort j

/-- All fields that are there, at any depth, hold what is prescribed. -/
inductive FieldsTyped : Json → Prop
  | other {j : Json} (h : ∀ fields, j ≠ .object fields) : FieldsTyped j
  | unknown {fields : List (String × Json)} (h : rulesOf? fields = none) : FieldsTyped (.object fields)
  | known {fields : List (String × Json)} {rules : List FieldRule} (h : rulesOf? fields = some rules)
      (htyped : ∀ r ∈ rules, r.TypedIn fields) (hnodes : ∀ r ∈ rules, ∀ j ∈ r.nodes fields, FieldsTyped j) :
      FieldsTyped (.object fields)

/-- The object has the tag of a literal. -/
def Tagged (fields : List (String × Json)) : Prop :=
  fields.lookup "__type__" = some (.string "Nil") ∨
    fields.lookup "__type__" = some (.string "Char") ∧ fields.lookup "value" ≠ none

/-- At any depth nodes are null or objects of known kinds with all fields that are required, and objects that stand for
literals are tagged. -/
inductive Conforms : Json → Prop
  | null : Conforms .null
  | known {fields : List (String × Json)} {rules : List FieldRule} (h : rulesOf? fields = some rules)
      (hrequired : ∀ r ∈ rules, r.required = true → fields.lookup r.name ≠ none)
      (htagged : ∀ r ∈ rules, r.sort = .literal → ∀ l, fields.lookup r.name = some (.object l) → Tagged l)
      (hnodes : ∀ r ∈ rules, ∀ j ∈ r.nodes fields, Conforms j) : Conforms (.object fields)

/-- What may be wrong with an object that stands for a literal. -/
inductive LiteralDefect (l : List (String × Json)) : Flaw → Prop
  | untagged (hchar : l.lookup "__type__" ≠ some (.string "Char")) (hnil : l.lookup "__type__" ≠ some (.string "Nil")) :
      LiteralDefect l .notLiteral
  | noCharacter (hchar : l.lookup "__type__" = some (.string "Char")) (hnone : l.lookup "value" = none) :
      LiteralDefect l (.missingField "value")

/-- What may be wrong with a field itself. -/
inductive FieldDefect (fields : List (String × Json)) (r : FieldRule) : Flaw → Prop
  | missing (hrequired : r.required = true) (hnone : fields.lookup r.name = none) :
      FieldDefect fields r (.missingField r.name)
  | literal {l : List (String × Json)} {f : Flaw} (hsort : r.sort = .literal)
      (hobject : fields.lookup r.name = some (.object l)) (hf : LiteralDefect l f) : FieldDefect fields r f

/-- What is wrong with a value, and where. A place lists the numbers of the fields and of the nodes in them that lead
to it; it need not be the first one. -/
inductive DefectAt : Json → List Nat → Flaw → Prop
  | notObject {j : Json} (hnull : j ≠ .null) (hobject : ∀ fields, j ≠ .object fields) : DefectAt j [] .notObject
  | unknownKind {fields : List (String × Json)} (h : rulesOf? fields = none) :
      DefectAt (.object fields) [] (.unknownKind (showKind (fields.lookup "type")))
  | field {fields : List (String × Json)} {rules : List FieldRule} {r : FieldRule} {i : Nat} {f : Flaw}
      (h : rulesOf? fields = some rules) (hr : rules[i]? = some r) (hf : FieldDefect fields r f) :
      DefectAt (.object fields) [i] f
  | inside {fields : List (String × Json)} {rules : List FieldRule} {r : FieldRule} {i k : Nat} {j : Json}
      {place : List Nat} {f : Flaw} (h : rulesOf? fields = some rules) (hr : rules[i]? = some r)
      (hj : (r.nodes fields)[k]? = some j) (hf : DefectAt j place f) : DefectAt (.object fields) (i :: k :: place) f

/-- Of all that is wrong with a value this comes first: what stands outside comes before what stands inside, and of two
fields or nodes the first one with all that it holds. -/
def FirstDefect (j : Json) (f : Flaw) : Prop :=
  ∃ place, DefectAt j place f ∧
    ∀ place' f', DefectAt j place' f' → place' = place ∧ f' = f ∨ List.Lex (· < ·) place place'

/-- What was found is the first of what there is to find, places compared as those of defects are. -/
inductive Finds (D : List Nat → Flaw → Prop) : Option Flaw → Prop
  | nothing (h : ∀ place f, ¬ D place f) : Finds D none
  | first {place : List Nat} {f : Flaw} (h : D place f)
      (hfirst : ∀ place' f', D place' f' → place' = place ∧ f' = f ∨ List.Lex (· < ·) place place') :
      Finds D (some f)

/-- What there is to find in the members of a list. -/
def InList {α : Type} (D : α → List Nat → Flaw → Prop) (l : List α) (place : List Nat) (f : Flaw) : Prop :=
  ∃ i rest a, place = i :: rest ∧ l[i]? = some a ∧ D a rest f

theorem Finds.not_of_none {D : List Nat → Flaw → Prop} (h : Finds D none) (place : List Nat) (f : Flaw) : ¬ D place f := by
  cases h with
  | nothing h => exact h place f

/-- Going through a list finds the first of all that there is to find in its members. -/
theorem finds_findSome? {α : Type} {D : α → List Nat → Flaw → Prop} {l : List α} {find : α → Option Flaw}
    (h : ∀ a ∈ l, Finds (D a) (find a)) : Finds (InList D l) (l.findSome? find) := by
  cases hfind : l.findSome? find with
  | none =>
      rw [List.findSome?_eq_none_iff] at hfind
      refine .nothing fun place f => ?_
      rintro ⟨i, rest, a, -, ha, hf⟩
      have hmem := List.mem_of_getElem? ha
      have hnone := h a hmem
      rw [hfind a hmem] at hnone
      exact hnone.not_of_none rest f hf
  | some f =>
      obtain ⟨before, a, after, rfl, ha, hbefore⟩ := List.findSome?_eq_some_iff.1 hfind
      have hfinds := h a (List.mem_append_right before List.mem_cons_self)
      rw [ha] at hfinds
      cases hfinds with
      | @first place _ hf hfirst =>
          have hat : (before ++ a :: after)[before.length]? = some a := by simp
          refine .first ⟨before.length, place, a, rfl, hat, hf⟩ ?_
          rintro _ f' ⟨i, rest, b, rfl, hb, hf'⟩
          rcases lt_trichotomy i before.length with hlt | rfl | hgt
          · rw [List.getElem?_append_left hlt] at hb
            have hmem := List.mem_of_getElem? hb
            have hnone := h b (List.mem_append_left _ hmem)
            rw [hbefore b hmem] at hnone
            exact absurd hf' (hnone.not_of_none rest f')
          · rw [hat, Option.some.injEq] at hb
            subst hb
            rcases hfirst rest f' hf' with ⟨rfl, rfl⟩ | hlex
            · exact .inl ⟨rfl, rfl⟩
            · exact .inr (.cons hlex)
          · exact .inr (.rel hgt)

/-- What is found first is either something about the whole or, where there is no such thing, inside. -/
theorem finds_or {own : Option Flaw} {P : Flaw → Prop} (hown : ∀ f, own = some f ↔ P f) {D : List Nat → Flaw → Prop}
    {o : Option Flaw} (hinside : ∀ f, ¬ D [] f) (h : Finds D o) :
    Finds (fun place f => place = [] ∧ P f ∨ D place f) (own.or o) := by
  cases hf : own with
  | some f =>
      refine .first (.inl ⟨rfl, (hown f).1 hf⟩) fun place' f' => ?_
      rintro (⟨rfl, hf'⟩ | hf')
      · rw [← hown, hf, Option.some.injEq] at hf'
        exact .inl ⟨rfl, hf'.symm⟩
      · cases place' with
        | nil => exact absurd hf' (hinside f')
        | cons i rest => exact .inr .nil
  | none =>
      have hnone (f : Flaw) : ¬ P f := by
        rw [← hown, hf]
        exact (Option.some_ne_none f).symm
      rw [Option.none_or]
      simpa only [hnone, and_false, false_or] using h

/-! ### Reading -/

/-- The flaw with which reading ends, if it does. -/
def flaw? {α : Type} : Except Flaw α → Option Flaw
  | .ok _ => none
  | .error f => some f

theorem flaw?_eq_none_iff {α : Type} (x : Except Flaw α) : flaw? x = none ↔ ∃ a, x = .ok a := by
  cases x <;> simp [flaw?]

theorem flaw?_eq_some_iff {α : Type} (x : Except Flaw α) (f : Flaw) : flaw? x = some f ↔ x = .error f := by
  cases x <;> simp [flaw?]

theorem flaw?_bind_pure {α β : Type} (x : Except Flaw α) (g : α → β) : flaw? (x >>= fun a => pure (g a)) = flaw? x := by
  cases x <;> rfl

theorem flaw?_bind {α β : Type} (x : Except Flaw α) {g : α → Except Flaw β} {o : Option Flaw}
    (h : ∀ a, flaw? (g a) = o) : flaw? (x >>= g) = (flaw? x).or o := by
  cases x with
  | ok a => exact h a
  | error f => rfl

/-- The flaw of what a field holds, nodes aside. -/
def FieldSort.flaw? : FieldSort → Json → Option Flaw
  | .literal, j => Document.flaw? (toValue j)
  | _, _ => none

/-- The flaw of a field itself. -/
def FieldRule.flaw? (r : FieldRule) (fields : List (String × Json)) : Option Flaw :=
  (fields.lookup r.name).elim (if r.required then some (.missingField r.name) else none) r.sort.flaw?

/-- The flaw of a field with all that stands in it. -/
def fieldFlaw? (fields : List (String × Json)) (r : FieldRule) : Option Flaw :=
  (r.flaw? fields).or ((r.nodes fields).findSome? fun j => flaw? (toNode j))

/-- Reading goes through fields in order. -/
def Checks {α : Type} (x : Except Flaw α) (fields : List (String × Json)) (rules : List FieldRule) : Prop :=
  flaw? x = rules.findSome? (fieldFlaw? fields)

section

variable {fields : List (String × Json)} {α β : Type}

theorem Checks.pure (a : α) : Checks (pure a) fields [] := rfl

theorem Checks.bind {x : Except Flaw α} {g : α → Except Flaw β} {r : FieldRule} {rules : List FieldRule}
    (hx : flaw? x = fieldFlaw? fields r) (hg : ∀ a, Checks (g a) fields rules) :
    Checks (x >>= g) fields (r :: rules) := by
  rw [Checks, flaw?_bind x hg, hx, List.findSome?_cons]
  cases fieldFlaw? fields r <;> rfl

theorem flaw?_toNodes (js : List Json) : flaw? (toNodes js) = js.findSome? fun j => flaw? (toNode j) := by
  induction js with
  | nil => rfl
  | cons j js ih =>
      rw [toNodes, flaw?_bind _ fun n => flaw?_bind_pure (toNodes js) (n :: ·), ih, List.findSome?_cons]
      cases flaw? (toNode j) <;> rfl

theorem elim_lookup_cons (name k : String) (j : Json) (fields : List (String × Json)) (b : α) (g : Json → α) :
    (((k, j) :: fields).lookup name).elim b g = if k = name then g j else (fields.lookup name).elim b g := by
  rw [List.lookup_cons]
  by_cases hk : k = name
  · rw [if_pos hk, hk, beq_self_eq_true]
    rfl
  · rw [if_neg hk, beq_eq_false_iff_ne.2 (Ne.symm hk)]

theorem child_eq (name : String) (fields : List (String × Json)) :
    child name fields = (fields.lookup name).elim (.error (.missingField name)) toNode := by
  induction fields with
  | nil => rfl
  | cons p fields ih => rw [child, ih, elim_lookup_cons]

theorem childOrNull_eq (name : String) (fields : List (String × Json)) :
    childOrNull name fields = (fields.lookup name).elim (.ok .null) toNode := by
  induction fields with
  | nil => rfl
  | cons p fields ih => rw [childOrNull, ih, elim_lookup_cons]

theorem children_eq (name : String) (fields : List (String × Json)) :
    children name fields = (fields.lookup name).elim (.error (.missingField name)) items := by
  induction fields with
  | nil => rfl
  | cons p fields ih => rw [children, ih, elim_lookup_cons]

/-- A field is read as its rule says if what it holds is. -/
theorem flaw?_elim_lookup (r : FieldRule) {missing : Except Flaw α} {read : Json → Except Flaw α}
    (hmissing : flaw? missing = if r.required then some (.missingField r.name) else none)
    (hread : ∀ j, fields.lookup r.name = some j →
      flaw? (read j) = (r.sort.flaw? j).or ((r.sort.nodesIn j).findSome? fun j => flaw? (toNode j))) :
    flaw? ((fields.lookup r.name).elim missing read) = fieldFlaw? fields r := by
  rw [fieldFlaw?, FieldRule.flaw?, FieldRule.nodes]
  cases hlookup : fields.lookup r.name with
  | none => exact hmissing.trans (Option.or_none ..).symm
  | some j => exact hread j hlookup

theorem flaw?_child (name : String) (fields : List (String × Json)) :
    flaw? (child name fields) = fieldFlaw? fields ⟨name, .node, true⟩ := by
  rw [child_eq]
  exact flaw?_elim_lookup ⟨name, .node, true⟩ rfl fun _ _ => List.findSome?_singleton.symm

theorem flaw?_childOrNull (name : String) (fields : List (String × Json)) :
    flaw? (childOrNull name fields) = fieldFlaw? fields ⟨name, .node, false⟩ := by
  rw [childOrNull_eq]
  exact flaw?_elim_lookup ⟨name, .node, false⟩ rfl fun _ _ => List.findSome?_singleton.symm

theorem flaw?_children {name : String} (h : FieldRule.TypedIn ⟨name, .nodes, true⟩ fields) :
    flaw? (children name fields) = fieldFlaw? fields ⟨name, .nodes, true⟩ := by
  rw [children_eq]
  refine flaw?_elim_lookup ⟨name, .nodes, true⟩ rfl fun j hj => ?_
  cases h j hj with
  | nodes js => exact flaw?_toNodes js

theorem field_bind (name : String) (fields : List (String × Json)) (read : Json → Except Flaw α) :
    field name fields >>= read = (fields.lookup name).elim (.error (.missingField name)) read := by
  rw [field]
  cases fields.lookup name <;> rfl

theorem flaw?_text {name : String} (h : FieldRule.TypedIn ⟨name, .text, true⟩ fields) :
    flaw? (textField name fields) = fieldFlaw? fields ⟨name, .text, true⟩ := by
  rw [textField, field_bind]
  refine flaw?_elim_lookup ⟨name, .text, true⟩ rfl fun j hj => ?_
  cases h j hj with
  | text s => rfl

theorem flaw?_texts {name : String} (h : FieldRule.TypedIn ⟨name, .texts, true⟩ fields) :
    flaw? (field name fields >>= toTexts) = fieldFlaw? fields ⟨name, .texts, true⟩ := by
  rw [field_bind]
  refine flaw?_elim_lookup ⟨name, .texts, true⟩ rfl fun j hj => ?_
  cases h j hj with
  | texts names =>
      rw [toTexts_array_string]
      rfl

theorem flaw?_literal (name : String) (fields : List (String × Json)) :
    flaw? (field name fields >>= toValue) = fieldFlaw? fields ⟨name, .literal, true⟩ := by
  rw [field_bind]
  exact flaw?_elim_lookup ⟨name, .literal, true⟩ rfl fun _ _ => (Option.or_none ..).symm

theorem flaw?_toType? {j : Json} (h : IsType j) : flaw? (toType? j) = none := by
  rcases h with rfl | ⟨s, rfl⟩ <;> rfl

theorem flaw?_typeField (h : FieldRule.TypedIn ⟨"type_spec", .type, false⟩ fields) :
    flaw? (typeField fields) = fieldFlaw? fields ⟨"type_spec", .type, false⟩ := by
  have hfield : typeField fields = (fields.lookup "type_spec").elim (.ok none) toType? := by
    rw [typeField]
    cases fields.lookup "type_spec" <;> rfl
  rw [hfield]
  refine flaw?_elim_lookup ⟨"type_spec", .type, false⟩ rfl fun j hj => ?_
  cases h j hj with
  | type hj => exact flaw?_toType? hj

theorem exists_map_ofType {entries : List (String × Json)} (h : ∀ e ∈ entries, IsType e.2) :
    ∃ types : List (String × Option VarType), entries = types.map fun e => (e.1, ofType e.2) := by
  induction entries with
  | nil => exact ⟨[], rfl⟩
  | cons e entries ih =>
      obtain ⟨types, rfl⟩ := ih fun e' he' => h e' (List.mem_cons_of_mem e he')
      obtain ⟨name, j⟩ := e
      rcases h (name, j) List.mem_cons_self with rfl | ⟨s, rfl⟩
      · exact ⟨(name, none) :: types, rfl⟩
      · exact ⟨(name, some ⟨s⟩) :: types, rfl⟩

theorem flaw?_typesField (h : FieldRule.TypedIn ⟨"variable_types", .types, false⟩ fields) :
    flaw? (typesField fields) = fieldFlaw? fields ⟨"variable_types", .types, false⟩ := by
  rw [fieldFlaw?, FieldRule.flaw?, FieldRule.nodes, typesField]
  cases hlookup : fields.lookup "variable_types" with
  | none => rfl
  | some j =>
      cases h j hlookup with
      | types hentries =>
          obtain ⟨types, rfl⟩ := exists_map_ofType hentries
          have hread := mapM_ofType types
          simp only [hread]
          rfl

theorem exists_kind_of_rulesOf? {rules : List FieldRule} (h : rulesOf? fields = some rules) :
    ∃ kind, fields.lookup "type" = some (.string kind) ∧ fieldRules kind = some rules := by
  unfold rulesOf? at h
  split at h
  · next kind hkind => exact ⟨kind, hkind, h⟩
  · cases h

/-- A node of a known kind is read field by field, in the order of its rules. -/
theorem toNode_checks {rules : List FieldRule} (h : rulesOf? fields = some rules)
    (htyped : ∀ r ∈ rules, r.TypedIn fields) : Checks (toNode (.object fields)) fields rules := by
  obtain ⟨kind, hkind, hrules⟩ := exists_kind_of_rulesOf? h
  rw [toNode, hkind]
  unfold fieldRules at hrules
  -- One case for each kind, in the order of the table; those of a literal and of names read a field in two steps.
  split at hrules <;> cases hrules <;> simp only [List.forall_mem_cons] at htyped
  · exact .bind (flaw?_typesField htyped.1) fun _ => .bind (flaw?_children htyped.2.1) fun _ => .pure _
  · exact .bind (flaw?_child ..) fun _ => .pure _
  · exact .bind (flaw?_children htyped.1) fun _ => .pure _
  · exact .bind (flaw?_text htyped.1) fun _ => .bind (flaw?_childOrNull ..) fun _ =>
      .bind (flaw?_typeField htyped.2.2.1) fun _ => .pure _
  · exact .bind (flaw?_children htyped.1) fun _ => .pure _
  · exact .bind (flaw?_child ..) fun _ => .bind (flaw?_child ..) fun _ => .bind (flaw?_childOrNull ..) fun _ => .pure _
  · exact .bind (flaw?_child ..) fun _ => .bind (flaw?_child ..) fun _ => .pure _
  · simp only [← bind_assoc]
    exact .bind (flaw?_texts htyped.1) fun _ => .pure _
  · simp only [← bind_assoc]
    exact .bind (flaw?_literal ..) fun _ => .bind (flaw?_text htyped.2.1) fun _ => .pure _
  · exact .bind (flaw?_child ..) fun _ => .pure _
  · exact .bind (flaw?_text htyped.1) fun _ => .bind (flaw?_child ..) fun _ => .pure _
  · exact .bind (flaw?_text htyped.1) fun _ => .bind (flaw?_child ..) fun _ => .bind (flaw?_child ..) fun _ => .pure _
  · exact .bind (flaw?_text htyped.1) fun _ => .pure _
  · exact .bind (flaw?_text htyped.1) fun _ => .bind (flaw?_child ..) fun _ => .pure _

theorem toNode_of_unknown (h : rulesOf? fields = none) :
    toNode (.object fields) = .error (.unknownKind (showKind (fields.lookup "type"))) := by
  rw [toNode]
  rw [rulesOf?] at h
  split
  case h_15 => rfl
  all_goals
    next hkind => simp [hkind, fieldRules] at h

end

section

variable {fields : List (String × Json)} {rules : List FieldRule} {r : FieldRule}

theorem flaw?_toValue_int {n : Int} (h : n.natAbs < wholeLimit) : flaw? (toValue (.int n)) = none := by
  obtain ⟨x, hx⟩ := exists_ofInt?_eq h
  rw [toValue_int hx, flaw?]

theorem flaw?_toValue_object {l : List (String × Json)} (h : IsLiteral (.object l)) (f : Flaw) :
    flaw? (toValue (.object l)) = some f ↔ LiteralDefect l f := by
  cases h with
  | object hvalue =>
      rw [toValue]
      split
      · next hchar =>
          rw [flaw?_bind_pure, textField, field_bind]
          cases hlookup : l.lookup "value" with
          | none =>
              constructor
              · rintro ⟨⟩
                exact .noCharacter hchar hlookup
              · intro hf
                cases hf with
                | untagged hne _ => exact absurd hchar hne
                | noCharacter => rfl
          | some j =>
              obtain ⟨s, rfl⟩ := hvalue hchar j hlookup
              constructor
              · rintro ⟨⟩
              · intro hf
                cases hf with
                | untagged hne _ => exact absurd hchar hne
                | noCharacter _ hnone => cases hlookup.symm.trans hnone
      · next hnil =>
          constructor
          · rintro ⟨⟩
          · intro hf
            cases hf with
            | untagged _ hne => exact absurd hnil hne
            | noCharacter hchar _ => exact absurd (hnil.symm.trans hchar) (by simp)
      · next hchar hnil =>
          constructor
          · rintro ⟨⟩
            exact .untagged hchar hnil
          · intro hf
            cases hf with
            | untagged => rfl
            | noCharacter h _ => exact absurd h hchar

/-- A literal has no flaw but as an object. -/
theorem flaw?_toValue_iff {j : Json} (h : IsLiteral j) (f : Flaw) :
    flaw? (toValue j) = some f ↔ ∃ l, j = .object l ∧ LiteralDefect l f := by
  cases h with
  | @object l hvalue => simp [flaw?_toValue_object (.object hvalue)]
  | int h => simp [flaw?_toValue_int h]
  | _ => simp [toValue, flaw?]

theorem fieldDefect_iff_of_some {j : Json} (h : fields.lookup r.name = some j) (f : Flaw) :
    FieldDefect fields r f ↔ r.sort = .literal ∧ ∃ l, j = .object l ∧ LiteralDefect l f := by
  constructor
  · intro hf
    cases hf with
    | missing _ hnone => cases h.symm.trans hnone
    | literal hsort hobject hf => exact ⟨hsort, _, Option.some.inj (h.symm.trans hobject), hf⟩
  · rintro ⟨hsort, l, rfl, hf⟩
    exact .literal hsort h hf

theorem fieldDefect_iff_of_none (h : fields.lookup r.name = none) (f : Flaw) :
    FieldDefect fields r f ↔ r.required = true ∧ f = .missingField r.name := by
  constructor
  · intro hf
    cases hf with
    | missing hrequired _ => exact ⟨hrequired, rfl⟩
    | literal _ hobject _ => cases h.symm.trans hobject
  · rintro ⟨hrequired, rfl⟩
    exact .missing hrequired h

/-- What reading says about a field itself is what is wrong with it. -/
theorem flaw?_iff_fieldDefect (h : r.TypedIn fields) (f : Flaw) : r.flaw? fields = some f ↔ FieldDefect fields r f := by
  rw [FieldRule.flaw?]
  cases hlookup : fields.lookup r.name with
  | none =>
      rw [fieldDefect_iff_of_none hlookup, Option.elim_none]
      by_cases hrequired : r.required = true <;> simp [hrequired, eq_comm]
  | some j =>
      have hj := h j hlookup
      rw [fieldDefect_iff_of_some hlookup, Option.elim_some]
      generalize r.sort = sort at hj
      cases hj with
      | literal hliteral =>
          rw [FieldSort.flaw?, flaw?_toValue_iff hliteral]
          simp only [true_and]
      | _ => simp [FieldSort.flaw?]

theorem defectAt_object (h : rulesOf? fields = some rules) : DefectAt (.object fields) =
    InList (fun r place f => place = [] ∧ FieldDefect fields r f ∨ InList DefectAt (r.nodes fields) place f) rules := by
  funext place f
  apply propext
  constructor
  · intro hf
    cases hf with
    | notObject _ hobject => exact absurd rfl (hobject fields)
    | unknownKind hnone => cases h.symm.trans hnone
    | field hrules hr hf =>
        cases h.symm.trans hrules
        exact ⟨_, [], _, rfl, hr, .inl ⟨rfl, hf⟩⟩
    | inside hrules hr hj hf =>
        cases h.symm.trans hrules
        exact ⟨_, _, _, rfl, hr, .inr ⟨_, _, _, rfl, hj, hf⟩⟩
  · rintro ⟨i, _, r, rfl, hr, ⟨rfl, hf⟩ | ⟨k, rest, j, rfl, hj, hf⟩⟩
    · exact .field h hr hf
    · exact .inside h hr hj hf

/-- Reading ends with the first defect, or well where there is none. -/
theorem finds_toNode {j : Json} (h : FieldsTyped j) : Finds (DefectAt j) (flaw? (toNode j)) := by
  induction h with
  | @other j h =>
      by_cases hnull : j = .null
      · subst hnull
        refine .nothing fun place f hf => ?_
        cases hf with
        | notObject hnull _ => exact hnull rfl
      · have hread : toNode j = .error .notObject := by
          cases j with
          | null => exact absurd rfl hnull
          | object fields => exact absurd rfl (h fields)
          | _ => rfl
        rw [hread]
        refine .first (.notObject hnull h) fun place f hf => ?_
        cases hf with
        | notObject _ _ => exact .inl ⟨rfl, rfl⟩
        | unknownKind _ => exact absurd rfl (h _)
        | field _ _ _ => exact absurd rfl (h _)
        | inside _ _ _ _ => exact absurd rfl (h _)
  | @unknown fields h =>
      rw [toNode_of_unknown h]
      refine .first (.unknownKind h) fun place f hf => ?_
      cases hf with
      | notObject _ hobject => exact absurd rfl (hobject fields)
      | unknownKind _ => exact .inl ⟨rfl, rfl⟩
      | field hrules _ _ => cases h.symm.trans hrules
      | inside hrules _ _ _ => cases h.symm.trans hrules
  | @known fields rules h htyped _ ih =>
      rw [defectAt_object h, toNode_checks h htyped]
      refine finds_findSome? fun r hr => finds_or (flaw?_iff_fieldDefect (htyped r hr)) ?_ (finds_findSome? (ih r hr))
      rintro f ⟨_, _, _, hplace, -⟩
      cases hplace

theorem not_literalDefect_of_tagged {l : List (String × Json)} (h : Tagged l) (f : Flaw) : ¬ LiteralDefect l f := by
  intro hf
  cases hf with
  | untagged hchar hnil =>
      rcases h with h | ⟨h, -⟩
      · exact hnil h
      · exact hchar h
  | noCharacter hchar hnone =>
      rcases h with h | ⟨-, h⟩
      · exact absurd (hchar.symm.trans h) (by simp)
      · exact h hnone

theorem tagged_of_not_literalDefect {l : List (String × Json)} (h : ∀ f, ¬ LiteralDefect l f) : Tagged l := by
  by_contra htag
  rw [Tagged, not_or, not_and, not_not] at htag
  by_cases hchar : l.lookup "__type__" = some (.string "Char")
  · exact h _ (.noCharacter hchar (htag.2 hchar))
  · exact h _ (.untagged hchar htag.1)

theorem not_defectAt_of_conforms {j : Json} (h : Conforms j) (place : List Nat) (f : Flaw) : ¬ DefectAt j place f := by
  intro hf
  induction hf with
  | notObject hnull hobject =>
      cases h with
      | null => exact hnull rfl
      | known => exact hobject _ rfl
  | unknownKind hnone =>
      cases h with
      | known hrules => cases hrules.symm.trans hnone
  | @field fields rules r i f hrules hr hf =>
      cases h with
      | known h hrequired htagged _ =>
          cases h.symm.trans hrules
          have hmem := List.mem_of_getElem? hr
          cases hf with
          | missing hreq hnone => exact hrequired r hmem hreq hnone
          | literal hsort hobject hf => exact not_literalDefect_of_tagged (htagged r hmem hsort _ hobject) _ hf
  | inside hrules hr hj _ ih =>
      cases h with
      | known h _ _ hnodes =>
          cases h.symm.trans hrules
          exact ih (hnodes _ (List.mem_of_getElem? hr) _ (List.mem_of_getElem? hj))

theorem conforms_of_not_defectAt {j : Json} (htyped : FieldsTyped j) (h : ∀ place f, ¬ DefectAt j place f) :
    Conforms j := by
  induction htyped with
  | @other j hobject =>
      by_contra hnot
      refine h [] .notObject (.notObject ?_ hobject)
      rintro rfl
      exact hnot .null
  | unknown hnone => exact absurd (.unknownKind hnone) (h _ _)
  | @known fields rules hrules _ _ ih =>
      have hfield {r : FieldRule} (hr : r ∈ rules) (f : Flaw) : ¬ FieldDefect fields r f := by
        obtain ⟨i, hi⟩ := List.mem_iff_getElem?.1 hr
        intro hf
        exact h [i] f (.field hrules hi hf)
      refine .known hrules (fun r hr hreq hnone => hfield hr _ (.missing hreq hnone)) (fun r hr hsort l hl => ?_)
        fun r hr j hj => ih r hr j hj fun place f hf => ?_
      · exact tagged_of_not_literalDefect fun f hf => hfield hr f (.literal hsort hl hf)
      · obtain ⟨i, hi⟩ := List.mem_iff_getElem?.1 hr
        obtain ⟨k, hk⟩ := List.mem_iff_getElem?.1 hj
        exact h _ f (.inside hrules hi hk hf)

end

theorem firstDefect_iff {j : Json} (h : FieldsTyped j) (f : Flaw) : toNode j = .error f ↔ FirstDefect j f := by
  rw [← flaw?_eq_some_iff]
  have hfinds := finds_toNode h
  cases hflaw : flaw? (toNode j) with
  | none =>
      rw [hflaw] at hfinds
      constructor
      · rintro ⟨⟩
      · rintro ⟨place, hf, -⟩
        exact absurd hf (hfinds.not_of_none place f)
  | some f₁ =>
      rw [hflaw] at hfinds
      cases hfinds with
      | @first place₁ _ hf₁ hfirst₁ =>
          constructor
          · rintro ⟨⟩
            exact ⟨place₁, hf₁, hfirst₁⟩
          · rintro ⟨place, hf, hfirst⟩
            rcases hfirst₁ place f hf with ⟨-, rfl⟩ | hlex₁
            · rfl
            · rcases hfirst place₁ f₁ hf₁ with ⟨-, rfl⟩ | hlex
              · rfl
              · exact absurd hlex (List.lex_asymm Nat.lt_asymm hlex₁)

/-- As what a defect is reported. -/
theorem DefectAt.reported {j : Json} {place : List Nat} {f : Flaw} (h : DefectAt j place f) :
    (∃ name, f = .missingField name ∧ f.kind = "KeyError" ∧ f.message? = some (quoted name)) ∨
      ((f = .notObject ∨ f = .notLiteral) ∧ f.kind = "TypeError") ∨
      ∃ shown, f = .unknownKind shown ∧ f.kind = "ValueError" := by
  induction h with
  | notObject _ _ => exact .inr (.inl ⟨.inl rfl, rfl⟩)
  | unknownKind _ => exact .inr (.inr ⟨_, rfl, rfl⟩)
  | field _ _ hf =>
      cases hf with
      | missing _ _ => exact .inl ⟨_, rfl, rfl, rfl⟩
      | literal _ _ hf =>
          cases hf with
          | untagged _ _ => exact .inr (.inl ⟨.inr rfl, rfl⟩)
          | noCharacter _ _ => exact .inl ⟨_, rfl, rfl, rfl⟩
  | inside _ _ _ _ ih => exact ih

/-- **The schema of stored programs.** Of the values whose fields hold what the format prescribes, reading accepts those
that conform to the table and no others. It refuses every other one with the first of its defects: a missing field by
its name, a node that is no object, an object that is no literal, or an unknown kind. -/
theorem stored_schema (j : Json) (htyped : FieldsTyped j) :
    ((∃ n, toNode j = .ok n) ↔ Conforms j) ∧ (∀ f, toNode j = .error f ↔ FirstDefect j f) ∧
      ∀ f, toNode j = .error f →
        (∃ name, f = .missingField name ∧ f.kind = "KeyError" ∧ f.message? = some (quoted name)) ∨
          ((f = .notObject ∨ f = .notLiteral) ∧ f.kind = "TypeError") ∨
          ∃ shown, f = .unknownKind shown ∧ f.kind = "ValueError" := by
  refine ⟨?_, firstDefect_iff htyped, fun f hf => ?_⟩
  · rw [← flaw?_eq_none_iff]
    constructor
    · intro hnone
      have hfinds := finds_toNode htyped
      rw [hnone] at hfinds
      exact conforms_of_not_defectAt htyped hfinds.not_of_none
    · intro hconforms
      cases hflaw : flaw? (toNode j) with
      | none => rfl
      | some f =>
          obtain ⟨place, hf, -⟩ := (firstDefect_iff htyped f).1 ((flaw?_eq_some_iff _ _).1 hflaw)
          exact absurd hf (not_defectAt_of_conforms hconforms place f)
  · obtain ⟨place, hdefect, -⟩ := (firstDefect_iff htyped f).1 hf
    exact hdefect.reported

/-- A character, with its fields in an unusual order. -/
def characterForm : Json :=
  .object [("value", .object [("value", .string "x"), ("__type__", .string "Char")]), ("type", .string "Literal"),
    ("literal_type", .string "Char")]

/-- A branch without its first part, whose other part is a number. -/
def branchForm : Json :=
  .object [("else_branch", .int 5), ("condition", .null), ("type", .string "IfStmt")]

/-- A program in which nothing is wrong with the first node and two things with the second one. The third one is of no
kind. -/
def tornForm : Json :=
  .object [("type", .string "Program"), ("body", .array [characterForm, branchForm, .object [("type", .bool true)]])]

theorem fieldsTyped_characterForm : FieldsTyped characterForm := by
  have hvalue : IsLiteral (.object [("value", .string "x"), ("__type__", .string "Char")]) :=
    .object (by simp [List.lookup_cons])
  refine .known rfl ?_ ?_
  · simp [FieldRule.TypedIn, List.lookup_cons, Prescribed.text, Prescribed.literal hvalue]
  · simp [FieldRule.nodes, List.lookup_cons, FieldSort.nodesIn]

theorem fieldsTyped_branchForm : FieldsTyped branchForm := by
  have hnumber : FieldsTyped (.int 5) := .other (by simp)
  have hnull : FieldsTyped .null := .other (by simp)
  refine .known rfl ?_ ?_
  · simp [FieldRule.TypedIn, List.lookup_cons, Prescribed.node]
  · simp [FieldRule.nodes, List.lookup_cons, FieldSort.nodesIn, hnumber, hnull]

theorem fieldsTyped_tornForm : FieldsTyped tornForm := by
  have hunknown : FieldsTyped (.object [("type", .bool true)]) := .unknown rfl
  refine .known rfl ?_ ?_
  · simp [FieldRule.TypedIn, List.lookup_cons, Prescribed.nodes]
  · simp [FieldRule.nodes, List.lookup_cons, FieldSort.nodesIn, fieldsTyped_characterForm, fieldsTyped_branchForm,
      hunknown]

theorem stored_schema_tornForm :
    FieldsTyped tornForm ∧ FirstDefect tornForm (.missingField "then_branch") ∧ ¬ Conforms tornForm := by
  have hread : flaw? (toNode tornForm) = some (.missingField "then_branch") := by decide +kernel
  obtain ⟨haccepts, hfirst, -⟩ := stored_schema tornForm fieldsTyped_tornForm
  rw [flaw?_eq_some_iff] at hread
  refine ⟨fieldsTyped_tornForm, (hfirst _).1 hread, fun hconforms => ?_⟩
  obtain ⟨n, hn⟩ := haccepts.2 hconforms
  cases hread.symm.trans hn

end Binisaya.Document
