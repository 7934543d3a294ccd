import Mathlib.Data.List.Basic
import Binisaya.Document

/-! Storing a program tree loses nothing: the stored form of every tree is read back as that tree, whatever
nodes stand where and whatever literals and types they carry. A stored form is therefore the normal form of all
JSON values that are read as its tree, and the values that are their own normal form are exactly the stored forms. -/

namespace Binisaya

theorem setEntry_of_notMem {α : Type} {name : String} {a : α} {l : List (String × α)}
    (hname : name ∉ l.map Prod.fst) : setEntry name a l = l ++ [(name, a)] := by
  induction l with
  | nil => rfl
  | cons p rest ih =>
      obtain ⟨n, b⟩ := p
      simp only [List.map_cons, List.mem_cons, not_or] at hname
      rw [setEntry, if_neg (Ne.symm hname.1), ih hname.2]
      rfl

namespace Table

/-- Names that are new to a table and occur once are entered behind the others, in their order. -/
theorem entries_insertAll {α : Type} (pairs : List (String × α)) (t : Table α)
    (hnodup : ((t.entries ++ pairs).map Prod.fst).Nodup) :
    (t.insertAll pairs).entries = t.entries ++ pairs := by
  induction pairs generalizing t with
  | nil => exact (List.append_nil _).symm
  | cons p rest ih =>
      obtain ⟨name, a⟩ := p
      have hnew : name ∉ t.entries.map Prod.fst := by
        intro hmem
        rw [List.map_append, List.nodup_append] at hnodup
        exact hnodup.2.2 name hmem name (List.mem_cons_self ..) rfl
      have hinsert : (t.insert name a).entries = t.entries ++ [(name, a)] := setEntry_of_notMem hnew
      have hrest : (((t.insert name a).entries ++ rest).map Prod.fst).Nodup := by
        rw [hinsert, List.append_assoc]
        exact hnodup
      change ((t.insert name a).insertAll rest).entries = _
      rw [ih _ hrest, hinsert, List.append_assoc]
      rfl

/-- A table is the one that lists its entries. -/
@[simp]
theorem ofList_entries {α : Type} (t : Table α) : ofList t.entries = t :=
  Table.ext (entries_insertAll t.entries empty t.nodup)

end Table

namespace Json

mutual

/-- Values are told to be the same exactly when they are equal. -/
theorem same_iff (j k : Json) : j.same k = true ↔ j = k := by
  cases j with
  | array xs =>
      cases k with
      | array ys => simp [same, sameItems_iff xs ys]
      | _ => simp [same]
  | object fs =>
      cases k with
      | object gs => simp [same, sameFields_iff fs gs]
      | _ => simp [same]
  | _ => cases k <;> simp [same]

theorem sameItems_iff (xs ys : List Json) : sameItems xs ys = true ↔ xs = ys := by
  cases xs with
  | nil => cases ys <;> simp [sameItems]
  | cons x xs =>
      cases ys with
      | nil => simp [sameItems]
      | cons y ys => simp [sameItems, same_iff x y, sameItems_iff xs ys]

theorem sameFields_iff (fs gs : List (String × Json)) : sameFields fs gs = true ↔ fs = gs := by
  cases fs with
  | nil => cases gs <;> simp [sameFields]
  | cons f fs =>
      obtain ⟨k, x⟩ := f
      cases gs with
      | nil => simp [sameFields]
      | cons g gs =>
          obtain ⟨l, y⟩ := g
          simp [sameFields, same_iff x y, sameFields_iff fs gs]

end

end Json

namespace Document

@[simp]
theorem ok_bind {α β : Type} (a : α) (f : α → Except Flaw β) : (Except.ok a >>= f) = f a := rfl

@[simp]
theorem toType?_ofType (t : Option VarType) : toType? (ofType t) = .ok t := by
  cases t <;> rfl

@[simp]
theorem toValue_ofValue (v : Value) : toValue (ofValue v) = .ok v := by
  cases v <;> rfl

/-- A whole number is read as the nearest double. -/
theorem toValue_int {n : Int} {x : Float} (hn : ofInt? n = some x) : toValue (.int n) = .ok (.number x) := by
  rw [toValue, hn]
  rfl

@[simp]
theorem toTexts_array_string (names : List String) : toTexts (.array (names.map .string)) = .ok names := by
  change (names.map Json.string).mapM toText = .ok names
  induction names with
  | nil => rfl
  | cons name names ih =>
      rw [List.map_cons, List.mapM_cons, ih]
      rfl

theorem mapM_ofType (entries : List (String × Option VarType)) :
    (entries.map fun (name, t) => (name, ofType t)).mapM
      (fun (name, j) => do return (name, ← toType? j)) = (.ok entries : Except Flaw _) := by
  induction entries with
  | nil => rfl
  | cons p rest ih =>
      obtain ⟨name, t⟩ := p
      rw [List.map_cons, List.mapM_cons, ih]
      simp only [toType?_ofType, ok_bind]
      rfl

/-- The text in a field that holds one. -/
theorem textField_string {name s : String} {fields : List (String × Json)}
    (hfields : fields.lookup name = some (.string s)) : textField name fields = .ok s := by
  rw [textField, field, hfields]
  rfl

/-- A table of types is read back from the field that holds it. -/
theorem typesField_ofTypes {fields : List (String × Json)} {types : TypeTable}
    (hfields : fields.lookup "variable_types" = some (ofTypes types)) : typesField fields = .ok types := by
  rw [typesField, hfields, ofTypes]
  simp only [mapM_ofType]
  exact congrArg Except.ok (Table.ofList_entries types)

/-! ### Nodes

Every kind of node is stored as an object whose fields carry different names, so each field is found again
whatever stands before it. -/

mutual

@[simp]
theorem toNode_ofNode (n : Node) : toNode (ofNode n) = .ok n := by
  cases n with
  | null => rw [ofNode, toNode]
  | program types body =>
      have htypes : typesField [("type", .string "Program"), ("body", .array (ofNodes body)),
          ("variable_types", ofTypes types)] = .ok types := typesField_ofTypes rfl
      rw [ofNode, toNode]
      simp [htypes, children, items, toNodes_ofNodes body]
  | exprStmt e =>
      rw [ofNode, toNode]
      simp [child, toNode_ofNode e]
  | print es =>
      rw [ofNode, toNode]
      simp [children, items, toNodes_ofNodes es]
  | declare name init type =>
      rw [ofNode, toNode]
      simp [textField_string, childOrNull, toNode_ofNode init, typeField, List.lookup_cons]
  | block body =>
      rw [ofNode, toNode]
      simp [children, items, toNodes_ofNodes body]
  | branch condition yes no =>
      rw [ofNode, toNode]
      simp [child, childOrNull, toNode_ofNode condition, toNode_ofNode yes, toNode_ofNode no]
  | loop condition body =>
      rw [ofNode, toNode]
      simp [child, toNode_ofNode condition, toNode_ofNode body]
  | input names =>
      rw [ofNode, toNode]
      simp [field, List.lookup_cons]
  | literal v label =>
      rw [ofNode, toNode]
      simp [field, textField_string, List.lookup_cons]
  | group e =>
      rw [ofNode, toNode]
      simp [child, toNode_ofNode e]
  | unary symbol e =>
      rw [ofNode, toNode]
      simp [textField_string, child, toNode_ofNode e, List.lookup_cons]
  | binary symbol left right =>
      rw [ofNode, toNode]
      simp [textField_string, child, toNode_ofNode left, toNode_ofNode right, List.lookup_cons]
  | ident name =>
      rw [ofNode, toNode]
      simp [textField_string, List.lookup_cons]
  | assign name e =>
      rw [ofNode, toNode]
      simp [textField_string, child, toNode_ofNode e, List.lookup_cons]

@[simp]
theorem toNodes_ofNodes (ns : List Node) : toNodes (ofNodes ns) = .ok ns := by
  cases ns with
  | nil => rw [ofNodes, toNodes]
  | cons n ns =>
      rw [ofNodes, toNodes, toNode_ofNode n, toNodes_ofNodes ns]
      rfl

end

/-- The values that a reading and a writing leave as they are are exactly the stored forms. -/
theorem isStable_iff (j : Json) : isStable j = true ↔ ∃ n, ofNode n = j := by
  constructor
  · intro hstable
    rw [isStable] at hstable
    split at hstable
    · next n _ => exact ⟨n, (Json.same_iff _ _).1 hstable⟩
    · cases hstable
  · rintro ⟨n, rfl⟩
    rw [isStable, toNode_ofNode]
    exact (Json.same_iff _ _).2 rfl

/-- **Stored programs.** Every tree is read back from its stored form. Whatever value is read as a tree, the stored
form of that tree is again read as the same tree, and a reading and a writing leave it as it is. -/
theorem stored_round_trip :
    (∀ n : Node, toNode (ofNode n) = .ok n) ∧
      ∀ (j : Json) (n : Node), toNode j = .ok n →
        toNode (ofNode n) = toNode j ∧ (toNode (ofNode n)).map ofNode = .ok (ofNode n) ∧
          isStable (ofNode n) = true := by
  refine ⟨toNode_ofNode, fun j n hread => ⟨?_, ?_, (isStable_iff _).2 ⟨n, rfl⟩⟩⟩
  · rw [toNode_ofNode, hread]
  · rw [toNode_ofNode]
    rfl

/-- A program that is written in another way than it is stored: fields in another order, one that means nothing, no
table of types, no initial value, a number without a point. -/
def looseForm : Json :=
  .object [("note", .bool true), ("body", .array [
    .object [("name", .string "x"), ("type_spec", .string "Number"), ("type", .string "VarDecl")],
    .object [("expr", .object [("literal_type", .string "Number"), ("type", .string "Literal"), ("value", .int 3)]),
      ("type", .string "ExprStmt")]]), ("type", .string "Program")]

def looseTree : Node :=
  .program .empty [.declare "x" .null (some .number), .exprStmt (.literal (.number 3) "Number")]

theorem stored_round_trip_looseForm :
    toNode looseForm = .ok looseTree ∧ isStable looseForm = false ∧ isStable (ofNode looseTree) = true := by
  have hthree : toValue (.int 3) = .ok (.number 3) := toValue_int (by decide +kernel)
  have hread : toNode looseForm = .ok looseTree := by
    simp [looseForm, looseTree, toNode, typesField, children, items, toNodes, textField_string, childOrNull,
      typeField, toType?, child, field, hthree, List.lookup_cons, VarType.number]
  exact ⟨hread, by decide +kernel, (stored_round_trip.2 looseForm looseTree hread).2.2⟩

end Document

end Binisaya
