import Binisaya.Json.Basic
import Binisaya.Node
import Binisaya.Text.Quoted

/-! Stored programs: the JSON form of program trees. Every node is an object with its kind under `type`, the null
node is `null`, and characters and `nil` are tagged objects. Reading accepts fields it does not know, and of
several defects reports the one that comes first when the fields of each kind are read in order, children
included. -/

namespace Binisaya

/-- Why a JSON value is not a stored program. -/
inductive Flaw where
  | missingField (name : String)
  | notObject
  | notLiteral
  | unknownKind (shown : String)
  /-- A list of nodes or names that is not an array. -/
  | notList
  /-- A table of types that is not an object. -/
  | notTable
  /-- A name, symbol or type that is not a string. -/
  | notString
  /-- A whole number beyond the range of doubles. -/
  | tooLarge
deriving DecidableEq, Repr

/-- The kind of error as which a flaw is reported. -/
def Flaw.kind : Flaw → String
  | missingField _ => "KeyError"
  | notObject | notLiteral | notList | notString => "TypeError"
  | unknownKind _ => "ValueError"
  | notTable => "AttributeError"
  | tooLarge => "OverflowError"

/-- What is said about a flaw; some are reported by their kind alone. -/
def Flaw.message? : Flaw → Option String
  | missingField name => some (quoted name)
  | notObject => some "Invalid AST object"
  | notLiteral => some "Invalid literal value"
  | unknownKind shown => some ("Unknown AST node type: " ++ shown)
  | notList | notTable | notString | tooLarge => none

namespace Document

def ofType : Option VarType → Json
  | none => .null
  | some t => .string t.kind

def ofValue : Value → Json
  | .number x => .float x
  | .text s => .string s
  | .char s => .object [("__type__", .string "Char"), ("value", .string s)]
  | .nil => .object [("__type__", .string "Nil")]
  | .absent => .null
  | .flag b => .bool b

def ofTypes (types : TypeTable) : Json := .object (types.entries.map fun (name, t) => (name, ofType t))

mutual

/-- The stored form of a tree. -/
def ofNode : Node → Json
  | .null => .null
  | .program types body =>
    .object [("type", .string "Program"), ("body", .array (ofNodes body)), ("variable_types", ofTypes types)]
  | .exprStmt e => .object [("type", .string "ExprStmt"), ("expr", ofNode e)]
  | .print items => .object [("type", .string "PrintStmt"), ("exprs", .array (ofNodes items))]
  | .declare name init type =>
    .object [("type", .string "VarDecl"), ("name", .string name), ("expr", ofNode init), ("type_spec", ofType type)]
  | .block body => .object [("type", .string "Block"), ("statements", .array (ofNodes body))]
  | .branch condition yes no =>
    .object [("type", .string "IfStmt"), ("condition", ofNode condition), ("then_branch", ofNode yes),
      ("else_branch", ofNode no)]
  | .loop condition body =>
    .object [("type", .string "WhileStmt"), ("condition", ofNode condition), ("body", ofNode body)]
  | .input names => .object [("type", .string "InputStmt"), ("names", .array (names.map .string))]
  | .literal v label =>
    .object [("type", .string "Literal"), ("value", ofValue v), ("literal_type", .string label)]
  | .group e => .object [("type", .string "Grouping"), ("expr", ofNode e)]
  | .unary symbol e => .object [("type", .string "UnaryOp"), ("op", .string symbol), ("operand", ofNode e)]
  | .binary symbol left right =>
    .object [("type", .string "BinaryOp"), ("op", .string symbol), ("left", ofNode left), ("right", ofNode right)]
  | .ident name => .object [("type", .string "Ident"), ("name", .string name)]
  | .assign name e => .object [("type", .string "Assign"), ("name", .string name), ("value", ofNode e)]

def ofNodes : List Node → List Json
  | [] => []
  | n :: ns => ofNode n :: ofNodes ns

end

/-- The value of a field that must be there. -/
def field (name : String) (fields : List (String × Json)) : Except Flaw Json :=
  match fields.lookup name with
  | some j => .ok j
  | none => .error (.missingField name)

def toText : Json → Except Flaw String
  | .string s => .ok s
  | _ => .error .notString

def textField (name : String) (fields : List (String × Json)) : Except Flaw String :=
  field name fields >>= toText

def toTexts : Json → Except Flaw (List String)
  | .array items => items.mapM toText
  | _ => .error .notList

def toType? : Json → Except Flaw (Option VarType)
  | .null => .ok none
  | .string s => .ok (some ⟨s⟩)
  | _ => .error .notString

/-- Reads the table of declared types, which may be missing. -/
def typesField (fields : List (String × Json)) : Except Flaw TypeTable :=
  match fields.lookup "variable_types" with
  | none => .ok .empty
  | some (.object entries) => do
    let pairs ← entries.mapM fun (name, j) => do return (name, ← toType? j)
    return .ofList pairs
  | some _ => .error .notTable

/-- Reads the type of a declaration, which may be missing. -/
def typeField (fields : List (String × Json)) : Except Flaw (Option VarType) :=
  toType? ((fields.lookup "type_spec").getD .null)

/-- Reads the value of a literal. All its numbers are doubles, and an object must be tagged. -/
def toValue : Json → Except Flaw Value
  | .null => .ok .absent
  | .bool b => .ok (.flag b)
  | .int n => (ofInt? n).elim (.error .tooLarge) fun x => .ok (.number x)
  | .float x => .ok (.number x)
  | .string s => .ok (.text s)
  | .object fields =>
    match fields.lookup "__type__" with
    | some (.string "Char") => return .char (← textField "value" fields)
    | some (.string "Nil") => .ok .nil
    | _ => .error .notLiteral
  | .array _ => .error .notLiteral

mutual

/-- A value inside another as messages show it. -/
def showPart : Json → String
  | .string s => quoted s
  | .null => "None"
  | .bool true => "True"
  | .bool false => "False"
  | .int n => toString n
  | .float x => NumberStyle.shown.write x
  | .array items => "[" ++ ", ".intercalate (showItems items) ++ "]"
  | .object fields => "\x7b" ++ ", ".intercalate (showFields fields) ++ "\x7d"

def showItems : List Json → List String
  | [] => []
  | j :: js => showPart j :: showItems js

def showFields : List (String × Json) → List String
  | [] => []
  | (k, j) :: fs => (quoted k ++ ": " ++ showPart j) :: showFields fs

end

/-- What stands in place of a node's kind, as messages show it; a missing kind is like a null one. -/
def showKind : Option Json → String
  | none => "None"
  | some (.string s) => s
  | some j => showPart j

mutual

/-- Reads a stored tree. -/
def toNode : Json → Except Flaw Node
  | .null => .ok .null
  | .object fields =>
    match fields.lookup "type" with
    | some (.string "Program") => do
      let types ← typesField fields
      return .program types (← children "body" fields)
    | some (.string "ExprStmt") => return .exprStmt (← child "expr" fields)
    | some (.string "PrintStmt") => return .print (← children "exprs" fields)
    | some (.string "VarDecl") => do
      let name ← textField "name" fields
      let init ← childOrNull "expr" fields
      return .declare name init (← typeField fields)
    | some (.string "Block") => return .block (← children "statements" fields)
    | some (.string "IfStmt") => do
      let condition ← child "condition" fields
      let yes ← child "then_branch" fields
      return .branch condition yes (← childOrNull "else_branch" fields)
    | some (.string "WhileStmt") => do
      let condition ← child "condition" fields
      return .loop condition (← child "body" fields)
    | some (.string "InputStmt") => do
      let names ← field "names" fields
      return .input (← toTexts names)
    | some (.string "Literal") => do
      let value ← field "value" fields
      let v ← toValue value
      return .literal v (← textField "literal_type" fields)
    | some (.string "Grouping") => return .group (← child "expr" fields)
    | some (.string "UnaryOp") => do
      let symbol ← textField "op" fields
      return .unary symbol (← child "operand" fields)
    | some (.string "BinaryOp") => do
      let symbol ← textField "op" fields
      let left ← child "left" fields
      return .binary symbol left (← child "right" fields)
    | some (.string "Ident") => return .ident (← textField "name" fields)
    | some (.string "Assign") => do
      let name ← textField "name" fields
      return .assign name (← child "value" fields)
    | other => .error (.unknownKind (showKind other))
  | _ => .error .notObject

/-- Reads the node in a field that must be there. -/
def child (name : String) : List (String × Json) → Except Flaw Node
  | [] => .error (.missingField name)
  | (k, j) :: fields => if k = name then toNode j else child name fields

/-- Reads the node in a field that may be missing. -/
def childOrNull (name : String) : List (String × Json) → Except Flaw Node
  | [] => .ok .null
  | (k, j) :: fields => if k = name then toNode j else childOrNull name fields

/-- Reads the nodes in a field that must be there. -/
def children (name : String) : List (String × Json) → Except Flaw (List Node)
  | [] => .error (.missingField name)
  | (k, j) :: fields => if k = name then items j else children name fields

def items : Json → Except Flaw (List Node)
  | .array js => toNodes js
  | _ => .error .notList

def toNodes : List Json → Except Flaw (List Node)
  | [] => .ok []
  | j :: js => do
    let n ← toNode j
    return n :: (← toNodes js)

end

/-- What is said about a value that is stored as a tree and is none; null is the null tree. -/
def refusal? (j : Json) : Option String :=
  let refuse := fun kind => some ("Unsupported node for serialization: " ++ kind)
  match j with
  | .null => none
  | .bool _ => refuse "bool"
  | .int _ => refuse "int"
  | .float _ => refuse "float"
  | .string _ => refuse "str"
  | .array _ => refuse "list"
  | .object _ => refuse "dict"

/-- Tells that a stored tree reads back as one with the same stored form. -/
def isStable (j : Json) : Bool :=
  match toNode j with
  | .ok n => (ofNode n).same j
  | .error _ => false

end Document

end Binisaya
