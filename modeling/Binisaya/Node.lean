import Binisaya.Table
import Binisaya.VarType

/-! Program trees. All kinds of nodes are one type, and any node may stand where a node is expected, since
stored programs can put them there; running such a tree tells what is wrong with it. The null node stands for
a missing initial value, a missing branch or a missing node. -/

namespace Binisaya

/-- Declared types by name; a name can be listed without a type. -/
abbrev TypeTable := Table (Option VarType)

inductive Node where
  | null
  | program (types : TypeTable) (body : List Node)
  | exprStmt (e : Node)
  | print (items : List Node)
  | declare (name : String) (init : Node) (type : Option VarType)
  | block (body : List Node)
  | branch (condition yes no : Node)
  | loop (condition body : Node)
  | input (names : List String)
  | literal (v : Value) (label : String)
  | group (e : Node)
  | unary (symbol : String) (e : Node)
  | binary (symbol : String) (left right : Node)
  | ident (name : String)
  | assign (name : String) (e : Node)

instance : Inhabited Node := ⟨.null⟩

namespace Node

/-- The name of a node's kind in stored programs and messages. -/
def kind : Node → String
  | null => "NoneType"
  | program .. => "Program"
  | exprStmt _ => "ExprStmt"
  | print _ => "PrintStmt"
  | declare .. => "VarDecl"
  | block _ => "Block"
  | branch .. => "IfStmt"
  | loop .. => "WhileStmt"
  | input _ => "InputStmt"
  | literal .. => "Literal"
  | group _ => "Grouping"
  | unary .. => "UnaryOp"
  | binary .. => "BinaryOp"
  | ident _ => "Ident"
  | assign .. => "Assign"

/-- The operands of a chain of `&`, left to right, whichever way the chain leans; a group is one operand. -/
def concatItems : Node → List Node
  | binary "&" left right => left.concatItems ++ right.concatItems
  | e => [e]

end Node

end Binisaya
