import Binisaya.Node
import Binisaya.Token

/-! Programs as they are written, and the trees that they stand for. Loops that count and chains of branches
have no nodes of their own: a counting loop is a block with a loop in it, and each further branch is nested in
the one before. -/

namespace Binisaya

inductive Expr where
  | number (x : Float)
  | text (s : String)
  | char (c : Char)
  | var (name : String)
  | group (e : Expr)
  | unary (op : UnaryOp) (e : Expr)
  | binary (op : BinaryOp) (left right : Expr)
  | assign (name : String) (e : Expr)

mutual

inductive Stmt where
  /-- Variables of one type, each perhaps with an initial value. -/
  | declare (type : TypeWord) (items : List (String × Option Expr))
  | print (e : Expr)
  | input (names : List String)
  | branch (condition : Expr) (body : List Stmt) (otherwise : Otherwise)
  | loop (condition : Expr) (body : List Stmt)
  | count (init condition update : Expr) (body : List Stmt)
  | expr (e : Expr)

/-- What follows the first block of a branch. -/
inductive Otherwise where
  | nothing
  | block (body : List Stmt)
  | branch (condition : Expr) (body : List Stmt) (otherwise : Otherwise)

end

/-- The node of an expression. Literals are labelled by the kind of value they denote. -/
def Expr.toNode : Expr → Node
  | number x => .literal (.number x) "Number"
  | text s => .literal (.text s) "Text"
  | char c => .literal (.char (.singleton c)) "Character"
  | var name => .ident name
  | group e => .group e.toNode
  | unary op e => .unary op.symbol e.toNode
  | binary op left right => .binary op.symbol left.toNode right.toNode
  | assign name e => .assign name e.toNode

/-- The node that stands for an initial value or its absence. -/
def initNode : Option Expr → Node
  | none => .null
  | some e => e.toNode

/-- The declarations of variables of one type. -/
def declareNodes (type : TypeWord) (items : List (String × Option Expr)) : List Node :=
  items.map fun (name, init) => .declare name (initNode init) (some type.type)

mutual

/-- The nodes of a statement; a declaration of several variables is several nodes. -/
def Stmt.toNodes : Stmt → List Node
  | .declare type items => declareNodes type items
  | .print e => [.print e.toNode.concatItems]
  | .input names => [.input names]
  | .branch condition body otherwise => [.branch condition.toNode (.block (bodyNodes body)) otherwise.toNode]
  | .loop condition body => [.loop condition.toNode (.block (bodyNodes body))]
  | .count init condition update body =>
    [.block [.exprStmt init.toNode,
      .loop condition.toNode (.block (bodyNodes body ++ [.exprStmt update.toNode]))]]
  | .expr e => [.exprStmt e.toNode]

def Otherwise.toNode : Otherwise → Node
  | .nothing => .null
  | .block body => .block (bodyNodes body)
  | .branch condition body otherwise => .branch condition.toNode (.block (bodyNodes body)) otherwise.toNode

/-- The nodes of statements in order. -/
def bodyNodes : List Stmt → List Node
  | [] => []
  | s :: ss => s.toNodes ++ bodyNodes ss

end

mutual

/-- The variables that a statement declares, at any depth and in the order of the text, with their types. -/
def Stmt.declared : Stmt → List (String × Option VarType)
  | .declare type items => items.map fun (name, _) => (name, some type.type)
  | .branch _ body otherwise => bodyDeclared body ++ otherwise.declared
  | .loop _ body => bodyDeclared body
  | .count _ _ _ body => bodyDeclared body
  | .print _ | .input _ | .expr _ => []

def Otherwise.declared : Otherwise → List (String × Option VarType)
  | .nothing => []
  | .block body => bodyDeclared body
  | .branch _ body otherwise => bodyDeclared body ++ otherwise.declared

def bodyDeclared : List Stmt → List (String × Option VarType)
  | [] => []
  | s :: ss => s.declared ++ bodyDeclared ss

end

/-- The tree of a program: its statements and the types of all variables it declares. -/
def programNode (body : List Stmt) : Node := .program (.ofList (bodyDeclared body)) (bodyNodes body)

end Binisaya
