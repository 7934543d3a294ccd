import Binisaya.Surface

/-! The grammar of the language as derivation trees. There is one type of trees for each symbol of the grammar, with
one constructor for each of its productions; the seven levels of binary operators are one family of types. A tree
derives a list of tokens, and it has a meaning of its own: the program tree that the productions build bottom up, with
the table of declared types that they fill on the way. -/

namespace Binisaya.Grammar

/-- The operators of the binary levels, loosest first: joining, `O`, `UG`, equality, order, sums and products. -/
def precedence : List (List BinaryOp) :=
  [[.concat], [.or], [.and], [.eq, .ne], [.ge, .le, .gt, .lt], [.add, .sub], [.mul, .div, .rem]]

mutual

/-- `expression: IDENT "=" expression | operation`, where the operation is of the loosest level. -/
inductive Expression where
  | assign (name : String) (e : Expression)
  | operation (e : Operation precedence)

/-- `level: tighter (OP tighter)*` for the operators of the first of the levels; past the last level stands
`unary`. -/
inductive Operation : List (List BinaryOp) → Type where
  | unary (e : Unary) : Operation []
  | chain {ops : List BinaryOp} {tighter : List (List BinaryOp)} (first : Operation tighter)
      (more : Tail ops tighter) : Operation (ops :: tighter)

/-- `(OP tighter)*` for the operators of one level. -/
inductive Tail : List BinaryOp → List (List BinaryOp) → Type where
  | nil {ops : List BinaryOp} {tighter : List (List BinaryOp)} : Tail ops tighter
  | cons {ops : List BinaryOp} {tighter : List (List BinaryOp)} (op : BinaryOp) (hop : op ∈ ops)
      (e : Operation tighter) (more : Tail ops tighter) : Tail ops tighter

/-- `unary: ("+" | "-" | "DILI") unary | primary`. -/
inductive Unary where
  | sign (op : UnaryOp) (e : Unary)
  | primary (e : Primary)

/-- `primary: NUMBER | STRING | CHAR | ESCAPE | NEWLINE | IDENT | "(" expression ")"`. -/
inductive Primary where
  | number (x : Float)
  | text (s : String)
  | char (c : Char)
  | escape (c : Char)
  | newline
  | ident (name : String)
  | group (e : Expression)

end

/-- `decl_item: IDENT ("=" expression)?`. -/
structure DeclItem where
  name : String
  init : Option Expression

mutual

inductive Statement where
  /-- `"MUGNA" TYPE_NAME decl_item ("," decl_item)* _NL`. -/
  | declaration (type : TypeWord) (first : DeclItem) (more : List DeclItem)
  /-- `"IPAKITA" ":" expression _NL`. -/
  | print (e : Expression)
  /-- `"DAWAT" ":" IDENT ("," IDENT)* _NL`. -/
  | input (first : String) (more : List String)
  /-- `"KUNG" "(" expression ")" block else_if* else_clause? _NL`. -/
  | branch (condition : Expression) (body : Block) (elseIfs : List ElseIf) (elseClause : Option Block)
  /-- `"SAMTANG" "(" expression ")" block _NL`. -/
  | loop (condition : Expression) (body : Block)
  /-- `FOR "(" expression "," expression "," expression ")" block _NL`. -/
  | count (init condition update : Expression) (body : Block)
  /-- `expression _NL`. -/
  | expr (e : Expression)

/-- `block: "PUNDOK" "{" _NL statement* "}"`. -/
inductive Block where
  | mk (statements : List Statement)

/-- `else_if: ELSE_IF "(" expression ")" block`. -/
inductive ElseIf where
  | mk (condition : Expression) (body : Block)

end

/-- `start: "SUGOD" _NL statement* "KATAPUSAN" _NL?`. -/
structure Start where
  statements : List Statement
  /-- Tells that a line end follows the last word. -/
  lineEnd : Bool

/-- The token of a sign before an operand. -/
def signToken : UnaryOp → Token
  | .minus => .operator .sub
  | .plus => .operator .add
  | .not => .dili

mutual

def Expression.tokens : Expression → List Token
  | .assign name e => .ident name :: .equals :: e.tokens
  | .operation e => e.tokens

def Operation.tokens {levels : List (List BinaryOp)} : Operation levels → List Token
  | .unary e => e.tokens
  | .chain first more => first.tokens ++ more.tokens

def Tail.tokens {ops : List BinaryOp} {tighter : List (List BinaryOp)} : Tail ops tighter → List Token
  | .nil => []
  | .cons op _ e more => .operator op :: (e.tokens ++ more.tokens)

def Unary.tokens : Unary → List Token
  | .sign op e => signToken op :: e.tokens
  | .primary e => e.tokens

def Primary.tokens : Primary → List Token
  | .number x => [.number x]
  | .text s => [.text s]
  | .char c => [.char c]
  | .escape c => [.escape c]
  | .newline => [.newline]
  | .ident name => [.ident name]
  | .group e => .leftParen :: (e.tokens ++ [.rightParen])

end

def DeclItem.tokens (d : DeclItem) : List Token :=
  .ident d.name :: (d.init.elim [] fun e => .equals :: e.tokens)

/-- Things in a row, each with a comma before it. -/
def commaTokens {α : Type} (tokens : α → List Token) (items : List α) : List Token :=
  items.flatMap fun a => .comma :: tokens a

theorem commaTokens_cons {α : Type} (tokens : α → List Token) (a : α) (items : List α) :
    commaTokens tokens (a :: items) = .comma :: (tokens a ++ commaTokens tokens items) := by
  rw [commaTokens, List.flatMap_cons]
  rfl

mutual

def Statement.tokens : Statement → List Token
  | .declaration type first more =>
    .mugna :: .typeWord type :: (first.tokens ++ (commaTokens DeclItem.tokens more ++ [.lineEnd]))
  | .print e => .ipakita :: .colon :: (e.tokens ++ [.lineEnd])
  | .input first more => .dawat :: .colon :: .ident first :: (commaTokens (fun x => [.ident x]) more ++ [.lineEnd])
  | .branch condition body elseIfs elseClause =>
    .kung :: .leftParen :: (condition.tokens ++ .rightParen ::
      (body.tokens ++ (elseIfsTokens elseIfs ++ (elseTokens elseClause ++ [.lineEnd]))))
  | .loop condition body =>
    .samtang :: .leftParen :: (condition.tokens ++ .rightParen :: (body.tokens ++ [.lineEnd]))
  | .count init condition update body =>
    .alangSa :: .leftParen :: (init.tokens ++ .comma :: (condition.tokens ++ .comma ::
      (update.tokens ++ .rightParen :: (body.tokens ++ [.lineEnd]))))
  | .expr e => e.tokens ++ [.lineEnd]

def Block.tokens : Block → List Token
  | .mk statements => .pundok :: .leftBrace :: .lineEnd :: (statementsTokens statements ++ [.rightBrace])

def ElseIf.tokens : ElseIf → List Token
  | .mk condition body => .kungDili :: .leftParen :: (condition.tokens ++ .rightParen :: body.tokens)

def statementsTokens : List Statement → List Token
  | [] => []
  | s :: ss => s.tokens ++ statementsTokens ss

def elseIfsTokens : List ElseIf → List Token
  | [] => []
  | c :: cs => c.tokens ++ elseIfsTokens cs

def elseTokens : Option Block → List Token
  | none => []
  | some body => .kungWala :: body.tokens

end

/-- The tokens of a whole program. -/
def Start.tokens (d : Start) : List Token :=
  .sugod :: .lineEnd :: (statementsTokens d.statements ++ .katapusan :: if d.lineEnd then [.lineEnd] else [])

/-! ### The program tree of a derivation

Assignments group to the right and the operators of one level to the left, each sign takes the operand right behind
it, and the further clauses of a branch are nested in its last branch. -/

mutual

def Expression.node : Expression → Node
  | .assign name e => .assign name e.node
  | .operation e => e.node

def Operation.node {levels : List (List BinaryOp)} : Operation levels → Node
  | .unary e => e.node
  | .chain first more => more.node first.node

/-- The node of the operands so far, joined to those that follow from left to right. -/
def Tail.node {ops : List BinaryOp} {tighter : List (List BinaryOp)} : Tail ops tighter → Node → Node
  | .nil, left => left
  | .cons op _ e more, left => more.node (.binary op.symbol left e.node)

def Unary.node : Unary → Node
  | .sign op e => .unary op.symbol e.node
  | .primary e => e.node

def Primary.node : Primary → Node
  | .number x => .literal (.number x) "Number"
  | .text s => .literal (.text s) "Text"
  | .char c => .literal (.char (.singleton c)) "Character"
  | .escape c => .literal (.text (.singleton c)) "Text"
  | .newline => .literal (.text "\n") "Text"
  | .ident name => .ident name
  | .group e => .group e.node

end

def DeclItem.node (type : TypeWord) (d : DeclItem) : Node :=
  .declare d.name (d.init.elim .null Expression.node) (some type.type)

mutual

/-- The nodes of a statement: one for each variable of a declaration, else a single one. -/
def Statement.nodes : Statement → List Node
  | .declaration type first more => (first :: more).map (DeclItem.node type)
  | .print e => [.print e.node.concatItems]
  | .input first more => [.input (first :: more)]
  | .branch condition body elseIfs elseClause =>
    [.branch condition.node (.block body.nodes) (elseIfsNode elseIfs (elseNode elseClause))]
  | .loop condition body => [.loop condition.node (.block body.nodes)]
  | .count init condition update body =>
    [.block [.exprStmt init.node, .loop condition.node (.block (body.nodes ++ [.exprStmt update.node]))]]
  | .expr e => [.exprStmt e.node]

def Block.nodes : Block → List Node
  | .mk statements => statementsNodes statements

/-- The node of a clause, given the node of all that follows it. -/
def ElseIf.node : ElseIf → Node → Node
  | .mk condition body, otherwise => .branch condition.node (.block body.nodes) otherwise

def statementsNodes : List Statement → List Node
  | [] => []
  | s :: ss => s.nodes ++ statementsNodes ss

def elseIfsNode : List ElseIf → Node → Node
  | [], otherwise => otherwise
  | c :: cs, otherwise => c.node (elseIfsNode cs otherwise)

def elseNode : Option Block → Node
  | none => .null
  | some body => .block body.nodes

end

/-- Enters the type of a declared variable. -/
def DeclItem.enter (type : TypeWord) (types : TypeTable) (d : DeclItem) : TypeTable :=
  types.insert d.name (some type.type)

mutual

/-- The table of declared types after a statement, given the table before it. -/
def Statement.types : Statement → TypeTable → TypeTable
  | .declaration type first more, types => (first :: more).foldl (DeclItem.enter type) types
  | .branch _ body elseIfs elseClause, types => elseTypes elseClause (elseIfsTypes elseIfs (body.types types))
  | .loop _ body, types => body.types types
  | .count _ _ _ body, types => body.types types
  | .print _, types => types
  | .input _ _, types => types
  | .expr _, types => types

def Block.types : Block → TypeTable → TypeTable
  | .mk statements, types => statementsTypes statements types

def ElseIf.types : ElseIf → TypeTable → TypeTable
  | .mk _ body, types => body.types types

def statementsTypes : List Statement → TypeTable → TypeTable
  | [], types => types
  | s :: ss, types => statementsTypes ss (s.types types)

def elseIfsTypes : List ElseIf → TypeTable → TypeTable
  | [], types => types
  | c :: cs, types => elseIfsTypes cs (c.types types)

def elseTypes : Option Block → TypeTable → TypeTable
  | none, types => types
  | some body, types => body.types types

end

/-- The tree of a whole program, with the types of the variables that it declares. -/
def Start.program (d : Start) : Node :=
  .program (statementsTypes d.statements .empty) (statementsNodes d.statements)

end Binisaya.Grammar
