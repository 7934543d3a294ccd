import Binisaya.Surface

/-! The grammar. A parser takes tokens from the front of a list; when it cannot go on it gives back the tokens
from the first one that cannot stand where it does. No parser looks at more than two tokens, and none goes
back, so that token is the first at which the text cannot be completed to a program. The numbers that parsers
are given bound repetition and nesting; any number above that of the tokens is as good as another. -/

namespace Binisaya

abbrev Parser := StateT (List Token) (Except (List Token))

namespace Parser

/-- Gives up at the next token. -/
def reject {α : Type} : Parser α := fun ts => .error ts

/-- Takes one given token. -/
def expect (t : Token) : Parser Unit := fun ts =>
  match ts with
  | u :: rest => if u = t then .ok ((), rest) else .error ts
  | [] => .error []

/-- Takes a given token if it comes next, and tells whether it did. -/
def accept (t : Token) : Parser Bool := fun ts =>
  match ts with
  | u :: rest => if u = t then .ok (true, rest) else .ok (false, ts)
  | [] => .ok (false, [])

/-- Takes a name. -/
def name : Parser String := fun ts =>
  match ts with
  | .ident x :: rest => .ok (x, rest)
  | _ => .error ts

/-- Takes the word of a type. -/
def typeWord : Parser TypeWord := fun ts =>
  match ts with
  | .typeWord t :: rest => .ok (t, rest)
  | _ => .error ts

/-- Takes what follows the first of several things with commas between them, no more than the number says. -/
def moreItems {α : Type} (item : Parser α) : Nat → Parser (List α)
  | 0 => pure []
  | n + 1 => do
    if ← accept .comma then
      let a ← item
      return a :: (← moreItems item n)
    else return []

/-- Takes one or more things with commas between them. -/
def items {α : Type} (bound : Nat) (item : Parser α) : Parser (List α) := do
  let a ← item
  return a :: (← moreItems item bound)

/-- The operators between operands, from the loosest level to the tightest. Operators of one level group to the
left. -/
def levels : List (List BinaryOp) :=
  [[.concat], [.or], [.and], [.eq, .ne], [.ge, .le, .gt, .lt], [.add, .sub], [.mul, .div, .rem]]

/-- Goes on with an operand as long as operators of a level follow, no more than the number says. -/
def chainTail (ops : List BinaryOp) (operand : Parser Expr) : Nat → Expr → Parser Expr
  | 0, e => pure e
  | n + 1, e => fun ts =>
    match ts with
    | .operator op :: rest =>
      if op ∈ ops then (operand >>= fun right => chainTail ops operand n (.binary op e right)) rest
      else .ok (e, ts)
    | _ => .ok (e, ts)

/-- Operands with operators of a level between them. -/
def chain (bound : Nat) (ops : List BinaryOp) (operand : Parser Expr) : Parser Expr := do
  let e ← operand
  chainTail ops operand bound e

/-- An expression without an assignment at its front, given how its operands are parsed. -/
def operation (bound : Nat) (operand : Parser Expr) : Parser Expr := levels.foldr (chain bound) operand

/-- An expression, given how its operands are parsed. Assignments group to the right. -/
def expressionOf (bound : Nat) (operand : Parser Expr) : List Token → Except (List Token) (Expr × List Token)
  | .ident x :: .equals :: rest =>
    (expressionOf bound operand rest).map fun (e, rest) => (.assign x e, rest)
  | ts => operation bound operand ts

/-- An operand with the signs before it. The second number bounds how many signs and parentheses are open. -/
def operand (bound : Nat) : Nat → Parser Expr
  | 0 => reject
  | n + 1 => fun ts =>
    match ts with
    | .operator .add :: rest => (Expr.unary .plus <$> operand bound n) rest
    | .operator .sub :: rest => (Expr.unary .minus <$> operand bound n) rest
    | .dili :: rest => (Expr.unary .not <$> operand bound n) rest
    | .number x :: rest => .ok (.number x, rest)
    | .text s :: rest => .ok (.text s, rest)
    | .char c :: rest => .ok (.char c, rest)
    | .escape c :: rest => .ok (.text (.singleton c), rest)
    | .newline :: rest => .ok (.text "\n", rest)
    | .ident x :: rest => .ok (.var x, rest)
    | .leftParen :: rest => (do
        let e ← expressionOf bound (operand bound n)
        expect .rightParen
        return Expr.group e : Parser Expr) rest
    | _ => .error ts

/-- An expression. -/
def expression (bound : Nat) : Parser Expr := expressionOf bound (operand bound bound)

/-- An expression between parentheses. -/
def condition (bound : Nat) : Parser Expr := do
  expect .leftParen
  let e ← expression bound
  expect .rightParen
  return e

/-- A variable in a declaration, perhaps with an initial value. -/
def declaredItem (bound : Nat) : Parser (String × Option Expr) := do
  let x ← name
  if ← accept .equals then return (x, some (← expression bound)) else return (x, none)

/-- Takes statements up to a token that ends them, which is left; the number must exceed how many there are. -/
def statementsUntil (stop : Token) (stmt : Parser Stmt) : Nat → Parser (List Stmt)
  | 0 => reject
  | n + 1 => do
    if (← get).head? = some stop then return []
    else
      let s ← stmt
      return s :: (← statementsUntil stop stmt n)

/-- The statements between braces. -/
def block (bound : Nat) (stmt : Parser Stmt) : Parser (List Stmt) := do
  expect .pundok
  expect .leftBrace
  expect .lineEnd
  let body ← statementsUntil .rightBrace stmt bound
  expect .rightBrace
  return body

/-- What follows the first block of a branch, no more clauses than the second number says. -/
def otherwise (bound : Nat) (stmt : Parser Stmt) : Nat → Parser Otherwise
  | 0 => pure .nothing
  | n + 1 => do
    if ← accept .kungDili then
      let c ← condition bound
      let body ← block bound stmt
      return .branch c body (← otherwise bound stmt n)
    else if ← accept .kungWala then return .block (← block bound stmt)
    else return .nothing

/-! The rests of statements after their first words. -/

def declaration (bound : Nat) : Parser Stmt := do
  let t ← typeWord
  return .declare t (← items bound (declaredItem bound))

def printed (bound : Nat) : Parser Stmt := do
  expect .colon
  return .print (← expression bound)

def inputTargets (bound : Nat) : Parser Stmt := do
  expect .colon
  return .input (← items bound name)

def branching (bound : Nat) (stmt : Parser Stmt) : Parser Stmt := do
  let c ← condition bound
  let body ← block bound stmt
  return .branch c body (← otherwise bound stmt bound)

def looping (bound : Nat) (stmt : Parser Stmt) : Parser Stmt := do
  let c ← condition bound
  return .loop c (← block bound stmt)

def counting (bound : Nat) (stmt : Parser Stmt) : Parser Stmt := do
  expect .leftParen
  let init ← expression bound
  expect .comma
  let c ← expression bound
  expect .comma
  let update ← expression bound
  expect .rightParen
  return .count init c update (← block bound stmt)

/-- A statement without the end of its line, given how the statements of its blocks are parsed. -/
def statementOf (bound : Nat) (stmt : Parser Stmt) : Parser Stmt := fun ts =>
  match ts with
  | .mugna :: rest => declaration bound rest
  | .ipakita :: rest => printed bound rest
  | .dawat :: rest => inputTargets bound rest
  | .kung :: rest => branching bound stmt rest
  | .samtang :: rest => looping bound stmt rest
  | .alangSa :: rest => counting bound stmt rest
  | _ => (Stmt.expr <$> expression bound) ts

/-- A statement. The second number bounds how deep blocks nest. -/
def statement (bound : Nat) : Nat → Parser Stmt
  | 0 => reject
  | n + 1 => do
    let s ← statementOf bound (statement bound n)
    expect .lineEnd
    return s

/-- Nothing may follow. -/
def ending : Parser Unit := fun ts =>
  match ts with
  | [] => .ok ((), [])
  | _ => .error ts

/-- A whole program of fewer tokens than the number says. -/
def program (bound : Nat) : Parser (List Stmt) := do
  expect .sugod
  expect .lineEnd
  let body ← statementsUntil .katapusan (statement bound bound) bound
  expect .katapusan
  let _ ← accept .lineEnd
  ending
  return body

end Parser

/-- The statements of a program, or the tokens from the first one that cannot stand where it does. -/
def parseTokens (ts : List Token) : Except (List Token) (List Stmt) :=
  (Parser.program (ts.length + 1) ts).map Prod.fst

end Binisaya
