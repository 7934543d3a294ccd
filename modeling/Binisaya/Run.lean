import Binisaya.Field
import Binisaya.Machine
import Binisaya.Operator

/-! Running program trees. Expressions always end; a statement is given fuel, which bounds how deep statements
nest and how often a loop repeats, and more fuel never changes how a run ends. -/

namespace Binisaya

/-- The value of an expression. Operands are evaluated left to right, both of them also under `UG` and `O`. -/
def eval (cfg : Settings) : Node → Exec Value
  | .literal v _ => pure v
  | .group e => eval cfg e
  | .ident name => .lookup name
  | .unary symbol e => do
    let a ← eval cfg e
    .ofExcept (evalUnary symbol a)
  | .binary symbol left right => do
    let a ← eval cfg left
    let b ← eval cfg right
    .note cfg (.applied symbol a b)
    .ofExcept (evalBinary symbol a b)
  | .assign name e => do
    let v ← eval cfg e
    .assign name v
    .note cfg (.assigned name v)
    return v
  | other => .fail (.defect (.notExpression other.kind))

/-- The values of expressions, left to right. -/
def evalAll (cfg : Settings) : List Node → Exec (List Value)
  | [] => pure []
  | e :: es => do
    let v ← eval cfg e
    let vs ← evalAll cfg es
    return v :: vs

/-- The value that a declaration asks for: none without an initial value. -/
def evalInit (cfg : Settings) : Node → Exec Value
  | .null => pure .absent
  | e => eval cfg e

/-- Reads a line of input for variables. Nothing is bound unless every field fits. -/
def readInput (names : List String) : Exec (List (String × Value)) := do
  let line ← Exec.readLine
  fun m =>
    match lineValues m.typeOf names line with
    | .ok pairs => .done pairs m
    | .error f => .failed (.fault f) m

/-- Assigns fields to variables, left to right. -/
def assignFields (cfg : Settings) : List (String × Value) → Exec Unit
  | [] => pure ()
  | (name, v) :: rest => do
    .assign name v
    .note cfg (.readField name v)
    assignFields cfg rest

/-- Runs the actions of statements in order. -/
def inOrder (action : Node → Exec Unit) : List Node → Exec Unit
  | [] => pure ()
  | s :: ss => do
    action s
    inOrder action ss

/-- Repeats a body as long as a condition is true, at most as often as the fuel says. -/
def repeatWhile (cfg : Settings) (condition : Node) (body : Exec Unit) : Nat → Exec Unit
  | 0 => .outOfFuel
  | n + 1 => do
    let v ← eval cfg condition
    .note cfg (.testedLoop v)
    if v.truthy then
      body
      repeatWhile cfg condition body n

/-- Runs an action in the scope that a block has. -/
def inBlock (cfg : Settings) (x : Exec Unit) : Exec Unit := if cfg.blockScopes then x.inNewScope else x

/-- Executes a statement. -/
def exec (cfg : Settings) : Nat → Node → Exec Unit
  | 0, _ => .outOfFuel
  | n + 1, s => do
    .note cfg (.executing s.kind)
    match s with
    | .exprStmt e => do
      let _ ← eval cfg e
    | .print items => do
      let vs ← evalAll cfg items
      .write (String.join (vs.map Value.print))
    | .declare name init type => do
      .declareType name type
      let v ← evalInit cfg init
      let v ← .declare name v
      .note cfg (.declared name v)
    | .block body => inBlock cfg do
      .note cfg (.enteredBlock body.length)
      inOrder (exec cfg n) body
    | .branch condition yes no => do
      let v ← eval cfg condition
      .note cfg (.testedBranch v)
      if v.truthy then exec cfg n yes
      else match no with
        | .null => pure ()
        | no => exec cfg n no
    | .loop condition body => repeatWhile cfg condition (exec cfg n body) n
    | .input names => do
      let pairs ← readInput names
      assignFields cfg pairs
    | other => .fail (.defect (.notStatement other.kind))

/-- What a run that ends well writes at its end. -/
def closingNotice : String := "\n\nInterpretation complete\n"

/-- Runs the statements of a program. -/
def runBody (cfg : Settings) (fuel : Nat) (body : List Node) : Exec Unit := do
  .note cfg (.starting body.length)
  inOrder (exec cfg fuel) body
  if cfg.banner then .write closingNotice

/-- Runs a program: its declared types are entered, its statements executed, and the debug log is closed
however that ends. -/
def run (cfg : Settings) (fuel : Nat) : Node → Exec Unit
  | .program types body => do
    .modify fun m => { m with types := m.types.update types }
    (runBody cfg fuel body).afterwards fun m => { m with logging := false }
  | _ => .fail (.defect .notProgram)

/-- Fuel for runs that are to go on as long as they need to. -/
def ampleFuel : Nat := 1000000000000000000

end Binisaya
