import Mathlib.Logic.Relation
import Binisaya.Run

/-! Runs step by step. A state of a run holds what is still to be done and the machine at that moment: the
operators that wait for the value of the expression at hand, what the statement wants that value for, and the
tasks after it. A failure goes through the tasks that are left and undoes what they were to undo. Where an action
tells only how it ends, the states of a run are also there for runs that never end. -/

namespace Binisaya.Stepwise

/-- An operator that waits for the value of one of its operands. -/
inductive Waiting where
  | unary (symbol : String)
  | left (symbol : String) (right : Node)
  | right (symbol : String) (a : Value)
  | assign (name : String)

/-- What a statement wants a value for. -/
inductive Purpose where
  | discard
  | print (before : List Value) (rest : List Node)
  | declare (name : String)
  | choose (yes no : Node)
  | test (condition body : Node)

inductive Task where
  | program (p : Node)
  | statement (s : Node)
  /-- The next round of a loop. -/
  | round (condition body : Node)
  | fields (pairs : List (String × Value))
  /-- The end of a block with a scope of its own. -/
  | leave
  /-- The end of a run. -/
  | close

inductive State where
  | evaluating (e : Node) (ws : List Waiting) (p : Purpose) (ts : List Task) (m : Machine)
  | returning (v : Value) (ws : List Waiting) (p : Purpose) (ts : List Task) (m : Machine)
  | executing (ts : List Task) (m : Machine)
  | failing (f : Failure) (ts : List Task) (m : Machine)

def State.machine : State → Machine
  | .evaluating _ _ _ _ m | .returning _ _ _ _ m | .executing _ m | .failing _ _ m => m

/-- The state before a program is run. -/
def State.start (p : Node) (m : Machine) : State := .executing [.program p] m

/-- The machine after a message was written. -/
def noted (cfg : Settings) (msg : Message) (m : Machine) : Machine :=
  if msg.threshold ≤ cfg.level then
    if m.logging then { m with log := m.log.push msg } else { m with output := m.output ++ msg.line }
  else m

/-- The machine after the declared type of a name was entered. -/
def typed (name : String) (type : Option VarType) (m : Machine) : Machine :=
  match type with
  | none => m
  | some t => { m with types := m.types.insert name (some t) }

/-- The machine after a name was bound, and the value it was bound to. -/
def declared (name : String) (v : Value) (m : Machine) : Value × Machine :=
  let v := if v = .absent then initialValue (m.typeOf name) else v
  (v, { m with scope := m.scope.declare name v })

/-- The state after an operator was applied. -/
def settle (r : Except Failure Value) (ws : List Waiting) (p : Purpose) (ts : List Task) (m : Machine) : State :=
  match r with
  | .ok v => .returning v ws p ts m
  | .error f => .failing f ts m

def enter (ws : List Waiting) (p : Purpose) (ts : List Task) (m : Machine) : Node → State
  | .literal v _ => .returning v ws p ts m
  | .group e => .evaluating e ws p ts m
  | .ident name =>
    match m.scope.get? name with
    | some v => .returning v ws p ts m
    | none => .failing (.fault (.undefinedVariable name)) ts m
  | .unary symbol e => .evaluating e (.unary symbol :: ws) p ts m
  | .binary symbol left right => .evaluating left (.left symbol right :: ws) p ts m
  | .assign name e => .evaluating e (.assign name :: ws) p ts m
  | other => .failing (.defect (.notExpression other.kind)) ts m

/-- Gives a value to the operator that waits for it. -/
def operate (cfg : Settings) (v : Value) (ws : List Waiting) (p : Purpose) (ts : List Task) (m : Machine) :
    Waiting → State
  | .unary symbol => settle (evalUnary symbol v) ws p ts m
  | .left symbol right => .evaluating right (.right symbol v :: ws) p ts m
  | .right symbol a => settle (evalBinary symbol a v) ws p ts (noted cfg (.applied symbol a v) m)
  | .assign name =>
    .returning v ws p ts (noted cfg (.assigned name v) { m with scope := m.scope.assign name v })

def printed (vs : List Value) (m : Machine) : Machine :=
  { m with output := m.output ++ String.join (vs.map Value.print) }

def bindName (cfg : Settings) (name : String) (v : Value) (m : Machine) : Machine :=
  noted cfg (.declared name (declared name v m).1) (declared name v m).2

/-- Gives the value of an expression to the statement that wants it. -/
def deliver (cfg : Settings) (v : Value) (ts : List Task) (m : Machine) : Purpose → State
  | .discard => .executing ts m
  | .print before [] => .executing ts (printed (before ++ [v]) m)
  | .print before (e :: es) => .evaluating e [] (.print (before ++ [v]) es) ts m
  | .declare name => .executing ts (bindName cfg name v m)
  | .choose yes no =>
    if v.truthy then .executing (.statement yes :: ts) (noted cfg (.testedBranch v) m)
    else match no with
      | .null => .executing ts (noted cfg (.testedBranch v) m)
      | no => .executing (.statement no :: ts) (noted cfg (.testedBranch v) m)
  | .test condition body =>
    if v.truthy then .executing (.statement body :: .round condition body :: ts) (noted cfg (.testedLoop v) m)
    else .executing ts (noted cfg (.testedLoop v) m)

def receive (names : List String) (ts : List Task) (m : Machine) : State :=
  match takeLine? m.unread with
  | none => .failing (.fault .noInput) ts m
  | some (line, rest) =>
    match lineValues m.typeOf names line with
    | .ok pairs => .executing (.fields pairs :: ts) { m with unread := rest }
    | .error f => .failing (.fault f) ts { m with unread := rest }

def begin (cfg : Settings) (ts : List Task) (m : Machine) : Node → State
  | .exprStmt e => .evaluating e [] .discard ts m
  | .print [] => .executing ts (printed [] m)
  | .print (e :: es) => .evaluating e [] (.print [] es) ts m
  | .declare name init type =>
    match init with
    | .null => .executing ts (bindName cfg name .absent (typed name type m))
    | e => .evaluating e [] (.declare name) ts (typed name type m)
  | .block body =>
    if cfg.blockScopes then
      .executing (body.map .statement ++ .leave :: ts)
        (noted cfg (.enteredBlock body.length) { m with scope := m.scope.enter })
    else .executing (body.map .statement ++ ts) (noted cfg (.enteredBlock body.length) m)
  | .branch condition yes no => .evaluating condition [] (.choose yes no) ts m
  | .loop condition body => .evaluating condition [] (.test condition body) ts m
  | .input names => receive names ts m
  | other => .failing (.defect (.notStatement other.kind)) ts m

def perform (cfg : Settings) (ts : List Task) (m : Machine) : Task → State
  | .program (.program types body) =>
    .executing (body.map .statement ++ .close :: ts)
      (noted cfg (.starting body.length) { m with types := m.types.update types })
  | .program _ => .failing (.defect .notProgram) ts m
  | .statement s => begin cfg ts (noted cfg (.executing s.kind) m) s
  | .round condition body => .evaluating condition [] (.test condition body) ts m
  | .fields [] => .executing ts m
  | .fields ((name, v) :: rest) =>
    .executing (.fields rest :: ts) (noted cfg (.readField name v) { m with scope := m.scope.assign name v })
  | .leave => .executing ts { m with scope := m.scope.leave }
  | .close =>
    .executing ts { m with output := if cfg.banner then m.output ++ closingNotice else m.output, logging := false }

/-- What a failure does to the machine when it passes a task. -/
def unwind (m : Machine) : Task → Machine
  | .leave => { m with scope := m.scope.leave }
  | .close => { m with logging := false }
  | _ => m

/-- The state that follows a state. None follows when nothing is left to be done. -/
def step (cfg : Settings) : State → Option State
  | .evaluating e ws p ts m => some (enter ws p ts m e)
  | .returning v (w :: ws) p ts m => some (operate cfg v ws p ts m w)
  | .returning v [] p ts m => some (deliver cfg v ts m p)
  | .executing (t :: ts) m => some (perform cfg ts m t)
  | .executing [] _ => none
  | .failing f (t :: ts) m => some (.failing f ts (unwind m t))
  | .failing _ [] _ => none

/-- One state leads to another in some number of steps. -/
def Steps (cfg : Settings) : State → State → Prop := Relation.ReflTransGen fun s t => step cfg s = some t

def Endless (cfg : Settings) (s : State) : Prop :=
  ∃ c : Nat → State, c 0 = s ∧ ∀ i, step cfg (c i) = some (c (i + 1))

end Binisaya.Stepwise
