import Binisaya.Fault
import Binisaya.Message
import Binisaya.Node
import Binisaya.Scope
import Binisaya.Text.Lines

/-! The machine that programs run on, and actions on it. An action ends with a value or with a failure, and in
both cases leaves a machine; an action that is given too little fuel does neither. -/

namespace Binisaya

/-- What a run can be asked for. -/
structure Settings where
  /-- Gives each block a scope of its own. -/
  blockScopes : Bool := false
  /-- Writes a notice after a run that ends well. -/
  banner : Bool := false
  /-- How much detail goes to the debug log. -/
  level : Nat := 0
deriving DecidableEq, Repr

structure Machine where
  scope : Scope := .empty
  /-- The declared types, which all scopes share. -/
  types : TypeTable := .empty
  /-- The input that is left. -/
  unread : List Char := []
  output : String := ""
  /-- The debug log. Messages come to it as long as it is open. After that they go to the console, which the output
  stands for as well: the machine is one whose output was not sent elsewhere. -/
  log : Array Message := #[]
  logging : Bool := true
deriving DecidableEq

/-- How an action ends. -/
inductive Outcome (α : Type) where
  | done (a : α) (m : Machine)
  | failed (f : Failure) (m : Machine)
  | outOfFuel
deriving DecidableEq

/-- An action on the machine. -/
def Exec (α : Type) : Type := Machine → Outcome α

namespace Exec

@[inline]
def pure {α : Type} (a : α) : Exec α := fun m => .done a m

@[inline]
def bind {α β : Type} (x : Exec α) (f : α → Exec β) : Exec β := fun m =>
  match x m with
  | .done a m => f a m
  | .failed e m => .failed e m
  | .outOfFuel => .outOfFuel

instance : Monad Exec where
  pure := pure
  bind := bind

@[simp]
theorem pure_apply {α : Type} (a : α) (m : Machine) : (Pure.pure a : Exec α) m = .done a m := rfl

@[simp]
theorem bind_apply {α β : Type} (x : Exec α) (f : α → Exec β) (m : Machine) :
    (x >>= f) m = match x m with
      | .done a m => f a m
      | .failed e m => .failed e m
      | .outOfFuel => .outOfFuel := rfl

instance : LawfulMonad Exec :=
  LawfulMonad.mk' Exec
    (fun x => by funext m; change bind x pure m = x m; unfold bind pure; cases x m <;> rfl)
    (fun _ _ => rfl)
    (fun x f g => by
      funext m
      change bind (bind x f) g m = bind x (fun a => bind (f a) g) m
      unfold bind
      cases x m <;> rfl)

def outOfFuel {α : Type} : Exec α := fun _ => .outOfFuel

def fail {α : Type} (f : Failure) : Exec α := fun m => .failed f m

/-- The result of a computation that does not touch the machine. -/
def ofExcept {α : Type} : Except Failure α → Exec α
  | .ok a => pure a
  | .error f => fail f

def modify (f : Machine → Machine) : Exec Unit := fun m => .done () (f m)

/-- Does something to the machine that an action leaves, however it ends. -/
def afterwards {α : Type} (x : Exec α) (f : Machine → Machine) : Exec α := fun m =>
  match x m with
  | .done a m => .done a (f m)
  | .failed e m => .failed e (f m)
  | .outOfFuel => .outOfFuel

/-- Writes a text to the output. -/
def write (text : String) : Exec Unit := modify fun m => { m with output := m.output ++ text }

/-- Writes a message to the debug log if the level asks for it, or to the console once the log is closed. The output
is taken to go to the console too, so that both end up in one text. -/
def note (cfg : Settings) (msg : Message) : Exec Unit :=
  if msg.threshold ≤ cfg.level then
    modify fun m =>
      if m.logging then { m with log := m.log.push msg } else { m with output := m.output ++ msg.line }
  else pure ()

/-- The value of a name. -/
def lookup (name : String) : Exec Value := fun m =>
  match m.scope.get? name with
  | some v => .done v m
  | none => .failed (.fault (.undefinedVariable name)) m

def assign (name : String) (v : Value) : Exec Unit :=
  modify fun m => { m with scope := m.scope.assign name v }

/-- Enters the declared type of a name, if there is one. -/
def declareType (name : String) : Option VarType → Exec Unit
  | none => pure ()
  | some t => modify fun m => { m with types := m.types.insert name (some t) }

/-- Takes a line of input. -/
def readLine : Exec (List Char) := fun m =>
  match takeLine? m.unread with
  | some (line, rest) => .done line { m with unread := rest }
  | none => .failed (.fault .noInput) m

/-- Runs an action in a new scope inside the present one. -/
def inNewScope {α : Type} (x : Exec α) : Exec α := fun m =>
  x.afterwards (fun m => { m with scope := m.scope.leave }) { m with scope := m.scope.enter }

end Exec

namespace Machine

/-- A machine before its first run. -/
def fresh (input : List Char) : Machine := { unread := input }

/-- The declared type of a name. -/
def typeOf (m : Machine) (name : String) : Option VarType := (m.types.get? name).join

/-- The debug log as a text. -/
def logText (m : Machine) : String := m.log.foldl (fun s msg => s ++ msg.line) ""

end Machine

/-- Binds a name in the present scope and tells the value: the one given, or in its absence the one that the
declared type of the name chooses. -/
def Exec.declare (name : String) (v : Value) : Exec Value := fun m =>
  let v := if v = .absent then initialValue (m.typeOf name) else v
  .done v { m with scope := m.scope.declare name v }

end Binisaya
