import Binisaya.Run

/-! Sessions: one machine on which several things are done, each in the global scope, in a new scope inside it
or in a scope that has nothing to do with it. -/

namespace Binisaya

/-- Where a step of a session takes place. -/
inductive Place where
  | global
  /-- A new scope inside the global one. -/
  | child
  /-- A new scope with types of its own. -/
  | fresh
deriving DecidableEq, Repr

structure Session where
  cfg : Settings
  /-- The machine between steps, which stands in the global scope. -/
  machine : Machine
deriving DecidableEq

/-- What a step shows. -/
structure StepReport (α : Type) where
  /-- The text written in this step. -/
  output : String
  /-- The variables of the scope in which the step took place. -/
  own : Frame
  types : TypeTable
  /-- How the step ended, unless it ran out of fuel. -/
  result : Option (Except Failure α)

namespace Session

def start (cfg : Settings) (input : List Char) : Session := ⟨cfg, .fresh input⟩

/-- The machine at the start of a step. -/
def enter (s : Session) (place : Place) : Machine :=
  let m := { s.machine with output := "" }
  match place with
  | .global => m
  | .child => { m with scope := m.scope.enter }
  | .fresh => { m with scope := .empty, types := .empty }

/-- The session after a step that left a machine. -/
def leave (s : Session) (place : Place) (m : Machine) : Session :=
  match place with
  | .global => { s with machine := m }
  | .child => { s with machine := { m with scope := m.scope.leave } }
  | .fresh => { s with machine := { m with scope := s.machine.scope, types := s.machine.types } }

/-- Does one step. -/
def step {α : Type} (s : Session) (place : Place) (x : Exec α) : StepReport α × Session :=
  match x (s.enter place) with
  | .done a m => (⟨m.output, m.scope.own, m.types, some (.ok a)⟩, s.leave place m)
  | .failed f m => (⟨m.output, m.scope.own, m.types, some (.error f)⟩, s.leave place m)
  | .outOfFuel =>
    let m := s.enter place
    (⟨m.output, m.scope.own, m.types, none⟩, s)

end Session

end Binisaya
