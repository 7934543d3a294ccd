import Binisaya.Node
import Binisaya.Scope

/-! Scopes that share ancestors. Scopes are numbered in the order in which they are made, and the parent of a
scope is an earlier one. A scope brings a table of declared types of its own or uses the very table of another
scope, which is its parent unless it is told otherwise; so each table belongs to one scope, its owner, and what
is entered through one of the scopes that use it is found through all of them. -/

namespace Binisaya

/-- Where the types of a scope are listed. -/
inductive TypeSource where
  | own (table : TypeTable)
  /-- In the table that another scope uses. -/
  | of (i : Nat)
deriving DecidableEq

namespace TypeSource

def table? : TypeSource → Option TypeTable
  | own table => some table
  | of _ => none

/-- Enters a type in a table of one's own. -/
def insert (name : String) (t : Option VarType) : TypeSource → TypeSource
  | own table => own (table.insert name t)
  | of i => of i

end TypeSource

/-- A scope among others. -/
structure ScopeNode where
  parent : Option Nat
  types : TypeSource
  values : Frame
deriving DecidableEq

/-- Numbered scopes, the latest first. -/
abbrev Forest := List ScopeNode

namespace Forest

/-- The scope of a number. -/
def scope? : Forest → Nat → Option ScopeNode
  | [], _ => none
  | s :: older, i => if i = older.length then some s else scope? older i

/-- A scope and those around it, the nearest first. -/
def ancestors : Forest → Nat → List Nat
  | [], _ => []
  | s :: older, i =>
    if i = older.length then
      i :: match s.parent with
        | some p => ancestors older p
        | none => []
    else ancestors older i

/-- Changes the scope of a number. -/
def modifyScope (f : ScopeNode → ScopeNode) : Forest → Nat → Forest
  | [], _ => []
  | s :: older, i => if i = older.length then f s :: older else s :: modifyScope f older i

/-- The variables bound in a scope itself. -/
def values (forest : Forest) (i : Nat) : Frame := ((forest.scope? i).map ScopeNode.values).getD .empty

/-- The variables of all scopes, in the order of their numbers. -/
def allValues (forest : Forest) : List Frame := forest.reverse.map ScopeNode.values

def binds (forest : Forest) (name : String) (i : Nat) : Bool := (forest.values i).contains name

/-- Makes a scope. Without a table it uses its parent's, and without a parent either it gets an empty one. -/
def add (forest : Forest) (parent : Option Nat) (types : Option TypeSource) : Forest :=
  ⟨parent, types.getD (parent.elim (.own .empty) .of), .empty⟩ :: forest

/-- The value of a name in a scope: that of its nearest binding. -/
def get? (forest : Forest) (i : Nat) (name : String) : Option Value :=
  (forest.ancestors i).findSome? fun j => (forest.values j).get? name

def sees (forest : Forest) (i : Nat) (name : String) : Bool := (forest.ancestors i).any (forest.binds name)

/-- The scope in which an assignment to a name takes place: the nearest that binds it, or the scope itself. -/
def slot (forest : Forest) (i : Nat) (name : String) : Nat :=
  ((forest.ancestors i).find? (forest.binds name)).getD i

/-- Binds a name in a scope itself. -/
def bindAt (forest : Forest) (i : Nat) (name : String) (v : Value) : Forest :=
  forest.modifyScope (fun s => { s with values := s.values.insert name v }) i

/-- Changes the nearest binding of a name, or makes one in the scope itself. -/
def assign (forest : Forest) (i : Nat) (name : String) (v : Value) : Forest :=
  forest.bindAt (forest.slot i name) name v

/-- The scope to which the table belongs that a scope uses. -/
def owner : Forest → Nat → Nat
  | [], i => i
  | s :: older, i =>
    if i = older.length then
      match s.types with
        | .own _ => i
        | .of j => owner older j
    else owner older i

/-- The table that belongs to a scope itself. -/
def table? (forest : Forest) (i : Nat) : Option TypeTable := (forest.scope? i).bind fun s => s.types.table?

/-- The table of declared types that a scope uses. -/
def types (forest : Forest) (i : Nat) : TypeTable := (forest.table? (forest.owner i)).getD .empty

def typeOf (forest : Forest) (i : Nat) (name : String) : Option VarType :=
  ((forest.types i).get? name).join

/-- Enters a type, or the lack of one, in the table that a scope uses. -/
def setType (forest : Forest) (i : Nat) (name : String) (t : Option VarType) : Forest :=
  forest.modifyScope (fun s => { s with types := s.types.insert name t }) (forest.owner i)

/-- The value that a declaration binds: the one given, or in its absence the one that the declared type
chooses. -/
def declaredValue (forest : Forest) (i : Nat) (name : String) (v : Value) : Value :=
  if v = .absent then initialValue (forest.typeOf i name) else v

/-- Declares a name in a scope itself. -/
def declare (forest : Forest) (i : Nat) (name : String) (v : Value) : Forest :=
  forest.bindAt i name (forest.declaredValue i name v)

end Forest

end Binisaya
