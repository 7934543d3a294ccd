import Binisaya.Table
import Binisaya.Value

/-! Scopes. A scope has variables of its own and lies inside outer ones, the nearest first. A name means its
nearest binding; assigning to a name that is bound nowhere binds it in the scope itself. -/

namespace Binisaya

/-- The variables bound in one scope. -/
abbrev Frame := Table Value

structure Scope where
  own : Frame
  outer : List Frame
deriving DecidableEq

/-- Tells that one of the frames binds a name. -/
def bound (name : String) (frames : List Frame) : Bool := frames.any (·.contains name)

/-- Gives a name another value in the nearest frame that binds it. -/
def rebind (name : String) (v : Value) : List Frame → List Frame
  | [] => []
  | f :: fs => if f.contains name then f.insert name v :: fs else f :: rebind name v fs

namespace Scope

/-- A scope with nothing in it and nothing around it. -/
def empty : Scope := ⟨.empty, []⟩

instance : Inhabited Scope := ⟨empty⟩

def frames (s : Scope) : List Frame := s.own :: s.outer

/-- The value of a name: that of its nearest binding. -/
def get? (s : Scope) (name : String) : Option Value := s.frames.findSome? (·.get? name)

/-- Binds a name in the scope itself. -/
def declare (s : Scope) (name : String) (v : Value) : Scope := { s with own := s.own.insert name v }

/-- Changes the nearest binding of a name, or makes one in the scope itself. -/
def assign (s : Scope) (name : String) (v : Value) : Scope :=
  if s.own.contains name || !bound name s.outer then s.declare name v
  else { s with outer := rebind name v s.outer }

/-- A new scope inside this one. -/
def enter (s : Scope) : Scope := ⟨.empty, s.frames⟩

/-- The scope around this one; the outermost is its own. -/
def leave (s : Scope) : Scope :=
  match s.outer with
  | [] => s
  | f :: fs => ⟨f, fs⟩

@[simp]
theorem get?_declare (s : Scope) (name m : String) (v : Value) :
    (s.declare name v).get? m = if m = name then some v else s.get? m := by
  by_cases h : m = name <;> simp [get?, frames, declare, List.findSome?_cons, h]

@[simp]
theorem leave_enter (s : Scope) : s.enter.leave = s := rfl

end Scope

end Binisaya
