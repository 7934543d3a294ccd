import Binisaya.Value

/-! Declared types of variables. A type chooses the value of a bare declaration and the way in which an input
field is read, and restricts nothing else. Kinds other than the four of the language can come from stored
programs and are kept as they are. -/

namespace Binisaya

structure VarType where
  kind : String
deriving DecidableEq, Repr

namespace VarType

def number : VarType := ⟨"Number"⟩
def real : VarType := ⟨"Float"⟩
def boolean : VarType := ⟨"Boolean"⟩
def character : VarType := ⟨"Character"⟩

def isNumeric (t : VarType) : Bool := t = number || t = real

/-- The value of a variable that is declared without one. -/
def initialValue (t : VarType) : Value :=
  if t.isNumeric then .number 0
  else if t = boolean then .ofBool false
  else if t = character then .text ""
  else .nil

end VarType

/-- The value of a variable that is declared without one and perhaps without a type. -/
def initialValue : Option VarType → Value
  | none => .nil
  | some t => t.initialValue

end Binisaya
