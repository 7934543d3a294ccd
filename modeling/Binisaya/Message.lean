import Binisaya.Value

/-! Messages of the debug log. Each has a threshold, the least level of detail at which it is written. -/

namespace Binisaya

inductive Message where
  | starting (statements : Nat)
  | executing (kind : String)
  | declared (name : String) (v : Value)
  | enteredBlock (statements : Nat)
  | testedBranch (v : Value)
  | testedLoop (v : Value)
  | readField (name : String) (v : Value)
  | applied (symbol : String) (left right : Value)
  | assigned (name : String) (v : Value)
deriving DecidableEq

namespace Message

/-- The least level of detail at which a message is written. -/
def threshold : Message → Nat
  | starting _ | executing _ => 1
  | declared .. | enteredBlock _ | readField .. | assigned .. => 2
  | testedBranch _ | testedLoop _ | applied .. => 3

def text : Message → String
  | starting n => "starting interpretation of " ++ toString n ++ " statements"
  | executing kind => "execute " ++ kind
  | declared name v => "declare " ++ name ++ ": " ++ v.kind ++ " = " ++ v.print
  | enteredBlock n => "block with " ++ toString n ++ " statements"
  | testedBranch v => "if condition " ++ v.print ++ " -> " ++ (if v.truthy then "True" else "False")
  | testedLoop v => "while condition " ++ v.print
  | readField name v => "input " ++ name ++ ": " ++ v.kind ++ " = " ++ v.print
  | applied symbol left right =>
    "binary " ++ symbol ++ " with left=" ++ left.print ++ " (" ++ left.kind ++ ") right=" ++ right.print ++
      " (" ++ right.kind ++ ")"
  | assigned name v => "assign " ++ name ++ " = " ++ v.print

/-- A message as a line of its own. -/
def line (msg : Message) : String := msg.text ++ "\n"

end Message

end Binisaya
