import Binisaya.Number.Style
import Binisaya.Text.Quoted

/-! Run-time values. The language has numbers, texts, characters and the value `nil`; its booleans are two
texts. A stored program can also hold a literal that is absent or a bare flag, and these are carried along as
values of their own. -/

namespace Binisaya

inductive Value where
  | number (x : Float)
  | text (s : String)
  /-- A character. A stored program may give it a text of any length. -/
  | char (s : String)
  | nil
  | absent
  | flag (b : Bool)
deriving DecidableEq

namespace Value

/-- The two texts that stand for booleans. -/
def ofBool (b : Bool) : Value := .text (if b then "OO" else "DILI")

/-- Tells which way a branch goes: only nothing, the number zero and the text `DILI` are false. -/
def truthy : Value → Bool
  | .nil | .absent => false
  | .text s => s != "DILI"
  | .number x => x != 0
  | .char _ | .flag _ => true

/-- Equality of values. Numbers are equal as numbers are, so `NaN` differs from itself and the zeros are one;
values of different kinds are never equal. -/
def equal : Value → Value → Bool
  | .nil, .nil => true
  | .absent, .absent => true
  | .text s, .text t => s == t
  | .number x, .number y => x == y
  | .char s, .char t => s == t
  | .flag b, .flag c => b == c
  | _, _ => false

/-- The name of a value's kind in error messages. -/
def kind : Value → String
  | .nil | .absent => "Empty"
  | .number _ => "Number"
  | .text _ => "Text"
  | .char _ => "Character"
  | .flag _ => "bool"

/-- The printed form of a value. -/
def print : Value → String
  | .nil | .absent => "nil"
  | .text s => s
  | .char s => s
  | .number x => NumberStyle.printed.write x
  | .flag b => if b then "True" else "False"

/-- How a character or `nil` is shown where values are told apart; other values are shown as they are. -/
def display? : Value → Option String
  | .char s => some ("Char(" ++ quoted s ++ ")")
  | .nil => some "nil"
  | _ => none

end Value

end Binisaya
