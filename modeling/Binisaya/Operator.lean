import Binisaya.Fault
import Binisaya.Number.Remainder
import Binisaya.Value

/-! Operators on values. Arithmetic and order take numbers only, `+` also joins texts and characters, `&` joins
anything, and the logical operators look at the truth of both sides. -/

namespace Binisaya

inductive UnaryOp where
  | minus
  | plus
  | not
deriving DecidableEq, Repr

inductive BinaryOp where
  | concat
  | or
  | and
  | eq
  | ne
  | ge
  | le
  | gt
  | lt
  | add
  | sub
  | mul
  | div
  | rem
deriving DecidableEq, Repr

def UnaryOp.symbol : UnaryOp → String
  | minus => "-"
  | plus => "+"
  | not => "DILI"

def BinaryOp.symbol : BinaryOp → String
  | concat => "&"
  | or => "O"
  | and => "UG"
  | eq => "=="
  | ne => "<>"
  | ge => ">="
  | le => "<="
  | gt => ">"
  | lt => "<"
  | add => "+"
  | sub => "-"
  | mul => "*"
  | div => "/"
  | rem => "%"

def UnaryOp.ofSymbol? : String → Option UnaryOp
  | "-" => some .minus
  | "+" => some .plus
  | "DILI" => some .not
  | _ => none

def BinaryOp.ofSymbol? : String → Option BinaryOp
  | "&" => some .concat
  | "O" => some .or
  | "UG" => some .and
  | "==" => some .eq
  | "<>" => some .ne
  | ">=" => some .ge
  | "<=" => some .le
  | ">" => some .gt
  | "<" => some .lt
  | "+" => some .add
  | "-" => some .sub
  | "*" => some .mul
  | "/" => some .div
  | "%" => some .rem
  | _ => none

theorem UnaryOp.ofSymbol?_symbol (op : UnaryOp) : ofSymbol? op.symbol = some op := by
  cases op <;> rfl

theorem BinaryOp.ofSymbol?_symbol (op : BinaryOp) : ofSymbol? op.symbol = some op := by
  cases op <;> rfl

/-- Applies a function to two numbers and complains about all else. -/
def onNumbers (f : Float → Float → Except Failure Value) : Value → Value → Except Failure Value
  | .number x, .number y => f x y
  | a, b => .error (.fault (.operandsNotNumbers a.kind b.kind))

/-- Applies a function to a number and complains about all else. -/
def onNumber (f : Float → Value) : Value → Except Failure Value
  | .number x => .ok (f x)
  | a => .error (.fault (.operandNotNumber a.kind))

/-- Two numbers are added; a text joins the printed form of anything, and two characters make a text. -/
def addValues : Value → Value → Except Failure Value
  | .number x, .number y => .ok (.number (x + y))
  | .char s, .char t => .ok (.text (s ++ t))
  | .text s, b => .ok (.text (s ++ b.print))
  | a, .text t => .ok (.text (a.print ++ t))
  | _, _ => .error (.fault .operandsNotAddable)

/-- Division by anything but a zero. -/
def divide (x y : Float) : Except Failure Value :=
  if y == 0 then .error (.fault .divisionByZero) else .ok (.number (x / y))

/-- The remainder of a division. -/
def remainder (x y : Float) : Except Failure Value :=
  if y == 0 then .error (.fault .moduloByZero)
  else match remainder? x y with
    | some r => .ok (.number r)
    | none => .error (.defect .infiniteDividend)

/-- Inequality, which is refused between a number and a character. -/
def unequal : Value → Value → Except Failure Value
  | .number _, .char _ | .char _, .number _ => .error (.fault .numberWithCharacter)
  | a, b => .ok (.ofBool (!a.equal b))

def UnaryOp.apply : UnaryOp → Value → Except Failure Value
  | .minus, a => onNumber (fun x => .number (-x)) a
  | .plus, a => onNumber .number a
  | .not, a => .ok (.ofBool (!a.truthy))

def BinaryOp.apply : BinaryOp → Value → Value → Except Failure Value
  | .concat, a, b => .ok (.text (a.print ++ b.print))
  | .or, a, b => .ok (.ofBool (a.truthy || b.truthy))
  | .and, a, b => .ok (.ofBool (a.truthy && b.truthy))
  | .eq, a, b => .ok (.ofBool (a.equal b))
  | .ne, a, b => unequal a b
  | .ge, a, b => onNumbers (fun x y => .ok (.ofBool (y ≤ x))) a b
  | .le, a, b => onNumbers (fun x y => .ok (.ofBool (x ≤ y))) a b
  | .gt, a, b => onNumbers (fun x y => .ok (.ofBool (y < x))) a b
  | .lt, a, b => onNumbers (fun x y => .ok (.ofBool (x < y))) a b
  | .add, a, b => addValues a b
  | .sub, a, b => onNumbers (fun x y => .ok (.number (x - y))) a b
  | .mul, a, b => onNumbers (fun x y => .ok (.number (x * y))) a b
  | .div, a, b => onNumbers divide a b
  | .rem, a, b => onNumbers remainder a b

/-- Applies the operator that a symbol names. -/
def evalUnary (symbol : String) (a : Value) : Except Failure Value :=
  match UnaryOp.ofSymbol? symbol with
  | some op => op.apply a
  | none => .error (.fault (.unsupportedUnary symbol))

/-- Applies the operator that a symbol names. -/
def evalBinary (symbol : String) (a b : Value) : Except Failure Value :=
  match BinaryOp.ofSymbol? symbol with
  | some op => op.apply a b
  | none => .error (.fault (.unknownOperator symbol))

end Binisaya
