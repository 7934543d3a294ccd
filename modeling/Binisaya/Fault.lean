import Binisaya.Text.Quoted

/-! What can go wrong. A `Fault` is an error of the language, with a kind and a message that the user sees. A
`Defect` is a run that cannot go on because its tree is not a program, or because a remainder does not exist;
trees that come from source text have no defect of the first sort. -/

namespace Binisaya

/-- The errors of the language. -/
inductive Fault where
  | operandsNotNumbers (left right : String)
  | operandNotNumber (kind : String)
  | operandsNotAddable
  | numberWithCharacter
  | divisionByZero
  | moduloByZero
  | unknownOperator (symbol : String)
  | unsupportedUnary (symbol : String)
  | undefinedVariable (name : String)
  | fieldCount (expected got : Nat)
  | badNumber (name field : String)
  | badBoolean (name field : String)
  | badCharacter (name field : String)
  | noInput
  | unexpectedInput (line column : Nat)
deriving DecidableEq, Repr

namespace Fault

/-- The kind under which an error is reported. -/
def kind : Fault → String
  | operandsNotNumbers .. | operandNotNumber _ | operandsNotAddable | numberWithCharacter
  | unknownOperator _ | unsupportedUnary _ => "TypeError"
  | divisionByZero | moduloByZero => "ArithmeticError"
  | undefinedVariable _ => "NameError"
  | fieldCount .. => "InputArityError"
  | badNumber .. | badBoolean .. | badCharacter .. => "InputFormatError"
  | noInput => "InputError"
  | unexpectedInput .. => "SyntaxError"

def message : Fault → String
  | operandsNotNumbers left right => "operands must be numbers, got " ++ left ++ " and " ++ right
  | operandNotNumber kind => "operand must be a number, got " ++ kind
  | operandsNotAddable => "operands must be numbers, strings, or characters"
  | numberWithCharacter => "cannot compare number with character"
  | divisionByZero => "division by zero"
  | moduloByZero => "modulo by zero"
  | unknownOperator symbol => "unknown operator " ++ symbol
  | unsupportedUnary symbol => "unsupported unary operator " ++ symbol
  | undefinedVariable name => "undefined variable '" ++ name ++ "'"
  | fieldCount expected got => "expected " ++ toString expected ++ " values, got " ++ toString got
  | badNumber name field => "invalid input format for variable " ++ name ++ ": " ++ field
  | badBoolean name field =>
    "invalid input for TINUOD variable '" ++ name ++ "': '" ++ field ++ "' is not 'OO' or 'DILI'"
  | badCharacter name field =>
    "invalid input for LETRA variable '" ++ name ++ "': '" ++ field ++ "' is not a single character"
  | noInput => "no input available"
  | unexpectedInput line column =>
    "unexpected input at line " ++ toString line ++ ", column " ++ toString column

end Fault

/-- An error as it is reported: its kind and its message. -/
structure Report where
  kind : String
  message : String
deriving DecidableEq, Repr

namespace Report

/-- The line that tells the user about an error. -/
def line (r : Report) : String := "BisayaError: " ++ r.kind ++ ": " ++ r.message

/-- The two parts of an error between quotes. -/
def display (r : Report) : String := "Error(name=" ++ quoted r.kind ++ ", message=" ++ quoted r.message ++ ")"

end Report

def Fault.report (f : Fault) : Report := ⟨f.kind, f.message⟩

/-- Reasons why a run cannot go on that are not errors of the language. -/
inductive Defect where
  /-- A node of a kind that cannot be executed. -/
  | notStatement (kind : String)
  /-- A node of a kind that has no value. -/
  | notExpression (kind : String)
  /-- A tree that is not a program. -/
  | notProgram
  /-- A remainder of an infinite number. -/
  | infiniteDividend
deriving DecidableEq, Repr

/-- How a run fails. -/
inductive Failure where
  | fault (f : Fault)
  | defect (d : Defect)
deriving DecidableEq, Repr

end Binisaya
