import Binisaya.Fault
import Binisaya.Number.Conversion
import Binisaya.Text.Blank
import Binisaya.Text.Pieces
import Binisaya.VarType

/-! Input fields. A line of input is divided at its commas, and each field is read as the declared type of its
variable asks. -/

namespace Binisaya

/-- The fields of a line, trimmed. Of a line with commas the empty pieces at the end are no fields, but pieces
of blanks are. -/
def lineFields (line : List Char) : List (List Char) :=
  if line.contains ',' then (dropTrailing List.isEmpty (pieces ',' line)).map trim else [trim line]

/-- The letters that may follow a number. -/
def isNumberSuffix (c : Char) : Bool := c == 'f' || c == 'F' || c == 'd' || c == 'D'

/-- The text without one letter that may follow a number. -/
def dropSuffix (cs : List Char) : List Char :=
  match cs.reverse with
  | c :: rest => if isNumberSuffix c then rest.reverse else cs
  | [] => []

/-- What is said about a text that is no number. -/
def numberComplaint (text : String) : String := "not a number: " ++ quoted text

/-- What is said about a text that cannot be converted. -/
def conversionComplaint (text : String) : String := "could not convert string to float: " ++ quoted text

/-- Tells that a text has the form of a number as a user may type it: an optional sign, a numeral or one of two
words, and perhaps a letter after it. -/
def hasNumberForm (cs : List Char) : Bool :=
  let body := dropSuffix (splitSign cs).2
  body = "NaN".toList || body = "Infinity".toList || (readDecimal? body).isSome

/-- Reads a number in steps: its form is looked at, all letters that may follow a number are struck off its end,
and what is left is converted. Both the first and the last step may complain. -/
def parseNumber (cs : List Char) : Except String Float :=
  if hasNumberForm cs then
    let bare := dropTrailing isNumberSuffix cs
    (convert? bare).elim (.error (conversionComplaint (.ofList bare))) .ok
  else .error (numberComplaint (.ofList cs))

/-- The capital of a small letter. The `i` without a dot has the same capital as the one with it. -/
def capital (c : Char) : Char := if c = 'ı' then 'I' else c.toUpper

/-- Reads a boolean, in small or capital letters. -/
def readBoolean? (cs : List Char) : Option Value :=
  if cs.map capital = "OO".toList then some (.ofBool true)
  else if cs.map capital = "DILI".toList then some (.ofBool false)
  else none

/-- Reads a field for a variable. Fields of fractional and of untyped variables stay texts. -/
def fieldValue (name : String) (field : List Char) (type : Option VarType) : Except Fault Value :=
  let text := String.ofList field
  if type = some .number then
    match parseNumber field with
    | .ok x => .ok (.number x)
    | .error _ => .error (.badNumber name text)
  else if type = some .boolean then
    match readBoolean? field with
    | some v => .ok v
    | none => .error (.badBoolean name text)
  else if type = some .character then
    match field with
    | [_] => .ok (.char text)
    | _ => .error (.badCharacter name text)
  else .ok (.text text)

/-- Reads the fields of a line, each for its variable; the first one that does not fit is reported. -/
def fieldValues (typeOf : String → Option VarType) :
    List String → List (List Char) → Except Fault (List (String × Value))
  | name :: names, field :: fields => do
    let v ← fieldValue name field (typeOf name)
    let rest ← fieldValues typeOf names fields
    return (name, v) :: rest
  | _, _ => .ok []

/-- Reads a line of input for variables. There must be as many fields as variables. -/
def lineValues (typeOf : String → Option VarType) (names : List String) (line : List Char) :
    Except Fault (List (String × Value)) :=
  let fields := lineFields line
  if fields.length = names.length then fieldValues typeOf names fields
  else .error (.fieldCount names.length fields.length)

end Binisaya
