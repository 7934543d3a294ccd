import Binisaya.Json.Basic
import Binisaya.Number.Numeral
import Binisaya.Table

/-! Reading JSON. Beyond the standard the words `NaN`, `Infinity` and `-Infinity` are numbers, a number past the
range of doubles is an infinity, and of two fields with one name the later one wins. A whole number has a largest
number of digits. -/

namespace Binisaya

namespace Json

/-- Why a text cannot be read. -/
inductive Misreading where
  | malformed
  /-- A whole number with too many digits. -/
  | endlessNumber
deriving DecidableEq, Repr

/-- What is read at the start of a text, and the rest of the text. -/
abbrev Reading (α : Type) := Except Misreading (α × List Char)

/-- A reading that fails where the text is malformed. -/
def Reading.ofOption {α : Type} : Option (α × List Char) → Reading α
  | some found => .ok found
  | none => .error .malformed

/-- The most digits that a whole number can have. -/
def mostDigits : Nat := 4300

/-- White space between the parts of a text. -/
def isSpace (c : Char) : Bool := c == ' ' || c == '\t' || c == '\n' || c == '\r'

def skipSpace (cs : List Char) : List Char := cs.dropWhile isSpace

/-- The value of a digit in base sixteen. -/
def hexValue? (c : Char) : Option Nat :=
  if c.isDigit then some (c.toNat - '0'.toNat)
  else if 'a' ≤ c && c ≤ 'f' then some (c.toNat - 'a'.toNat + 10)
  else if 'A' ≤ c && c ≤ 'F' then some (c.toNat - 'A'.toNat + 10)
  else none

/-- The number of four digits in base sixteen. -/
def hexUnit? (a b c d : Char) : Option Nat :=
  match hexValue? a, hexValue? b, hexValue? c, hexValue? d with
  | some a, some b, some c, some d => some (((a * 16 + b) * 16 + c) * 16 + d)
  | _, _, _, _ => none

/-- The character that a letter after a backslash stands for. -/
def escaped? : Char → Option Char
  | '"' => some '"'
  | '\\' => some '\\'
  | '/' => some '/'
  | 'b' => some '\x08'
  | 'f' => some '\x0c'
  | 'n' => some '\n'
  | 'r' => some '\r'
  | 't' => some '\t'
  | _ => none

/-- The code units of a string after its opening quote, and what follows its closing one. Characters below the
blank must be escaped. -/
def readUnits : List Char → Option (List Nat × List Char)
  | [] => none
  | '"' :: cs => some ([], cs)
  | '\\' :: 'u' :: a :: b :: c :: d :: cs =>
    match hexUnit? a b c d, readUnits cs with
    | some u, some (us, rest) => some (u :: us, rest)
    | _, _ => none
  | '\\' :: e :: cs =>
    match escaped? e, readUnits cs with
    | some c, some (us, rest) => some (c.toNat :: us, rest)
    | _, _ => none
  | c :: cs =>
    if c.toNat < 0x20 then none
    else (readUnits cs).map fun (us, rest) => (c.toNat :: us, rest)

/-- The character of a code unit on its own; a lone surrogate is replaced. -/
def unitChar (u : Nat) : Char := if 0xD800 ≤ u && u < 0xE000 then '�' else .ofNat u

/-- The characters of code units: a high and a low surrogate are one character. -/
def joinUnits : List Nat → List Char
  | [] => []
  | [u] => [unitChar u]
  | u :: v :: us =>
    if 0xD800 ≤ u && u < 0xDC00 && 0xDC00 ≤ v && v < 0xE000 then
      .ofNat (0x10000 + (u - 0xD800) * 0x400 + (v - 0xDC00)) :: joinUnits us
    else unitChar u :: joinUnits (v :: us)

/-- Reads a string after its opening quote. -/
def readString (cs : List Char) : Option (String × List Char) :=
  (readUnits cs).map fun (us, rest) => (.ofList (joinUnits us), rest)

/-- The digits of a whole number at the start of a text: a zero alone, or digits that do not start with one. -/
def splitWhole : List Char → List Char × List Char
  | '0' :: cs => (['0'], cs)
  | cs => (cs.takeWhile Char.isDigit, cs.dropWhile Char.isDigit)

/-- A point and at least one digit after it, at the start of a text; else nothing is taken. -/
def takeFraction (cs : List Char) : List Char × List Char :=
  let (fraction, rest) := splitFraction cs
  if fraction.isEmpty then ([], cs) else (fraction, rest)

/-- A power of ten with at least one digit at the start of a text; else nothing is taken. -/
def takePower : List Char → Option Int × List Char
  | [] => (none, [])
  | c :: cs =>
    let (negative, rest) := splitSign cs
    let digits := rest.takeWhile Char.isDigit
    if (c = 'e' ∨ c = 'E') ∧ !digits.isEmpty then
      let n : Int := ofDigitValues (digits.map digitValue)
      (some (if negative then -n else n), rest.dropWhile Char.isDigit)
    else (none, c :: cs)

/-- Reads a number without its sign. It is whole if it has neither a point nor a power. -/
def readUnsigned (negative : Bool) (cs : List Char) : Reading Json :=
  let (whole, rest) := splitWhole cs
  let (fraction, rest) := takeFraction rest
  let (power, rest) := takePower rest
  if whole.isEmpty then .error .malformed
  else if fraction.isEmpty && power.isNone then
    if mostDigits < whole.length then .error .endlessNumber
    else
      let n : Int := ofDigitValues (whole.map digitValue)
      .ok (int (if negative then -n else n), rest)
  else
    let d := Decimal.ofParts (whole.map digitValue) (fraction.map digitValue) (power.getD 0)
    .ok (float (d.toFloat negative), rest)

/-- The values that are words. -/
def wordValues : List (String × Json) :=
  [("null", null), ("true", bool true), ("false", bool false), ("NaN", float notANumber),
    ("Infinity", float (infinity false)), ("-Infinity", float (infinity true))]

/-- Reads a value that has no parts. -/
def readScalar (cs : List Char) : Reading Json :=
  match wordValues.findSome? fun (word, j) => (word.toList.isPrefixOf? cs).map (j, ·) with
  | some found => .ok found
  | none =>
    match cs with
    | '"' :: rest => .ofOption ((readString rest).map fun (s, rest) => (string s, rest))
    | '-' :: rest => readUnsigned true rest
    | _ => readUnsigned false cs

/-- Reads the values of an array up to its end, at least one; the number bounds how many. -/
def readItems (value : List Char → Reading Json) : Nat → List Char → Reading (List Json)
  | 0, _ => .error .malformed
  | n + 1, cs =>
    match value (skipSpace cs) with
    | .error e => .error e
    | .ok (j, rest) =>
      match skipSpace rest with
      | ',' :: rest => (readItems value n rest).map fun (js, rest) => (j :: js, rest)
      | ']' :: rest => .ok ([j], rest)
      | _ => .error .malformed

/-- Reads a name and the colon after it. -/
def readKey (cs : List Char) : Option (String × List Char) :=
  match skipSpace cs with
  | '"' :: rest =>
    match readString rest with
    | some (key, rest) =>
      match skipSpace rest with
      | ':' :: rest => some (key, rest)
      | _ => none
    | none => none
  | _ => none

/-- Reads the fields of an object up to its end, at least one; the number bounds how many. -/
def readFields (value : List Char → Reading Json) : Nat → List Char → Reading (List (String × Json))
  | 0, _ => .error .malformed
  | n + 1, cs =>
    match readKey cs with
    | none => .error .malformed
    | some (key, rest) =>
      match value (skipSpace rest) with
      | .error e => .error e
      | .ok (j, rest) =>
        match skipSpace rest with
        | ',' :: rest => (readFields value n rest).map fun (fs, rest) => ((key, j) :: fs, rest)
        | '}' :: rest => .ok ([(key, j)], rest)
        | _ => .error .malformed

/-- The fields of an object, where a later one replaces an earlier one of the same name. -/
def uniqueFields (fields : List (String × Json)) : List (String × Json) :=
  fields.foldl (fun fs (key, j) => setEntry key j fs) []

/-- Reads a value that has no more parts in one place than the first number says and is nested no deeper than
the second. -/
def readValue (bound : Nat) : Nat → List Char → Reading Json
  | 0, _ => .error .malformed
  | n + 1, '[' :: cs =>
    match skipSpace cs with
    | ']' :: rest => .ok (array [], rest)
    | cs => (readItems (readValue bound n) bound cs).map fun (js, rest) => (array js, rest)
  | n + 1, '{' :: cs =>
    match skipSpace cs with
    | '}' :: rest => .ok (object [], rest)
    | cs => (readFields (readValue bound n) bound cs).map fun (fs, rest) => (object (uniqueFields fs), rest)
  | _ + 1, cs => readScalar cs

/-- Reads a text that is one JSON value. -/
def parse (cs : List Char) : Except Misreading Json :=
  match readValue (cs.length + 1) (cs.length + 1) (skipSpace cs) with
  | .ok (j, rest) => if (skipSpace rest).isEmpty then .ok j else .error .malformed
  | .error e => .error e

end Json

end Binisaya
