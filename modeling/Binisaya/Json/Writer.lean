import Binisaya.Json.Basic
import Binisaya.Number.Style
import Binisaya.Text.Quoted

/-! Writing JSON, one value or field a line and two blanks for each level of nesting. Only quotes, backslashes
and the characters below the blank are escaped. -/

namespace Binisaya

namespace Json

/-- A character inside a string. -/
def writeChar (c : Char) : List Char :=
  match c with
  | '"' => ['\\', '"']
  | '\\' => ['\\', '\\']
  | '\n' => ['\\', 'n']
  | '\r' => ['\\', 'r']
  | '\t' => ['\\', 't']
  | '\x08' => ['\\', 'b']
  | '\x0c' => ['\\', 'f']
  | c => if c.toNat < 0x20 then '\\' :: 'u' :: hexDigits 4 c.toNat else [c]

def writeString (s : String) : List Char := '"' :: s.toList.flatMap writeChar ++ ['"']

def writeInt (n : Int) : List Char := (if n < 0 then ['-'] else []) ++ digitChars n.natAbs

/-- A new line at a level of nesting. -/
def writeBreak (level : Nat) : List Char := '\n' :: List.replicate (2 * level) ' '

mutual

/-- The text of a value whose lines stand at a level of nesting. -/
def writeAt (level : Nat) : Json → List Char
  | null => "null".toList
  | bool true => "true".toList
  | bool false => "false".toList
  | int n => writeInt n
  | float x => NumberStyle.stored.writeChars x
  | string s => writeString s
  | array [] => ['[', ']']
  | array (j :: js) =>
    '[' :: writeBreak (level + 1) ++ writeAt (level + 1) j ++ writeItems (level + 1) js ++ writeBreak level ++ [']']
  | object [] => ['{', '}']
  | object ((k, j) :: fs) =>
    '{' :: writeBreak (level + 1) ++ writeString k ++ ':' :: ' ' :: writeAt (level + 1) j ++
      writeFields (level + 1) fs ++ writeBreak level ++ ['}']

/-- The values of an array after the first. -/
def writeItems (level : Nat) : List Json → List Char
  | [] => []
  | j :: js => ',' :: writeBreak level ++ writeAt level j ++ writeItems level js

/-- The fields of an object after the first. -/
def writeFields (level : Nat) : List (String × Json) → List Char
  | [] => []
  | (k, j) :: fs => ',' :: writeBreak level ++ writeString k ++ ':' :: ' ' :: writeAt level j ++ writeFields level fs

end

/-- The text of a value. -/
def write (j : Json) : List Char := writeAt 0 j

end Json

end Binisaya
