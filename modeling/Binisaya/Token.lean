import Binisaya.Operator
import Binisaya.VarType

/-! Tokens of the language. Literals carry what they denote, so that a token says all that the grammar and the
tree need to know. -/

namespace Binisaya

/-- The words that name the types of declared variables. -/
inductive TypeWord where
  | numero
  | letra
  | tinuod
  | tipik
deriving DecidableEq, Repr

def TypeWord.spelling : TypeWord → String
  | numero => "NUMERO"
  | letra => "LETRA"
  | tinuod => "TINUOD"
  | tipik => "TIPIK"

def TypeWord.all : List TypeWord := [.numero, .letra, .tinuod, .tipik]

def TypeWord.type : TypeWord → VarType
  | numero => .number
  | letra => .character
  | tinuod => .boolean
  | tipik => .real

inductive Token where
  | sugod
  | katapusan
  | mugna
  | ipakita
  | dawat
  | kung
  | kungDili
  | kungWala
  | samtang
  | alangSa
  | pundok
  | typeWord (t : TypeWord)
  | dili
  /-- An operator between two operands; two of them also stand before one. -/
  | operator (op : BinaryOp)
  | colon
  | comma
  | equals
  | leftParen
  | rightParen
  | leftBrace
  | rightBrace
  | lineEnd
  | number (x : Float)
  | text (s : String)
  | char (c : Char)
  | escape (c : Char)
  /-- The literal for a line break. -/
  | newline
  | ident (name : String)
deriving DecidableEq

/-- The words that are no names of variables when they stand alone. -/
def keywords : List (String × Token) :=
  [("SUGOD", .sugod), ("KATAPUSAN", .katapusan), ("MUGNA", .mugna), ("IPAKITA", .ipakita), ("DAWAT", .dawat),
    ("KUNG", .kung), ("SAMTANG", .samtang), ("PUNDOK", .pundok), ("DILI", .dili), ("UG", .operator .and),
    ("O", .operator .or)]

/-- Keywords of two words. -/
def phrases : List (String × String × Token) :=
  [("KUNG", "DILI", .kungDili), ("KUNG", "WALA", .kungWala), ("ALANG", "SA", .alangSa)]

/-- Tokens of two characters; they are tried before those of one. -/
def symbolPairs : List (Char × Char × Token) :=
  [('=', '=', .operator .eq), ('<', '>', .operator .ne), ('>', '=', .operator .ge), ('<', '=', .operator .le)]

/-- Tokens of one character. -/
def symbolChars : List (Char × Token) :=
  [('&', .operator .concat), ('>', .operator .gt), ('<', .operator .lt), ('+', .operator .add),
    ('-', .operator .sub), ('*', .operator .mul), ('/', .operator .div), ('%', .operator .rem), (':', .colon),
    (',', .comma), ('=', .equals), ('(', .leftParen), (')', .rightParen), ('{', .leftBrace),
    ('}', .rightBrace), ('$', .newline)]

end Binisaya
