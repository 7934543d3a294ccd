import Binisaya.Number.Decimal
import Binisaya.Source.Phrase
import Binisaya.Text.Digit
import Binisaya.Token

/-! Scanning tokens. At each place the blanks and tabs are skipped and the longest token is taken; a keyword is
one only as a whole word. Scanning stops at the first character that no token starts with. -/

namespace Binisaya

def isScriptDigit (c : Char) : Bool := (scriptDigit? c).isSome

/-- Tells that a character can start a name: an ASCII letter or the underscore. -/
def startsName (c : Char) : Bool := c.isAlpha || c == '_'

/-- Tells that a character can go on with a name. -/
def inName (c : Char) : Bool := c.isAlphanum || c == '_'

/-- The token that a whole word is: a keyword or else a name. -/
def wordToken (word : List Char) : Token :=
  (keywords.lookup (.ofList word)).getD (.ident (.ofList word))

/-- Scans a keyword of two words. -/
def scanPhrase? (cs : List Char) : Option (Token × List Char) :=
  phrases.findSome? fun (first, second, t) => (phraseText? first second cs).map (t, ·)

/-- Scans the word of a type. -/
def scanTypeWord? (cs : List Char) : Option (Token × List Char) :=
  (TypeWord.all.find? fun t => startsWithWord t.spelling cs).map fun t => (.typeWord t, t.spelling.toList)

/-- Scans a word that may be a keyword, a type or a name. -/
def scanWord (cs : List Char) : Token × List Char :=
  let word := cs.takeWhile inName
  ((scanTypeWord? cs).or (scanPhrase? cs)).getD (wordToken word, word)

/-- The number that digits of any script spell, with those after a point. -/
def numberToken (whole fraction : List Char) : Token :=
  .number ((Decimal.ofParts (whole.filterMap scriptDigit?) (fraction.filterMap scriptDigit?) 0).toFloat false)

/-- The digits after a point at the start of a text. -/
def fractionDigits : List Char → List Char
  | '.' :: cs => cs.takeWhile isScriptDigit
  | _ => []

/-- Scans a number: digits, and a point if digits follow it. -/
def scanNumber (cs : List Char) : Token × List Char :=
  let whole := cs.takeWhile isScriptDigit
  let fraction := fractionDigits (cs.dropWhile isScriptDigit)
  (numberToken whole fraction, if fraction.isEmpty then whole else whole ++ '.' :: fraction)

/-- Tells that a character can stand inside a text: it neither ends the text nor the line. -/
def inText (c : Char) : Bool := c != '"' && c != '\n'

/-- Scans a text, given what follows its opening quote; it ends on the same line. -/
def scanText? (cs : List Char) : Option (Token × List Char) :=
  let body := cs.takeWhile inText
  if (cs.dropWhile inText).head? = some '"' then some (.text (.ofList body), '"' :: body ++ ['"']) else none

/-- The line breaks at the start of a text, with carriage returns only in front of newlines. -/
def lineEnds : List Char → List Char
  | '\n' :: cs => '\n' :: lineEnds cs
  | '\r' :: '\n' :: cs => '\r' :: '\n' :: lineEnds cs
  | _ => []

/-- Scans a symbol of two characters. -/
def scanPair? : List Char → Option (Token × List Char)
  | a :: b :: _ => (symbolPairs.find? fun (x, y, _) => x = a ∧ y = b).map fun (_, _, t) => (t, [a, b])
  | _ => none

/-- Scans a symbol of one character. -/
def scanChar? : List Char → Option (Token × List Char)
  | a :: _ => (symbolChars.lookup a).map (·, [a])
  | [] => none

/-- Scans a symbol, of two characters if there is one. -/
def scanSymbol? (cs : List Char) : Option (Token × List Char) := (scanPair? cs).or (scanChar? cs)

/-- Scans the token at the start of a text and tells the part of the text that it is. -/
def scanToken? (cs : List Char) : Option (Token × List Char) :=
  match cs with
  | '\n' :: _ => some (.lineEnd, lineEnds cs)
  | '\r' :: '\n' :: _ => some (.lineEnd, lineEnds cs)
  | '"' :: rest => scanText? rest
  | '\'' :: c :: '\'' :: _ => if c = '\'' ∨ c = '\n' then none else some (.char c, ['\'', c, '\''])
  | '[' :: c :: ']' :: _ => if c = '\n' then none else some (.escape c, ['[', c, ']'])
  | c :: _ =>
    if startsName c then some (scanWord cs)
    else if isScriptDigit c then some (scanNumber cs)
    else scanSymbol? cs
  | [] => none

/-- A place in a text, counted from one. -/
structure Position where
  line : Nat
  column : Nat
deriving DecidableEq, Repr

def Position.start : Position := ⟨1, 1⟩

/-- The place after one more character. -/
def Position.next (p : Position) (c : Char) : Position :=
  if c = '\n' then ⟨p.line + 1, 1⟩ else ⟨p.line, p.column + 1⟩

/-- The place after some more characters. -/
def Position.after (p : Position) (cs : List Char) : Position := cs.foldl next p

/-- A token, the text it is written as and the place where that starts. -/
structure Lexeme where
  token : Token
  text : List Char
  start : Position
deriving DecidableEq

/-- The tokens of a text, and the place of the character where scanning stopped before the end. -/
structure Scanned where
  lexemes : List Lexeme
  stuck : Option Position
deriving DecidableEq

/-- Scans the tokens of a text that starts at a place; each token uses up fuel, and a text has no more tokens
than characters. -/
def scanFrom : Nat → Position → List Char → Scanned
  | 0, _, _ => ⟨[], none⟩
  | n + 1, p, cs =>
    let here := cs.dropWhile isSpacing
    let p := p.after (cs.takeWhile isSpacing)
    if here.isEmpty then ⟨[], none⟩
    else match scanToken? here with
      | none => ⟨[], some p⟩
      | some (t, text) =>
        let scanned := scanFrom n (p.after text) (here.drop text.length)
        { scanned with lexemes := ⟨t, text, p⟩ :: scanned.lexemes }

/-- The tokens of a text. -/
def scan (cs : List Char) : Scanned := scanFrom (cs.length + 1) .start cs

end Binisaya
