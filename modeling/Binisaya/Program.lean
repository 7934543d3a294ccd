import Binisaya.Source.Normal
import Binisaya.Surface.Grammar
import Binisaya.Token.Scan

/-! Programs from source text: the source is normalised, scanned and parsed. A source that is no program is
reported by the place in its normal form where reading had to stop. -/

namespace Binisaya

/-- The place of the first problem of a scanned text, given how many of its tokens are left there. Past the
last token that is the character where scanning stopped, or at the end of the text the last token. -/
def Scanned.problem (s : Scanned) (left : Nat) : Position :=
  match s.lexemes.drop (s.lexemes.length - left) with
  | lexeme :: _ => lexeme.start
  | [] => s.stuck.getD ((s.lexemes.getLast?.map Lexeme.start).getD .start)

/-- The statements of a scanned text. -/
def Scanned.statements (s : Scanned) : Except Position (List Stmt) :=
  match parseTokens (s.lexemes.map Lexeme.token) with
  | .error left => .error (s.problem left.length)
  | .ok body =>
    match s.stuck with
    | some p => .error p
    | none => .ok body

/-- The statements of a source. -/
def readStatements (source : List Char) : Except Fault (List Stmt) :=
  match (scan (normalize source)).statements with
  | .ok body => .ok body
  | .error p => .error (.unexpectedInput p.line p.column)

/-- The tree of the program that a source holds. -/
def readProgram (source : List Char) : Except Fault Node := (readStatements source).map programNode

end Binisaya
