import Binisaya.Source.Comment
import Binisaya.Source.Phrase
import Binisaya.Text.Lines

/-! The normal form of a source: one statement a line. Comments, blank lines and the white space around lines
are gone, and a line that goes on with the statement before it is joined to that statement's line by one
blank. Positions in error messages count lines and columns of this form. -/

namespace Binisaya

/-- Tells that a line belongs to the statement before it: it starts a block or another branch. -/
def continuesStatement (line : List Char) : Bool :=
  startsWithWord "PUNDOK" line || line.head? == some '{' ||
    (phraseText? "KUNG" "WALA" line).isSome || (phraseText? "KUNG" "DILI" line).isSome

/-- Joins the lines after an open one to it as long as they continue it, and so on with the next. -/
def gatherLines (current : List Char) : List (List Char) → List (List Char)
  | [] => [current]
  | line :: lines =>
    if continuesStatement line then gatherLines (current ++ ' ' :: line) lines
    else current :: gatherLines line lines

/-- One line a statement. The first line never continues another. -/
def joinContinued : List (List Char) → List (List Char)
  | [] => []
  | line :: lines => gatherLines line lines

/-- The lines of a source that hold more than white space and comments, trimmed. -/
def codeLines (source : List Char) : List (List Char) :=
  ((splitLines source).map fun line => trim (codePart line)).filter (!·.isEmpty)

/-- The normal form of a source. Every line ends in a newline, and a source without code is one empty line. -/
def normalize (source : List Char) : List Char :=
  List.intercalate ['\n'] (joinContinued (codeLines source)) ++ ['\n']

end Binisaya
