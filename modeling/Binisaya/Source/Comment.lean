/-! Comments. Two hyphens start one that runs to the end of the line, unless they stand inside a quoted text
or between the brackets of an escape. -/

namespace Binisaya

/-- The quote that is open after a character outside quotes. -/
def openedBy (c : Char) : Option Char := if c = '"' ∨ c = '\'' then some c else none

/-- The quote that is still open after one more character inside quotes. -/
def leftOpen (quote c : Char) : Option Char := if c = quote then none else some quote

/-- The line before its comment, where a quote may be open at the start. A quote that nothing closes keeps
all that follows, and an escape keeps its three characters whatever the middle one is. -/
def codePartFrom : Option Char → List Char → List Char
  | _, [] => []
  | some quote, c :: cs => c :: codePartFrom (leftOpen quote c) cs
  | none, '[' :: c :: ']' :: cs => '[' :: c :: ']' :: codePartFrom none cs
  | none, '-' :: '-' :: _ => []
  | none, c :: cs => c :: codePartFrom (openedBy c) cs

/-- The line without its comment. -/
def codePart (line : List Char) : List Char := codePartFrom none line

end Binisaya
