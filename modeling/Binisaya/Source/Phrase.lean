import Binisaya.Text.Word

/-! Keywords at the start of a text. A keyword must end as a word; one of two words takes any number of blanks
and tabs between them, but at least one. -/

namespace Binisaya

/-- Tells that a character may stand between words without ending a line. -/
def isSpacing (c : Char) : Bool := c == ' ' || c == '\t'

/-- Tells that a text starts with a whole word. -/
def startsWithWord (word : String) (cs : List Char) : Bool :=
  ((word.toList.isPrefixOf? cs).map atWordEnd).getD false

/-- The text of two words with space between them at the start of a text. -/
def phraseText? (first second : String) (cs : List Char) : Option (List Char) :=
  match first.toList.isPrefixOf? cs with
  | some rest =>
    let space := rest.takeWhile isSpacing
    if !space.isEmpty && startsWithWord second (rest.dropWhile isSpacing) then
      some (first.toList ++ space ++ second.toList)
    else none
  | none => none

end Binisaya
