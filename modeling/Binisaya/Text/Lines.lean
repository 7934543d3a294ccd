import Binisaya.Text.Blank

/-! Texts as lines: the lines of a source file, which end at any line break, and the lines of an input, which
end at a newline only. -/

namespace Binisaya

/-- The lines of a text without their line breaks. A carriage return and the newline after it are one break,
and no empty line follows the last break. -/
def splitLines : List Char → List (List Char)
  | [] => []
  | '\r' :: '\n' :: cs => [] :: splitLines cs
  | c :: cs =>
    if isLineBreak c then [] :: splitLines cs
    else match splitLines cs with
      | [] => [[c]]
      | line :: lines => (c :: line) :: lines

/-- The text with every carriage return, alone or before a newline, made a newline. -/
def unifyNewlines : List Char → List Char
  | [] => []
  | '\r' :: '\n' :: cs => '\n' :: unifyNewlines cs
  | '\r' :: cs => '\n' :: unifyNewlines cs
  | c :: cs => c :: unifyNewlines cs

/-- The first line of an input, without the carriage returns and newlines at its end, and what is left after
it; nothing once the input is used up. -/
def takeLine? : List Char → Option (List Char × List Char)
  | [] => none
  | cs => some (dropTrailing (fun c => c == '\r' || c == '\n') (cs.takeWhile (· != '\n')),
      (cs.dropWhile (· != '\n')).drop 1)

end Binisaya
