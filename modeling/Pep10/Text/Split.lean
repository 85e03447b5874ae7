import Pep10.Text.Blank

/-!
# Splitting text

Text is cut at separators into fields, at blanks into words, and at line feeds into lines.  A
carriage return directly before a line feed belongs to the line end; a final line feed ends the
last line and does not begin another one.
-/

namespace Pep10.Text

/-- The fields between the characters that satisfy `p`.  There is one more field than there are
such characters, so the result is never empty. -/
def fields (p : Char → Bool) : List Char → List (List Char)
  | [] => [[]]
  | c :: s =>
    if p c then [] :: fields p s
    else
      match fields p s with
      | [] => [[c]]
      | field :: rest => (c :: field) :: rest

/-- The nonempty fields between blanks. -/
def words (s : List Char) : List (List Char) :=
  (fields isBlank s).filter fun word => !word.isEmpty

/-- A line without the carriage return that precedes its line feed. -/
def dropReturn (line : List Char) : List Char :=
  if line.getLast? = some '\r' then line.dropLast else line

/-- The lines of a text, from the fields between its line feeds: all but the last field were
ended by a line feed, and the last one is a line only if it holds something. -/
def linesOfFields : List (List Char) → List (List Char)
  | [] => []
  | [last] => if last.isEmpty then [] else [last]
  | field :: rest => dropReturn field :: linesOfFields rest

/-- The lines of a text. -/
def lines (s : String) : List String :=
  (linesOfFields (fields (· == '\n') s.toList)).map String.ofList

/-- What follows the first line feed of a text, if there is one. -/
def afterFirstLine (s : List Char) : List Char := (s.dropWhile (· != '\n')).drop 1

end Pep10.Text
