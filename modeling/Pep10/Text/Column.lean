import Pep10.Text.Blank

/-!
# Columns

Listings are set in columns of fixed width.  A width counts characters; text that is too wide for
its column pushes the next column to the right.
-/

namespace Pep10.Text

/-- Text filled up with spaces on the right to the given number of characters. -/
def padRight (width : Nat) (s : String) : String :=
  s ++ String.ofList (List.replicate (width - s.length) ' ')

/-- A line without trailing blanks. -/
def trimLine (s : String) : String := String.ofList (trimEnd s.toList)

end Pep10.Text
