import Pep10.Text.Blank
import Pep10.Text.Numeral

/-!
# Placeholders

In the body of a macro a dollar sign and a number stand for an argument, the first one having the
number one.  A placeholder without a matching argument stays as it is.
-/

namespace Pep10.Placeholder

/-- What a placeholder with the given digits stands for. -/
def expansion (args : List String) (digits : List Char) : List Char :=
  match Text.valueOf 10 digits with
  | 0 => '$' :: digits
  | k + 1 =>
    match args[k]? with
    | some arg => arg.toList
    | none => '$' :: digits

/-- Text with its placeholders replaced. -/
def expand (args : List String) (s : List Char) : List Char :=
  match s with
  | [] => []
  | c :: s' =>
    if c == '$' then
      have := Nat.lt_succ_of_le (Text.length_dropWhile_le Char.isDigit s')
      expansion args (s'.takeWhile Char.isDigit) ++ expand args (s'.dropWhile Char.isDigit)
    else c :: expand args s'
termination_by s.length
decreasing_by
  · assumption
  · exact Nat.lt_succ_self _

/-- A source line with its placeholders replaced. -/
def substitute (args : List String) (line : String) : String :=
  String.ofList (expand args line.toList)

/-- The first placeholder in a text: a dollar sign with a number behind it. -/
def first? : List Char → Option (List Char)
  | [] => none
  | c :: s =>
    if c == '$' && s.head?.any Char.isDigit then some (c :: s.takeWhile Char.isDigit)
    else first? s

end Pep10.Placeholder
