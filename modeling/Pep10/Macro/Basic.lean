import Pep10.Text.Numeral
import Pep10.Text.Split

/-!
# Macros

A macro is a text whose first line is a header, an at sign with the macro's name and the number
of its arguments; the lines below are its body.  A system call of an operating system is offered
to programs as a macro with a fixed body.
-/

namespace Pep10

/-- Where a macro comes from. -/
inductive MacroKind where
  | core
  | system
  | user
  deriving DecidableEq, Repr

/-- A named body of source lines. -/
structure Macro where
  name : String
  arity : Nat
  kind : MacroKind
  /-- The whole text, header included. -/
  text : String
  deriving DecidableEq, Repr

/-- The most arguments that a header can ask for. -/
def maxArity : Nat := 255

namespace Macro

/-- The text below the header. -/
def body (m : Macro) : String := String.ofList (Text.afterFirstLine m.text.toList)

/-- Reads the words of a header: a name and a number of arguments. -/
def headerOfWords : List (List Char) → Option (String × Nat)
  | [name, count] =>
    if Text.isIdentifier name && count.all Char.isDigit && Text.valueOf 10 count ≤ maxArity then
      some (String.ofList name, Text.valueOf 10 count)
    else none
  | _ => none

/-- The name and the number of arguments in the header of a macro's text. -/
def header? (text : String) : Option (String × Nat) :=
  match Text.trim (text.toList.takeWhile (· != '\n')) with
  | '@' :: rest => headerOfWords (Text.words rest)
  | _ => none

end Macro

/-- The two forms of a system call. -/
inductive SystemCall where
  /-- A call without an operand. -/
  | unary
  /-- A call with an operand and an addressing mode. -/
  | nonunary
  deriving DecidableEq, Repr

/-- The text of the macro that makes a system call. -/
def SystemCall.text : SystemCall → String → String
  | unary, name => "@" ++ name ++ " 0\nLDWT " ++ name ++ ", i\nUSCALL\n.END\n"
  | nonunary, name => "@" ++ name ++ " 2\nLDWT " ++ name ++ ", i\nSCALL $1, $2\n.END\n"

end Pep10
