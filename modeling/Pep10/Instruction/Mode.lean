import Pep10.Text.Ascii

/-!
# Addressing modes

The eight ways in which an instruction of the Pep/10 machine finds its operand, with their source
names and their codes inside an instruction specifier.
-/

namespace Pep10

/-- An addressing mode. -/
inductive Mode where
  | immediate
  | direct
  | indirect
  | stack
  | stackDeferred
  | indexed
  | stackIndexed
  | stackDeferredIndexed
  deriving DecidableEq, Repr, Inhabited

namespace Mode

/-- All modes in the order of their codes. -/
def all : List Mode :=
  [immediate, direct, indirect, stack, stackDeferred, indexed, stackIndexed, stackDeferredIndexed]

/-- The name by which source text asks for a mode. -/
def name : Mode → String
  | immediate => "i"
  | direct => "d"
  | indirect => "n"
  | stack => "s"
  | stackDeferred => "sf"
  | indexed => "x"
  | stackIndexed => "sx"
  | stackDeferredIndexed => "sfx"

/-- The mode with the given name, in either case. -/
def ofName? (name : String) : Option Mode := all.find? fun mode => Text.sameName mode.name name

/-- The code of a mode in a three-bit mode field. -/
def code : Mode → UInt8
  | immediate => 0
  | direct => 1
  | indirect => 2
  | stack => 3
  | stackDeferred => 4
  | indexed => 5
  | stackIndexed => 6
  | stackDeferredIndexed => 7

/-- The code of a mode in a one-bit mode field, which tells indexed from immediate. -/
def shortCode : Mode → UInt8
  | indexed => 1
  | _ => 0

/-- The bit that stands for a mode in a set of modes. -/
def bit (mode : Mode) : UInt8 := 1 <<< mode.code

end Mode

end Pep10
