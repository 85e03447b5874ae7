import Pep10.Instruction.Mnemonic
import Pep10.Line.Operand

/-!
# Statements

What a source line asks for: an instruction, a directive, a macro call, or nothing.
-/

namespace Pep10

/-- The directives that take one operand and nothing else. -/
inductive Directive where
  | addrss
  | ascii
  | block
  | burn
  | byte
  | equate
  | word
  | publish
  | scall
  | uscall
  deriving DecidableEq, Repr

/-- The spelling of a directive. -/
def Directive.spelling : Directive → String
  | addrss => ".ADDRSS"
  | ascii => ".ASCII"
  | block => ".BLOCK"
  | burn => ".BURN"
  | byte => ".BYTE"
  | equate => ".EQUATE"
  | word => ".WORD"
  | publish => ".EXPORT"
  | scall => ".SCALL"
  | uscall => ".USCALL"

/-- What a source line asks for. -/
inductive Statement where
  | unary (mnemonic : Mnemonic)
  | nonunary (mnemonic : Mnemonic) (mode : Mode) (operand : Operand)
  | directive (directive : Directive) (operand : Operand)
  /-- Fills up to a multiple of the operand; how many bytes that takes depends on the address. -/
  | align (operand : Operand) (padding : UInt16)
  /-- The end of the module. -/
  | endMark
  | comment
  | blank
  /-- The call of a macro, bound to the instance that it expands to. -/
  | call (name : String) (args : List String) (target : Nat)
  deriving DecidableEq, Repr, Inhabited

namespace Statement

/-- The spelling of a directive's name. -/
def spelling? : Statement → Option String
  | directive d _ => some d.spelling
  | align .. => some ".ALIGN"
  | endMark => some ".END"
  | _ => none

/-- Whether a statement has an address.  Comments and blank lines have none. -/
def isAddressable : Statement → Bool
  | comment | blank => false
  | _ => true

/-- The operand of a statement. -/
def operand? : Statement → Option Operand
  | nonunary _ _ operand => some operand
  | directive _ operand => some operand
  | align operand _ => some operand
  | _ => none

/-- The instance that a macro call expands to. -/
def target? : Statement → Option Nat
  | call _ _ target => some target
  | _ => none

/-- Whether the statement is a `.BURN`. -/
def isBurn : Statement → Bool
  | directive .burn _ => true
  | _ => false

/-- Whether the statement is an `.EQUATE`. -/
def isEquate : Statement → Bool
  | directive .equate _ => true
  | _ => false

end Statement

end Pep10
