import Pep10.Symbol.Store
import Pep10.Text.Numeral
import Pep10.Text.Quoted

/-!
# Operands

The operand of an instruction or a directive: a constant in one of its spellings, or a symbol.  An
operand stands for a word; the word of a symbol is looked up in the symbol table of the module that
the line belongs to.
-/

namespace Pep10

/-- An operand as it is written. -/
inductive Operand where
  /-- A character constant, quotes included. -/
  | char (text : String)
  /-- A decimal constant with a sign. -/
  | signed (value : Int16)
  | unsigned (value : UInt16)
  | hex (value : UInt16)
  /-- A string constant, quotes included. -/
  | string (text : String)
  | symbol (name : String)
  deriving DecidableEq, Repr, Inhabited

namespace Operand

/-- The word that a constant stands for.  A symbol is no constant and counts as zero. -/
def constant : Operand → UInt16
  | char text => Text.quotedValue text
  | signed value => value.toUInt16
  | unsigned value => value
  | hex value => value
  | string text => Text.quotedValue text
  | symbol _ => 0

/-- The word that an operand stands for.  A symbol without a value stands for zero. -/
def value (symbols : SymbolStore) (table : Nat) : Operand → UInt16
  | symbol name => (symbols.value? table name).getD 0
  | operand => operand.constant

/-- The spelling of an operand in source text. -/
def text : Operand → String
  | char text => text
  | signed value => Text.signedDecimal value.toInt
  | unsigned value => Text.decimal value.toNat
  | hex value => "0x" ++ Text.hex 4 value.toNat
  | string text => text
  | symbol name => name

/-- The name of a symbol operand. -/
def symbol? : Operand → Option String
  | symbol name => some name
  | _ => none

end Operand

end Pep10
