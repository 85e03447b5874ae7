import Pep10.Line.Statement
import Pep10.Trace.Command

/-!
# Lines

A line of a module as the assembler keeps it: the statement with its label and its comment, the
address it was given, and the trace commands on it.  How many bytes a line takes and which bytes it
emits are told here; a macro call takes none itself, since its expansion consists of lines of
their own.
-/

namespace Pep10

/-- A line of a module. -/
structure Line where
  statement : Statement
  /-- The number of the line in its module, from zero. -/
  number : Nat
  /-- The symbol that the line declares. -/
  label : Option String := none
  comment : Option String := none
  address : Option UInt16 := none
  /-- Whether the line's bytes are part of the object code. -/
  emits : Bool := true
  trace : List Trace.Command := []
  deriving DecidableEq, Repr, Inhabited

/-- The two bytes of a word, the high one first. -/
def wordBytes (w : UInt16) : List UInt8 := [(w >>> 8).toUInt8, w.toUInt8]

namespace Statement

/-- The number of bytes that a statement takes. -/
def size (symbols : SymbolStore) (table : Nat) : Statement → UInt16
  | unary _ => 1
  | nonunary .. => 3
  | directive .addrss _ => 2
  | directive .word _ => 2
  | directive .byte _ => 1
  | directive .ascii (.string text) => UInt16.ofNat (Text.unquote text).length
  | directive .block operand => operand.value symbols table
  | align _ padding => padding
  | _ => 0

/-- The bytes that a statement stands for. -/
def bytes (symbols : SymbolStore) (table : Nat) : Statement → List UInt8
  | unary mnemonic => [mnemonic.opcode]
  | nonunary mnemonic mode operand =>
    mnemonic.specifier mode :: wordBytes (operand.value symbols table)
  | directive .addrss operand => wordBytes (operand.value symbols table)
  | directive .word operand => wordBytes (operand.value symbols table)
  | directive .byte operand => [(operand.value symbols table).toUInt8]
  | directive .ascii (.string text) => Text.unquote text
  | directive .block operand => List.replicate (operand.value symbols table).toNat 0
  | align _ padding => List.replicate padding.toNat 0
  | _ => []

end Statement

namespace Line

/-- The number of bytes that a line takes. -/
def size (symbols : SymbolStore) (table : Nat) (line : Line) : UInt16 :=
  line.statement.size symbols table

/-- The object code of a line. -/
def code (symbols : SymbolStore) (table : Nat) (line : Line) : List UInt8 :=
  if line.emits then line.statement.bytes symbols table else []

end Line

end Pep10
