import Pep10.Line.Basic
import Pep10.Text.Column

/-!
# Lines as source text

A line is written as it would be written by hand, in columns for the label, the operation, the
operand and the comment, with numbers and names in their normal spelling.
-/

namespace Pep10

/-- The width of the column for labels. -/
def labelWidth : Nat := 9

/-- The width of the column for operations. -/
def operationWidth : Nat := 8

/-- The width of the column for operands. -/
def operandWidth : Nat := 12

namespace Statement

/-- The text in the column for operations. -/
def operationText : Statement → String
  | unary mnemonic => mnemonic.name
  | nonunary mnemonic _ _ => mnemonic.name
  | call name args _ => "@" ++ name ++ "(" ++ ",".intercalate args ++ ")"
  | s => s.spelling?.getD ""

/-- The text in the column for operands.  A mode is written where it is required or differs from
the default, and the hexadecimal operand of a `.BYTE` has two digits. -/
def operandText : Statement → String
  | nonunary mnemonic mode operand =>
    if mnemonic.modeRequired || mode == .indexed then operand.text ++ "," ++ mode.name
    else operand.text
  | directive .byte (.hex value) => "0x" ++ Text.hex 2 value.toNat
  | s => (s.operand?.map Operand.text).getD ""

end Statement

namespace Line

/-- The text in the column for labels. -/
def labelText (line : Line) : String :=
  match line.label with
  | some name => name ++ ":"
  | none => ""

/-- A line as source text. -/
def source (line : Line) : String :=
  let comment := line.comment.getD ""
  match line.statement with
  | .blank => ""
  | .comment => comment
  | statement =>
    Text.trimLine <|
      Text.padRight labelWidth line.labelText ++
        Text.padRight operationWidth statement.operationText ++
        Text.padRight operandWidth statement.operandText ++ comment

end Line

end Pep10
