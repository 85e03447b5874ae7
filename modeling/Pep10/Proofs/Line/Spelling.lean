import Pep10.Line.Source
import Pep10.Proofs.Line.CallFree

/-!
# The tokens of a line as source text

A line as source text is set in columns, which may leave no blank between a label, an operation, an
operand and a comment that fill them.  Still the lexer finds the parts again: the text of a line
becomes the tokens of its parts (`tokenize_source`).
-/

namespace Pep10

open Lexer (Spells Written IsRemark Proper scanLine endsArgument)

/-! ### The tokens of a line -/

namespace Operand

/-- The kind of token that spells an operand. -/
def kind : Operand → Token.Kind
  | char _ => .charConstant
  | signed _ => .decimal
  | unsigned _ => .decimal
  | hex _ => .hexadecimal
  | string _ => .stringConstant
  | symbol _ => .identifier

/-- The token that spells an operand. -/
def token (operand : Operand) : Token := ⟨operand.kind, operand.text⟩

/-- The token that spells the operand of a directive; a `.BYTE` writes two hexadecimal digits. -/
def tokenFor (d : Directive) (operand : Operand) : Token :=
  match d, operand with
  | .byte, .hex value => ⟨.hexadecimal, "0x" ++ Text.hex 2 value.toNat⟩
  | _, operand => operand.token

end Operand

/-- The name of a directive, without the point. -/
def Directive.name (d : Directive) : String := String.ofList (d.spelling.toList.drop 1)

namespace Statement

/-- The token that spells the operation of a statement. -/
def operationToken : Statement → Token
  | unary mnemonic => ⟨.identifier, mnemonic.name⟩
  | nonunary mnemonic _ _ => ⟨.identifier, mnemonic.name⟩
  | directive d _ => ⟨.directive, d.name⟩
  | align .. => ⟨.directive, "ALIGN"⟩
  | endMark => ⟨.directive, "END"⟩
  | _ => Token.lineEnd

/-- The tokens that spell the operand of a statement and its addressing mode. -/
def operandTokens : Statement → List Token
  | nonunary mnemonic mode operand =>
    operand.token ::
      if mnemonic.modeRequired || mode == .indexed then [⟨.mode, mode.name⟩] else []
  | directive d operand => [operand.tokenFor d]
  | align operand _ => [operand.token]
  | _ => []

end Statement

/-- The tokens that spell a line. -/
def Line.tokens (line : Line) : List Token :=
  match line.statement with
  | .blank => [Token.lineEnd]
  | .comment => [⟨.comment, line.comment.getD ""⟩, Token.lineEnd]
  | statement =>
    line.label.toList.map (Token.mk .label) ++ statement.operationToken ::
      (statement.operandTokens ++ (line.comment.toList.map (Token.mk .comment) ++ [Token.lineEnd]))

/-! ### Numbers are written -/

section Operands

variable {operand : Operand} {d : Directive} {tail : List Char}

lemma written_signed (value : Int16) : Written (Operand.signed value).token where
  spells := Lexer.spells_signedDecimal _
  newline_not_mem := by
    change '\n' ∉ (Text.signedDecimal value.toInt).toList
    unfold Text.signedDecimal
    split
    next =>
      rw [String.toList_ofList, List.mem_cons, not_or]
      exact ⟨by decide, Text.newline_not_mem_of_isNameRest Lexer.isNameRest_of_mem_decimal⟩
    next =>
      rw [Text.decimal, String.toList_ofList]
      exact Text.newline_not_mem_of_isNameRest Lexer.isNameRest_of_mem_decimal

lemma written_unsigned (value : UInt16) : Written (Operand.unsigned value).token where
  spells := Lexer.spells_decimal _
  newline_not_mem := by
    change '\n' ∉ (Text.decimal value.toNat).toList
    rw [Text.decimal, String.toList_ofList]
    exact Text.newline_not_mem_of_isNameRest Lexer.isNameRest_of_mem_decimal

lemma written_hex (width : Nat) (value : UInt16) :
    Written ⟨.hexadecimal, "0x" ++ Text.hex width value.toNat⟩ where
  spells := Lexer.spells_hex _ _
  newline_not_mem := by
    rw [Lexer.toList_hex, List.mem_cons, List.mem_cons, not_or, not_or]
    exact ⟨by decide, by decide, Text.newline_not_mem_of_isNameRest fun c hc =>
      Lexer.isNameRest_of_isHexDigit (Text.isHexDigit_of_mem_hexDigits hc)⟩

lemma written_tokenFor (d : Directive) (h : Written operand.token) : Written (operand.tokenFor d) := by
  unfold Operand.tokenFor
  split
  next => exact written_hex 2 _
  next => exact h

/-! ### The columns of a line -/

lemma operandText_directive (d : Directive) (operand : Operand) :
    (Statement.directive d operand).operandText = (operand.tokenFor d).text := by
  unfold Statement.operandText Operand.tokenFor
  cases d <;> first | rfl | (cases operand <;> rfl)

/-- The column for operands spells the operand and the mode. -/
lemma scanLine_operandText {s : Statement} (hs : s.target? = none)
    (h : ∀ operand, s.operand? = some operand → Written operand.token)
    (htail : tail.head?.all endsArgument = true) :
    scanLine (s.operandText.toList ++ tail) = (scanLine tail).map (s.operandTokens ++ ·) := by
  have hnone : scanLine tail = (scanLine tail).map ([] ++ ·) := by
    cases scanLine tail <;> rfl
  cases s with
  | nonunary mnemonic mode operand =>
    have hspells : Spells operand.text.toList operand.token := (h operand rfl).spells
    simp only [Statement.operandText, Statement.operandTokens]
    split
    next =>
      have happend : (operand.text ++ "," ++ mode.name).toList ++ tail =
          operand.text.toList ++ (',' :: mode.name.toList ++ tail) := by simp
      rw [happend, hspells.scanLine rfl, (Lexer.spells_mode mode).scanLine htail]
      cases scanLine tail <;> rfl
    next =>
      rw [hspells.scanLine htail]
      rfl
  | directive d operand =>
    rw [operandText_directive, (written_tokenFor d (h operand rfl)).spells.scanLine htail]
    rfl
  | align operand padding =>
    have htext : (Statement.align operand padding).operandText = operand.token.text := rfl
    rw [htext, (h operand rfl).spells.scanLine htail]
    rfl
  | call name args target => cases hs
  | unary mnemonic => exact hnone
  | endMark => exact hnone
  | comment => exact hnone
  | blank => exact hnone

lemma mem_mnemonics (m : Mnemonic) : m ∈ Mnemonic.all := by
  cases m <;> decide

lemma isIdentifier_mnemonicName (m : Mnemonic) :
    Text.isIdentifier m.name.toList = true ∧ m.name.length < operationWidth := by
  have hall : ∀ m ∈ Mnemonic.all, Text.isIdentifier m.name.toList = true ∧ m.name.length < operationWidth := by
    decide +kernel
  exact hall m (mem_mnemonics m)

/-- A point and the name behind it spell a directive. -/
lemma spells_point {text name : String} (h : text.toList = '.' :: name.toList ∧
    name.toList.head?.any Char.isAlpha = true ∧ Text.isIdentifier name.toList = true) :
    Spells text.toList ⟨.directive, name⟩ := by
  rw [h.1]
  exact Lexer.spells_directive h.2.1 (Text.isNameRest_of_mem h.2.2)

/-- The column for operands has no line feed. -/
lemma newline_not_mem_operandText {s : Statement} (hs : s.target? = none)
    (h : ∀ operand, s.operand? = some operand → Written operand.token) : '\n' ∉ s.operandText.toList := by
  cases s with
  | nonunary mnemonic mode operand =>
    have hoperand : '\n' ∉ operand.text.toList := (h operand rfl).newline_not_mem
    have hmode : '\n' ∉ mode.name.toList :=
      Text.newline_not_mem_of_isNameRest (Lexer.isNameRest_of_modeName (Lexer.map_toLower_modeName mode))
    simp only [Statement.operandText]
    split
    · simp [hoperand, hmode]
    · exact hoperand
  | directive d operand =>
    rw [operandText_directive]
    exact (written_tokenFor d (h operand rfl)).newline_not_mem
  | align operand padding => exact (h operand rfl).newline_not_mem
  | call name args target => cases hs
  | _ => exact List.not_mem_nil

/-- The column for operations spells the operation, and ends with a blank. -/
lemma spells_operationText {s : Statement} (hs : s.target? = none) (haddressable : s.isAddressable = true) :
    Spells s.operationText.toList s.operationToken ∧ '\n' ∉ s.operationText.toList ∧
      s.operationText.length < operationWidth := by
  have hmnemonic : ∀ m : Mnemonic, Spells m.name.toList ⟨.identifier, m.name⟩ ∧ '\n' ∉ m.name.toList ∧
      m.name.length < operationWidth := by
    intro m
    obtain ⟨hname, hlength⟩ := isIdentifier_mnemonicName m
    exact ⟨Lexer.spells_identifier hname, Text.newline_not_mem_of_isNameRest (Text.isNameRest_of_mem hname),
      hlength⟩
  cases s with
  | unary mnemonic => exact hmnemonic mnemonic
  | nonunary mnemonic mode operand => exact hmnemonic mnemonic
  | directive d operand =>
    have hspells : Spells d.spelling.toList ⟨.directive, d.name⟩ := spells_point (by cases d <;> decide)
    have hrest : '\n' ∉ d.spelling.toList ∧ d.spelling.length < operationWidth := by cases d <;> decide
    exact ⟨hspells, hrest⟩
  | align operand padding =>
    have hspells : Spells ".ALIGN".toList ⟨.directive, "ALIGN"⟩ := spells_point (by decide)
    have hrest : '\n' ∉ ".ALIGN".toList ∧ ".ALIGN".length < operationWidth := by decide
    exact ⟨hspells, hrest⟩
  | endMark =>
    have hspells : Spells ".END".toList ⟨.directive, "END"⟩ := spells_point (by decide)
    exact ⟨hspells, by decide⟩
  | call name args target => cases hs
  | comment => cases haddressable
  | blank => cases haddressable

lemma toList_padRight (width : Nat) (text : String) :
    (Text.padRight width text).toList =
      text.toList ++ List.replicate (width - text.length) ' ' := by
  rw [Text.padRight, String.toList_append, String.toList_ofList]

lemma isBlank_of_mem_replicate {k : Nat} : ∀ c ∈ List.replicate k ' ', Text.isBlank c = true := by
  intro c hc
  rw [(List.mem_replicate.1 hc).2]
  decide

/-- A line whose parts are written: its label is a name, its operand and its comment spell
themselves. -/
structure Line.Written (l : Line) : Prop where
  label : ∀ name, l.label = some name → Text.isIdentifier name.toList = true
  operand : ∀ operand, l.statement.operand? = some operand → Lexer.Written operand.token
  comment : ∀ text, l.comment = some text → IsRemark text
  remark : l.statement = .comment → l.comment.isSome = true
  target : l.statement.target? = none

section Columns

variable {l : Line}

lemma Line.source_of_isAddressable (h : l.statement.isAddressable = true) :
    l.source = Text.trimLine
      (Text.padRight labelWidth l.labelText ++
        Text.padRight operationWidth l.statement.operationText ++
        Text.padRight operandWidth l.statement.operandText ++ l.comment.getD "") := by
  unfold Line.source
  split
  next hst => rw [hst] at h; cases h
  next hst => rw [hst] at h; cases h
  next => rfl

lemma Line.tokens_of_isAddressable (h : l.statement.isAddressable = true) :
    l.tokens = l.label.toList.map (Token.mk .label) ++ l.statement.operationToken ::
      (l.statement.operandTokens ++ (l.comment.toList.map (Token.mk .comment) ++ [Token.lineEnd])) := by
  unfold Line.tokens
  split
  next hst => rw [hst] at h; cases h
  next hst => rw [hst] at h; cases h
  next => rfl

end Columns

namespace Line.Written

variable {l : Line}

/-- Behind the columns there is a comment or nothing. -/
lemma scanLine_comment (h : l.Written) :
    scanLine (l.comment.getD "").toList =
      .ok (l.comment.toList.map (Token.mk .comment) ++ [Token.lineEnd]) := by
  cases hcomment : l.comment with
  | none => exact Lexer.scanLine_nil
  | some text => exact (h.comment text hcomment).scanLine

lemma endsArgument_comment (h : l.Written) : (l.comment.getD "").toList.head?.all endsArgument = true := by
  cases hcomment : l.comment with
  | none => rfl
  | some text =>
    obtain ⟨s, hs⟩ := (h.comment text hcomment).exists_text
    rw [Option.getD_some, hs]
    rfl

/-- The column for labels spells the label, and anything may follow. -/
lemma scanLine_labelText (h : l.Written) (tail : List Char) :
    scanLine (l.labelText.toList ++ tail) =
      (scanLine tail).map (l.label.toList.map (Token.mk .label) ++ ·) := by
  unfold labelText
  cases hlabel : l.label with
  | none =>
    change scanLine tail = _
    cases scanLine tail <;> rfl
  | some name =>
    have happend : (name ++ ":").toList ++ tail = name.toList ++ ':' :: tail := by simp
    rw [happend, Lexer.scanLine_label (h.label name hlabel)]
    rfl

/-- The text of a line becomes the tokens of its parts. -/
theorem tokenize_source (h : l.Written) : tokenize l.source = l.tokens := by
  apply Lexer.tokenize_of_scanLine
  by_cases haddressable : l.statement.isAddressable = true
  · obtain ⟨hspells, -, hlength⟩ := spells_operationText h.target haddressable
    -- The column for operations is never full, so that a blank follows the operation.
    obtain ⟨k, hk⟩ : ∃ k, operationWidth - l.statement.operationText.length = k + 1 :=
      ⟨operationWidth - l.statement.operationText.length - 1, by omega⟩
    have hends : (List.replicate (operandWidth - l.statement.operandText.length) ' ' ++
        (l.comment.getD "").toList).head?.all endsArgument = true :=
      Lexer.endsArgument_append isBlank_of_mem_replicate h.endsArgument_comment
    rw [source_of_isAddressable haddressable, tokens_of_isAddressable haddressable, Text.trimLine,
      String.toList_ofList, Lexer.scanLine_trimEnd]
    simp only [String.toList_append, toList_padRight, List.append_assoc]
    rw [h.scanLine_labelText, Lexer.scanLine_blanks isBlank_of_mem_replicate,
      hspells.scanLine (by rw [hk]; rfl), Lexer.scanLine_blanks isBlank_of_mem_replicate,
      scanLine_operandText h.target h.operand hends, Lexer.scanLine_blanks isBlank_of_mem_replicate,
      h.scanLine_comment]
    rfl
  · cases hst : l.statement with
    | blank =>
      rw [Line.source, Line.tokens, hst]
      exact Lexer.scanLine_nil
    | comment =>
      obtain ⟨text, htext⟩ := Option.isSome_iff_exists.1 (h.remark hst)
      rw [Line.source, Line.tokens, hst, htext]
      exact (h.comment text htext).scanLine
    | _ =>
      rw [hst] at haddressable
      exact absurd rfl haddressable

/-- The text of a line has no blanks at its end. -/
lemma clean_source (h : l.Written) : Text.Clean l.source.toList := by
  by_cases haddressable : l.statement.isAddressable = true
  · rw [source_of_isAddressable haddressable, Text.trimLine, String.toList_ofList]
    exact Text.clean_trimEnd _
  · cases hst : l.statement with
    | blank => rw [Line.source, hst]; exact nofun
    | comment =>
      obtain ⟨text, htext⟩ := Option.isSome_iff_exists.1 (h.remark hst)
      rw [Line.source, hst, htext]
      exact (h.comment text htext).clean
    | _ =>
      rw [hst] at haddressable
      exact absurd rfl haddressable

lemma newline_not_mem_comment (h : l.Written) : '\n' ∉ (l.comment.getD "").toList := by
  cases hcomment : l.comment with
  | none => exact List.not_mem_nil
  | some text => exact (h.comment text hcomment).newline_not_mem

lemma newline_not_mem_labelText (h : l.Written) : '\n' ∉ l.labelText.toList := by
  unfold labelText
  cases hlabel : l.label with
  | none => exact List.not_mem_nil
  | some name =>
    have hname := Text.newline_not_mem_of_isNameRest (Text.isNameRest_of_mem (h.label name hlabel))
    simp [hname]

/-- The text of a line is a single line. -/
lemma newline_not_mem_source (h : l.Written) : '\n' ∉ l.source.toList := by
  by_cases haddressable : l.statement.isAddressable = true
  · obtain ⟨-, hoperation, -⟩ := spells_operationText h.target haddressable
    have hoperand := newline_not_mem_operandText h.target h.operand
    rw [source_of_isAddressable haddressable, Text.trimLine, String.toList_ofList]
    intro hmem
    have hmem := (Text.trimEnd_prefix _).mem hmem
    simp [toList_padRight, h.newline_not_mem_labelText, hoperation, hoperand, h.newline_not_mem_comment]
      at hmem
  · cases hst : l.statement with
    | blank => rw [Line.source, hst]; exact List.not_mem_nil
    | comment => rw [Line.source, hst]; exact h.newline_not_mem_comment
    | _ =>
      rw [hst] at haddressable
      exact absurd rfl haddressable

end Line.Written

end Operands

end Pep10
