import Pep10.Proofs.Line.Spelling

/-!
# Lines that are read back

A line can be spelled in many ways: names in either case, numbers with leading zeros or a sign, a
mode that need not be written.  What has been read can be written in its normal form, and the tokens
of this form are read as the same line with the same marks (`line_restored`).
-/

namespace Pep10

open Lexer (Written IsRemark Proper)

/-! ### Operands are read back -/

namespace Reader

variable {ctx ctx' : ReadContext} {token : Token} {tokens rest : List Token} {marks : List Mark}
  {label : Option String} {operand : Operand} {d : Directive} {s : Statement} {name : String}
  {number : Nat} {l : Line} {e : LineError}

lemma hexValue_hex (width : Nat) (value : UInt16) :
    hexValue ("0x" ++ Text.hex width value.toNat) = .ok value := by
  have hlt := value.toNat_lt
  have hdrop : ('0' :: 'x' :: Text.hexDigits width value.toNat).drop 2 = Text.hexDigits width value.toNat :=
    rfl
  simp only [hexValue, Lexer.toList_hex, hdrop, Text.valueOf_hexDigits]
  rw [if_pos (by omega), UInt16.ofNat_toNat]

/-- A decimal operand within the bounds of a word is written in its normal form and read back. -/
lemma decimalOperand_restored {low high : Int} {text : String} (hlow : -0x8000 ≤ low) (hhigh : high ≤ 0xFFFF)
    (h : decimalOperand low high e text = .ok operand) :
    operand.kind = .decimal ∧ Written operand.token ∧
      decimalOperand low high e operand.text = .ok operand := by
  unfold decimalOperand at h
  dsimp only at h
  split at h
  next hneg =>
    cases h
    rw [Bool.and_eq_true, decide_eq_true_eq, decide_eq_true_eq] at hneg
    have hvalue : (Int16.ofInt (decimalValue text)).toInt = decimalValue text :=
      Int16.toInt_ofInt_of_le (by omega) (by omega)
    have hback : decimalValue (Operand.signed (Int16.ofInt (decimalValue text))).text = decimalValue text := by
      rw [decimalValue, Operand.text, Text.signedValue_signedDecimal, hvalue]
    refine ⟨rfl, written_signed _, ?_⟩
    simp only [decimalOperand, hback]
    rw [if_pos (by simp [hneg])]
  next hneg =>
    split at h
    next hnonneg =>
      cases h
      rw [Bool.and_eq_true, decide_eq_true_eq, decide_eq_true_eq] at hnonneg
      have hvalue : (UInt16.ofNat (decimalValue text).toNat).toNat = (decimalValue text).toNat := by
        rw [UInt16.toNat_ofNat']
        omega
      have hback : decimalValue (Operand.unsigned (UInt16.ofNat (decimalValue text).toNat)).text =
          decimalValue text := by
        rw [decimalValue, Operand.text, Text.signedValue_decimal, hvalue]
        omega
      refine ⟨rfl, written_unsigned _, ?_⟩
      simp only [decimalOperand, hback]
      rw [if_neg hneg, if_pos (by simp [hnonneg])]
    · cases h

/-- A hexadecimal operand is read back. -/
lemma hex_restored {text : String} (h : (hexValue text).map Operand.hex = .ok operand) :
    operand.kind = .hexadecimal ∧ Written operand.token ∧
      (hexValue operand.text).map Operand.hex = .ok operand := by
  cases hvalue : hexValue text with
  | error e => rw [hvalue] at h; cases h
  | ok value =>
    rw [hvalue] at h
    cases h
    refine ⟨rfl, written_hex 4 value, ?_⟩
    rw [Operand.text, hexValue_hex]
    rfl

/-- A word is read back, whatever it was written as. -/
lemma wordConstant_restored (hproper : Proper token) (h : wordConstant token = .ok (some operand)) :
    Written operand.token ∧ wordConstant operand.token = .ok (some operand) := by
  obtain ⟨kind, text⟩ := token
  unfold wordConstant at h
  split at h
  next hkind =>
    cases h
    obtain rfl : kind = .charConstant := hkind
    exact ⟨hproper.1 rfl, rfl⟩
  next hkind =>
    cases hdec : decimalOperand (-0x8000) 0xFFFF .decimalRange text with
    | error e => simp only [hdec] at h; cases h
    | ok o =>
      simp only [hdec] at h
      cases h
      obtain ⟨hk, hwritten, hread⟩ := decimalOperand_restored (by decide) (by decide) hdec
      refine ⟨hwritten, ?_⟩
      simp only [wordConstant, Operand.token, hk, hread]
      rfl
  next hkind =>
    cases hvalue : hexValue text with
    | error e => simp only [hvalue] at h; cases h
    | ok value =>
      simp only [hvalue] at h
      cases h
      refine ⟨written_hex 4 value, ?_⟩
      simp only [wordConstant, Operand.token, Operand.kind, Operand.text, hexValue_hex]
      rfl
  next hkind =>
    obtain rfl : kind = .stringConstant := hkind
    split at h
    · cases h
    next hlength =>
      cases h
      exact ⟨hproper.1 rfl, if_neg hlength⟩
  next => cases h

lemma requireWord_restored (hproper : Proper token) (h : requireWord e token = .ok operand) :
    Written operand.token ∧ requireWord e operand.token = .ok operand := by
  unfold requireWord at h
  split at h
  · cases h
  · cases h
  next o ho =>
    cases h
    obtain ⟨hwritten, hread⟩ := wordConstant_restored hproper ho
    exact ⟨hwritten, by rw [requireWord, hread]⟩

/-- A symbol is read back. -/
lemma useSymbol_restored (hproper : Proper token) (hkind : token.kind = .identifier)
    (h : useSymbol token.text = ⟨marks, .ok operand⟩) : Written operand.token ∧ operand.token = token := by
  obtain ⟨kind, text⟩ := token
  obtain rfl : kind = .identifier := hkind
  obtain ⟨rfl, -⟩ := useSymbol_eq_ok h
  exact ⟨hproper.1 rfl, rfl⟩

lemma instructionOperand_restored (hproper : Proper token)
    (h : instructionOperand token = ⟨marks, .ok operand⟩) :
    Written operand.token ∧ instructionOperand operand.token = ⟨marks, .ok operand⟩ := by
  unfold instructionOperand at h
  split at h
  next hkind =>
    obtain ⟨hwritten, htoken⟩ := useSymbol_restored hproper hkind h
    refine ⟨hwritten, ?_⟩
    rw [htoken, instructionOperand, hkind]
    exact h
  next => cases h
  next =>
    obtain ⟨rfl, hword⟩ := Reading.ofExcept_eq_ok.1 h
    obtain ⟨hwritten, hread⟩ := requireWord_restored hproper hword
    refine ⟨hwritten, ?_⟩
    have hnone := symbol?_requireWord hword
    rw [instructionOperand, hread]
    cases operand with
    | symbol name => cases hnone
    | _ => rfl

lemma asciiOperand_restored (hproper : Proper token) (h : asciiOperand token = .ok operand) :
    Written operand.token ∧ asciiOperand operand.token = .ok operand := by
  obtain ⟨kind, text⟩ := token
  unfold asciiOperand at h
  split at h
  next hkind =>
    obtain rfl : kind = .stringConstant := hkind
    cases h
    exact ⟨hproper.1 rfl, rfl⟩
  next => cases h

lemma blockOperand_restored (h : blockOperand token = .ok operand) :
    Written operand.token ∧ blockOperand operand.token = .ok operand := by
  unfold blockOperand at h
  split at h
  next =>
    obtain ⟨hkind, hwritten, hread⟩ := decimalOperand_restored (by decide) (by decide) h
    refine ⟨hwritten, ?_⟩
    simp only [blockOperand, Operand.token, hkind, hread]
  next =>
    obtain ⟨hkind, hwritten, hread⟩ := hex_restored h
    refine ⟨hwritten, ?_⟩
    simp only [blockOperand, Operand.token, hkind, hread]
  next => cases h

lemma burnOperand_restored (h : burnOperand token = .ok operand) :
    Written operand.token ∧ burnOperand operand.token = .ok operand := by
  unfold burnOperand at h
  split at h
  next =>
    obtain ⟨hkind, hwritten, hread⟩ := hex_restored h
    refine ⟨hwritten, ?_⟩
    simp only [burnOperand, Operand.token, hkind, hread]
  next => cases h

lemma alignOperand_restored (h : alignOperand token = .ok operand) :
    Written operand.token ∧ alignOperand operand.token = .ok operand := by
  obtain ⟨n, hn, rfl⟩ := alignOperand_eq_ok h
  refine ⟨written_unsigned n, ?_⟩
  rcases hn with rfl | rfl | rfl <;> decide +kernel

/-- The operand of a `.BYTE` is read back; two hexadecimal digits are enough for it. -/
lemma byteOperand_restored (hproper : Proper token) (h : byteOperand token = .ok operand) :
    Written operand.token ∧ byteOperand (operand.tokenFor .byte) = .ok operand := by
  obtain ⟨kind, text⟩ := token
  unfold byteOperand at h
  split at h
  next hkind =>
    obtain rfl : kind = .charConstant := hkind
    cases h
    exact ⟨hproper.1 rfl, rfl⟩
  next =>
    obtain ⟨hkind, hwritten, hread⟩ := decimalOperand_restored (by decide) (by decide) h
    refine ⟨hwritten, ?_⟩
    have htoken : operand.tokenFor .byte = operand.token := by
      cases operand with
      | hex value => cases hkind
      | _ => rfl
    rw [htoken]
    simp only [byteOperand, Operand.token, hkind, hread]
  next =>
    split at h
    next value hvalue =>
      split at h
      next hle =>
        cases h
        refine ⟨written_hex 4 value, ?_⟩
        simp only [byteOperand, Operand.tokenFor, hexValue_hex]
        exact if_pos hle
      · cases h
    · cases h
  next hkind =>
    obtain rfl : kind = .stringConstant := hkind
    split at h
    next hlength =>
      cases h
      exact ⟨hproper.1 rfl, if_pos hlength⟩
    · cases h
  next => cases h

lemma equateOperand_restored (hproper : Proper token)
    (h : equateOperand label token = ⟨marks, .ok operand⟩) :
    Written operand.token ∧ equateOperand label operand.token = ⟨marks, .ok operand⟩ := by
  unfold equateOperand at h
  split at h
  · cases h
  next name =>
    obtain ⟨m₁, operand', m₂, hconst, hrest, rfl⟩ := Reading.bind_eq_ok.1 h
    obtain ⟨m₃, u, m₄, hleave, hpure, rfl⟩ := Reading.bind_eq_ok.1 hrest
    obtain ⟨rfl, hword⟩ := Reading.ofExcept_eq_ok.1 hconst
    obtain ⟨rfl, rfl⟩ := Reading.pure_eq_ok.1 hpure
    obtain ⟨hwritten, hread⟩ := requireWord_restored hproper hword
    refine ⟨hwritten, Reading.bind_eq_ok.2 ⟨[], _, _, Reading.ofExcept_eq_ok.2 ⟨rfl, hread⟩, ?_, rfl⟩⟩
    exact Reading.bind_eq_ok.2 ⟨m₃, u, [], hleave, Reading.pure_eq_ok.2 ⟨rfl, rfl⟩, rfl⟩

/-- What leaves no marks is read back without marks. -/
lemma ofExcept_restored {read : Token → Except LineError Operand} {written : Token}
    (h : Reading.ofExcept (read token) = ⟨marks, .ok operand⟩)
    (hback : read token = .ok operand → Written operand.token ∧ read written = .ok operand) :
    Written operand.token ∧ Reading.ofExcept (read written) = ⟨marks, .ok operand⟩ := by
  obtain ⟨rfl, hread⟩ := Reading.ofExcept_eq_ok.1 h
  exact ⟨(hback hread).1, Reading.ofExcept_eq_ok.2 ⟨rfl, (hback hread).2⟩⟩

/-- The operand of a directive is read back from the text that is written for it. -/
lemma directiveOperand_restored (hproper : Proper token)
    (h : directiveOperand label d token = ⟨marks, .ok operand⟩) :
    Written operand.token ∧ directiveOperand label d (operand.tokenFor d) = ⟨marks, .ok operand⟩ := by
  cases d with
  | addrss =>
    change addrssOperand token = _ at h
    unfold addrssOperand at h
    split at h
    next hkind =>
      obtain ⟨hwritten, htoken⟩ := useSymbol_restored hproper hkind h
      refine ⟨hwritten, ?_⟩
      change addrssOperand operand.token = _
      rw [htoken, addrssOperand, hkind]
      exact h
    next => cases h
  | ascii => exact ofExcept_restored h (asciiOperand_restored hproper)
  | block => exact ofExcept_restored h blockOperand_restored
  | burn => exact ofExcept_restored h burnOperand_restored
  | byte => exact ofExcept_restored h (byteOperand_restored hproper)
  | equate => exact equateOperand_restored hproper h
  | word => exact ofExcept_restored h (requireWord_restored hproper)
  | publish => cases h
  | scall => cases h
  | uscall => cases h

/-! ### Statements are read back -/

/-- What a statement is read as does not depend on its spelling: its operand is written, and the
tokens that spell the statement are read as the statement, if no mode follows them. -/
structure Restored (ctx : ReadContext) (label : Option String) (marks : List Mark) (s : Statement) :
    Prop where
  written : ∀ operand, s.operand? = some operand → Written operand.token
  reads : ∀ rest : List Token, (∀ t ∈ rest.head?, t.kind ≠ .mode) →
    statement ctx label s.operationToken (s.operandTokens ++ rest) = ⟨marks, .ok (s, rest)⟩

lemma next_token (operand : Operand) (rest : List Token) :
    next (operand.token :: rest) = ⟨[], .ok (operand.token, rest)⟩ := by
  cases operand <;> rfl

lemma next_tokenFor (operand : Operand) (d : Directive) (rest : List Token) :
    next (operand.tokenFor d :: rest) = ⟨[], .ok (operand.tokenFor d, rest)⟩ := by
  unfold Operand.tokenFor
  split
  · rfl
  · exact next_token _ rest

lemma ofName?_mnemonicName (m : Mnemonic) : Mnemonic.ofName? m.name = some m := by
  have hall : ∀ m ∈ Mnemonic.all, Mnemonic.ofName? m.name = some m := by decide +kernel
  exact hall m (mem_mnemonics m)

lemma ofName?_modeName (mode : Mode) : Mode.ofName? mode.name = some mode := by
  cases mode <;> decide +kernel

/-- Where a mode need not be written, it is immediate or indexed. -/
lemma mode_of_allows {m : Mnemonic} {mode : Mode} (hrequired : m.modeRequired = false)
    (h : m.allows mode = true) : mode = .immediate ∨ mode = .indexed := by
  unfold Mnemonic.modeRequired at hrequired
  unfold Mnemonic.allows Mnemonic.modes at h
  cases hform : m.entry.form with
  | unary => rw [hform] at h; revert h; cases mode <;> decide
  | branch => rw [hform] at h; revert h; cases mode <;> decide
  | general => rw [hform] at hrequired; cases hrequired
  | store => rw [hform] at hrequired; cases hrequired

/-- Where a mode need not be written and none is there, it is immediate. -/
lemma instructionMode_default {m : Mnemonic} (hrequired : m.modeRequired = false)
    (h : ∀ t ∈ tokens.head?, t.kind ≠ .mode) :
    instructionMode m tokens = ⟨[], .ok (.immediate, tokens)⟩ := by
  unfold instructionMode
  split
  next text rest => exact absurd rfl (h ⟨.mode, text⟩ rfl)
  next => rw [hrequired]; rfl

/-- The mode is read back, whether it is written or left out. -/
lemma instructionMode_restored {m : Mnemonic} {mode : Mode}
    (h : instructionMode m tokens = ⟨marks, .ok (mode, rest)⟩) {rest' : List Token}
    (hrest : ∀ t ∈ rest'.head?, t.kind ≠ .mode) :
    instructionMode m
      ((if m.modeRequired || mode == .indexed then [⟨.mode, mode.name⟩] else []) ++ rest') =
        ⟨marks, .ok (mode, rest')⟩ := by
  unfold instructionMode at h
  split at h
  next text rest₁ =>
    split at h
    · cases h
    next mode' hname =>
      split at h
      next hallows =>
        obtain ⟨rfl, heq⟩ := Reading.done_eq_ok.1 h
        cases heq
        by_cases hwrite : (m.modeRequired || mode == .indexed) = true
        · rw [if_pos hwrite, List.singleton_append, instructionMode, ofName?_modeName]
          exact if_pos hallows
        · rw [if_neg hwrite, List.nil_append]
          rw [Bool.not_eq_true, Bool.or_eq_false_iff, beq_eq_false_iff_ne] at hwrite
          obtain rfl := (mode_of_allows hwrite.1 hallows).resolve_right hwrite.2
          exact instructionMode_default hwrite.1 hrest
      · cases h
  next =>
    split at h
    · cases h
    next hrequired =>
      obtain ⟨rfl, heq⟩ := Reading.done_eq_ok.1 h
      cases heq
      rw [Bool.not_eq_true] at hrequired
      rw [hrequired]
      exact instructionMode_default hrequired hrest

lemma instruction_restored (hproper : ∀ t ∈ tokens, Proper t)
    (h : instruction name tokens = ⟨marks, .ok (s, rest)⟩) : Restored ctx label marks s := by
  unfold instruction at h
  split at h
  · cases h
  next m hm =>
    split at h
    next hunary =>
      obtain ⟨rfl, heq⟩ := Reading.done_eq_ok.1 h
      cases heq
      refine ⟨nofun, fun rest' _ => ?_⟩
      change instruction m.name rest' = _
      rw [instruction, ofName?_mnemonicName]
      exact if_pos hunary
    next hunary =>
      obtain ⟨m₁, ⟨token, rest₁⟩, m₂, hnext, hrest, rfl⟩ := Reading.bind_eq_ok.1 h
      obtain ⟨m₃, operand, m₄, hoperand, hmode, rfl⟩ := Reading.bind_eq_ok.1 hrest
      obtain ⟨m₅, ⟨mode, rest₂⟩, m₆, hm, hpure, rfl⟩ := Reading.bind_eq_ok.1 hmode
      obtain ⟨rfl, rfl⟩ := next_eq_ok hnext
      obtain ⟨rfl, heq⟩ := Reading.pure_eq_ok.1 hpure
      cases heq
      obtain ⟨hwritten, hread⟩ := instructionOperand_restored (hproper token List.mem_cons_self) hoperand
      refine ⟨fun o ho => by cases ho; exact hwritten, fun rest' hrest' => ?_⟩
      change instruction m.name (operand.token :: (_ ++ rest')) = _
      rw [instruction, ofName?_mnemonicName]
      refine (if_neg hunary).trans ?_
      refine Reading.bind_eq_ok.2 ⟨[], _, _, next_token operand _, ?_, rfl⟩
      refine Reading.bind_eq_ok.2 ⟨m₃, _, _, hread, ?_, rfl⟩
      exact Reading.bind_eq_ok.2 ⟨m₅, _, [], instructionMode_restored hm hrest',
        Reading.pure_eq_ok.2 ⟨rfl, rfl⟩, rfl⟩

/-- A symbol of the operating system is read back. -/
lemma systemSymbol_restored (hctx : ctx'.isSystem = ctx.isSystem ∧ ctx'.library = ctx.library)
    (hproper : ∀ t ∈ tokens, Proper t) (h : systemSymbol ctx label d tokens = ⟨marks, .ok (s, rest)⟩) :
    ∃ operand, s = .directive d operand ∧ Written operand.token ∧
      ∀ rest', systemSymbol ctx' label d (operand.token :: rest') = ⟨marks, .ok (s, rest')⟩ := by
  unfold systemSymbol at h
  split at h
  · cases h
  next hsystem =>
    split at h
    · cases h
    next hlabel =>
      obtain ⟨m₁, ⟨token, rest₁⟩, m₂, hnext, hrest, rfl⟩ := Reading.bind_eq_ok.1 h
      obtain ⟨rfl, rfl⟩ := next_eq_ok hnext
      dsimp only at hrest
      split at hrest
      · cases hrest
      next hkind =>
        obtain ⟨m₃, operand, m₄, huse, hthen, rfl⟩ := Reading.bind_eq_ok.1 hrest
        obtain ⟨m₅, u, m₆, hleave, hlast, rfl⟩ := Reading.bind_eq_ok.1 hthen
        obtain ⟨m₇, u', m₈, hoffer, hpure, rfl⟩ := Reading.bind_eq_ok.1 hlast
        obtain ⟨rfl, heq⟩ := Reading.pure_eq_ok.1 hpure
        cases heq
        have hident : token.kind = .identifier := by simpa using hkind
        obtain ⟨hwritten, htoken⟩ :=
          useSymbol_restored (hproper token List.mem_cons_self) hident huse
        have hoffer' : offer ctx' d token.text = ⟨m₇, .ok u'⟩ := by
          rw [← hoffer, offer, offer, hctx.2]
        refine ⟨operand, rfl, hwritten, fun rest' => ?_⟩
        rw [systemSymbol, hctx.1, if_neg hsystem, if_neg hlabel]
        refine Reading.bind_eq_ok.2 ⟨[], _, _, next_token operand rest', ?_, rfl⟩
        dsimp only
        rw [htoken, if_neg hkind]
        refine Reading.bind_eq_ok.2 ⟨m₃, _, _, huse, ?_, rfl⟩
        refine Reading.bind_eq_ok.2 ⟨m₅, _, _, hleave, ?_, rfl⟩
        exact Reading.bind_eq_ok.2 ⟨m₇, _, [], hoffer', Reading.pure_eq_ok.2 ⟨rfl, rfl⟩, rfl⟩

/-- A directive with an operand is read back. -/
lemma operandDirective_restored (hctx : ctx'.isSystem = ctx.isSystem ∧ ctx'.library = ctx.library)
    (hproper : ∀ t ∈ tokens, Proper t)
    (h : operandDirective ctx label d tokens = ⟨marks, .ok (s, rest)⟩) :
    ∃ operand, s = .directive d operand ∧ Written operand.token ∧
      ∀ rest', operandDirective ctx' label d (operand.tokenFor d :: rest') = ⟨marks, .ok (s, rest')⟩ := by
  unfold operandDirective at h
  split at h
  · exact systemSymbol_restored hctx hproper h
  · exact systemSymbol_restored hctx hproper h
  · exact systemSymbol_restored hctx hproper h
  next hpublish hscall huscall =>
    split at h
    · cases h
    next hburn =>
      obtain ⟨m₁, ⟨token, rest₁⟩, m₂, hnext, hrest, rfl⟩ := Reading.bind_eq_ok.1 h
      obtain ⟨m₃, operand, m₄, hoperand, hpure, rfl⟩ := Reading.bind_eq_ok.1 hrest
      obtain ⟨rfl, rfl⟩ := next_eq_ok hnext
      obtain ⟨rfl, heq⟩ := Reading.pure_eq_ok.1 hpure
      cases heq
      obtain ⟨hwritten, hread⟩ := directiveOperand_restored (hproper token List.mem_cons_self) hoperand
      refine ⟨operand, rfl, hwritten, fun rest' => ?_⟩
      unfold operandDirective
      split
      · exact absurd rfl hpublish
      · exact absurd rfl hscall
      · exact absurd rfl huscall
      next =>
        rw [hctx.1, if_neg hburn]
        refine Reading.bind_eq_ok.2 ⟨[], _, _, next_tokenFor operand d rest', ?_, rfl⟩
        exact Reading.bind_eq_ok.2 ⟨m₃, _, [], hread, Reading.pure_eq_ok.2 ⟨rfl, rfl⟩, rfl⟩

lemma directiveOfName?_name (d : Directive) :
    Text.sameName d.name "END" = false ∧ Text.sameName d.name "ALIGN" = false ∧
      directiveOfName? d.name = some d := by
  cases d <;> decide +kernel

lemma directive_restored (hctx : ctx'.isSystem = ctx.isSystem ∧ ctx'.library = ctx.library)
    (hproper : ∀ t ∈ tokens, Proper t) (h : directive ctx label name tokens = ⟨marks, .ok (s, rest)⟩) :
    Restored ctx' label marks s := by
  unfold directive at h
  split at h
  next =>
    split at h
    · cases h
    next hlabel =>
      obtain ⟨rfl, heq⟩ := Reading.done_eq_ok.1 h
      cases heq
      refine ⟨nofun, fun rest' _ => ?_⟩
      change directive ctx' label "END" rest' = _
      rw [directive, if_pos (by decide), if_neg hlabel]
      rfl
  next =>
    split at h
    next =>
      obtain ⟨m₁, ⟨token, rest₁⟩, m₂, hnext, hrest, rfl⟩ := Reading.bind_eq_ok.1 h
      obtain ⟨m₃, operand, m₄, hread, hpure, rfl⟩ := Reading.bind_eq_ok.1 hrest
      obtain ⟨-, rfl⟩ := next_eq_ok hnext
      obtain ⟨rfl, halign⟩ := Reading.ofExcept_eq_ok.1 hread
      obtain ⟨rfl, heq⟩ := Reading.pure_eq_ok.1 hpure
      cases heq
      obtain ⟨hwritten, hback⟩ := alignOperand_restored halign
      refine ⟨fun o ho => by cases ho; exact hwritten, fun rest' _ => ?_⟩
      change directive ctx' label "ALIGN" (operand.token :: rest') = _
      rw [directive, if_neg (by decide), if_pos (by decide)]
      refine Reading.bind_eq_ok.2 ⟨[], _, _, next_token operand rest', ?_, rfl⟩
      exact Reading.bind_eq_ok.2 ⟨[], _, [], Reading.ofExcept_eq_ok.2 ⟨rfl, hback⟩,
        Reading.pure_eq_ok.2 ⟨rfl, rfl⟩, rfl⟩
    next =>
      split at h
      next d hd =>
        obtain ⟨operand, rfl, hwritten, hread⟩ := operandDirective_restored hctx hproper h
        obtain ⟨hend, halign, hname⟩ := directiveOfName?_name d
        refine ⟨fun o ho => by cases ho; exact hwritten, fun rest' _ => ?_⟩
        change directive ctx' label d.name (operand.tokenFor d :: rest') = _
        rw [directive, if_neg (by simp [hend]), if_neg (by simp [halign]), hname]
        exact hread rest'
      next =>
        obtain ⟨m₁, r, m₂, -, hfail, -⟩ := Reading.bind_eq_ok.1 h
        cases hfail

/-- A statement that is no call is read back. -/
lemma statement_restored (hctx : ctx'.isSystem = ctx.isSystem ∧ ctx'.library = ctx.library)
    (hproper : ∀ t ∈ tokens, Proper t)
    (h : statement ctx label token tokens = ⟨marks, .ok (s, rest)⟩) (htarget : s.target? = none) :
    Restored ctx' label marks s := by
  unfold statement at h
  split at h
  · exact instruction_restored hproper h
  · exact directive_restored hctx hproper h
  · obtain ⟨-, m, target, -, -, rfl⟩ := call_eq_ok h
    cases htarget
  · cases h
  · cases h

/-! ### Lines are read back -/

/-- An operation begins a line or follows a label. -/
lemma kind_operationToken (hs : s.target? = none) (haddressable : s.isAddressable = true) :
    s.operationToken.kind = .identifier ∨ s.operationToken.kind = .directive := by
  cases s with
  | unary mnemonic => exact .inl rfl
  | nonunary mnemonic mode operand => exact .inl rfl
  | directive d operand => exact .inr rfl
  | align operand padding => exact .inr rfl
  | endMark => exact .inr rfl
  | call name args target => cases hs
  | comment => cases haddressable
  | blank => cases haddressable

lemma takeComment_tokens (comment : Option String) :
    takeComment (comment.toList.map (Token.mk .comment) ++ [Token.lineEnd]) =
      (comment, [Token.lineEnd]) := by
  cases comment <;> rfl

lemma mem_of_takeComment {text : String} (h : (takeComment tokens).1 = some text) :
    ⟨.comment, text⟩ ∈ tokens := by
  unfold takeComment at h
  split at h
  next text' rest' =>
    cases h
    exact List.mem_cons_self
  next => cases h

/-- The line behind a label is read back, with its comment. -/
lemma lineFrom_restored (hctx : ctx'.isSystem = ctx.isSystem ∧ ctx'.library = ctx.library)
    (hproper : ∀ t ∈ tokens, Proper t)
    (h : lineFrom ctx number label token tokens = ⟨marks, .ok l⟩) (htarget : l.statement.target? = none) :
    l.label = label ∧ l.statement.isAddressable = true ∧
      (∀ operand, l.statement.operand? = some operand → Written operand.token) ∧
      (∀ text, l.comment = some text → IsRemark text) ∧
      lineFrom ctx' number label l.statement.operationToken
        (l.statement.operandTokens ++ (l.comment.toList.map (Token.mk .comment) ++ [Token.lineEnd])) =
          ⟨marks, .ok l⟩ := by
  obtain ⟨s, rest, hs, rfl⟩ := lineFrom_eq_ok h
  obtain ⟨used, hused, -⟩ := statement_uses hs htarget
  have hrestored := statement_restored hctx hproper hs htarget
  refine ⟨rfl, (statement_reads hs).addressable, hrestored.written, fun text htext => ?_, ?_⟩
  · have hmem := mem_of_takeComment htext
    have htokens : ⟨.comment, text⟩ ∈ token :: tokens := hused ▸ List.mem_append_right used hmem
    rcases List.mem_cons.1 htokens with rfl | htokens
    · cases hs
    · exact (hproper _ htokens).2 rfl
  · refine Reading.bind_eq_ok.2 ⟨marks, _, [], hrestored.reads _ ?_, ?_, (List.append_nil _).symm⟩
    · intro t ht
      cases hcomment : (takeComment rest).1 with
      | none => rw [hcomment] at ht; cases ht; nofun
      | some text => rw [hcomment] at ht; cases ht; nofun
    · refine Reading.bind_eq_ok.2 ⟨[], (), [], ?_, Reading.pure_eq_ok.2 ⟨rfl, ?_⟩, rfl⟩
      · rw [takeComment_tokens]
        rfl
      · rw [takeComment_tokens]

lemma next_operationToken (hs : s.target? = none) (haddressable : s.isAddressable = true)
    (rest : List Token) :
    next (s.operationToken :: rest) = ⟨[], .ok (s.operationToken, rest)⟩ := by
  unfold next
  rcases kind_operationToken hs haddressable with hkind | hkind <;> simp only [hkind] <;> rfl

lemma line_of_label (hlength : name.utf8ByteSize ≤ maxSymbolLength) (hs : s.target? = none)
    (haddressable : s.isAddressable = true)
    (h : lineFrom ctx number (some name) s.operationToken rest = ⟨marks, .ok l⟩) :
    line ctx number (⟨.label, name⟩ :: s.operationToken :: rest) = ⟨.declare name :: marks, .ok l⟩ := by
  have hcheck : checkLength name = ⟨[], .ok ()⟩ := if_neg (Nat.not_lt.2 hlength)
  have hfollows : followsLabel s.operationToken = true := by
    unfold followsLabel
    rcases kind_operationToken hs haddressable with hkind | hkind <;> rw [hkind]
  refine Reading.bind_eq_ok.2 ⟨[], _, _, rfl, ?_, rfl⟩
  refine Reading.bind_eq_ok.2 ⟨[], _, _, hcheck, ?_, rfl⟩
  refine Reading.bind_eq_ok.2 ⟨[.declare name], _, _, rfl, ?_, rfl⟩
  refine Reading.bind_eq_ok.2 ⟨[], _, _, next_operationToken hs haddressable rest, ?_, rfl⟩
  dsimp only
  rw [if_pos hfollows]
  exact h

lemma line_of_operation (hs : s.target? = none) (haddressable : s.isAddressable = true)
    (h : lineFrom ctx number none s.operationToken rest = ⟨marks, .ok l⟩) :
    line ctx number (s.operationToken :: rest) = ⟨marks, .ok l⟩ := by
  refine Reading.bind_eq_ok.2 ⟨[], _, _, next_operationToken hs haddressable rest, ?_, rfl⟩
  rcases kind_operationToken hs haddressable with hkind | hkind <;> simp only [hkind] <;> exact h

/-- A line that is no call is made of written parts, and the tokens of these parts are read as the
line. -/
theorem line_restored {source : String} (hctx : ctx'.isSystem = ctx.isSystem ∧ ctx'.library = ctx.library)
    (hnewline : '\n' ∉ source.toList) (h : line ctx number (tokenize source) = ⟨marks, .ok l⟩)
    (htarget : l.statement.target? = none) :
    l.Written ∧ line ctx' number l.tokens = ⟨marks, .ok l⟩ := by
  have hproper : ∀ t ∈ tokenize source, Proper t := fun t => Lexer.proper_of_mem_tokenize hnewline
  have hlabel : ∀ name, l.label = some name → Text.isIdentifier name.toList = true :=
    fun name hname => (label_of_line h hname).1
  obtain ⟨m₁, ⟨token, rest⟩, m₂, hnext, hthen, rfl⟩ := Reading.bind_eq_ok.1 h
  obtain ⟨htokens, rfl⟩ := next_eq_ok hnext
  rw [htokens] at hproper
  dsimp only at hthen
  split at hthen
  next =>
    obtain ⟨rfl, rfl⟩ := Reading.pure_eq_ok.1 hthen
    exact ⟨⟨hlabel, nofun, nofun, nofun, rfl⟩, rfl⟩
  next hkind =>
    obtain ⟨m₃, u, m₄, hend, hpure, rfl⟩ := Reading.bind_eq_ok.1 hthen
    obtain rfl := lineEnd_eq_ok hend
    obtain ⟨rfl, rfl⟩ := Reading.pure_eq_ok.1 hpure
    refine ⟨⟨hlabel, nofun, fun text htext => ?_, fun _ => rfl, rfl⟩, rfl⟩
    cases htext
    exact (hproper token List.mem_cons_self).2 hkind
  next hkind =>
    have hlength : ∀ name, l.label = some name → name.utf8ByteSize ≤ maxSymbolLength :=
      fun name hname => (label_of_line h hname).2
    rw [htokens] at h
    obtain ⟨second, rest', m, rfl, hmarks, hfrom⟩ := line_label_eq_ok hkind h
    have hproper' : ∀ t ∈ rest', Proper t := fun t ht =>
      hproper t (List.mem_cons_of_mem _ (List.mem_cons_of_mem _ ht))
    obtain ⟨hname, haddressable, hoperand, hcomment, hback⟩ :=
      lineFrom_restored hctx hproper' hfrom htarget
    refine ⟨⟨hlabel, hoperand, hcomment, fun hst => ?_, htarget⟩, ?_⟩
    · rw [hst] at haddressable
      cases haddressable
    · rw [Line.tokens_of_isAddressable haddressable, hname, hmarks]
      exact line_of_label (hlength _ hname) htarget haddressable hback
  next hend hcomment hlabel' =>
    obtain ⟨hname, haddressable, hoperand, hcomment, hback⟩ :=
      lineFrom_restored hctx (fun t ht => hproper t (List.mem_cons_of_mem _ ht)) hthen htarget
    refine ⟨⟨hlabel, hoperand, hcomment, fun hst => ?_, htarget⟩, ?_⟩
    · rw [hst] at haddressable
      cases haddressable
    · rw [Line.tokens_of_isAddressable haddressable, hname]
      exact line_of_operation htarget haddressable hback

end Reader

end Pep10
