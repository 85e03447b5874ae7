import Pep10.Proofs.Line.Restoring
import Pep10.Proofs.LineByLine

/-!
# Numeric constants mean their value

A numeric constant is a decimal or a hexadecimal numeral with any number of digits.  Each place in
which it can stand has a range: if the value of the numeral is in the range, then the line is read
and stands for the value, and otherwise the assembly fails with the error for this range
(`numericConstant_means_value`).
-/

namespace Pep10

open Text (DecimalNumeral HexNumeral)

/-! ### Constants and their places -/

/-- A constant that is written as a number. -/
inductive NumericConstant where
  | decimal (n : DecimalNumeral)
  | hexadecimal (n : HexNumeral)

namespace NumericConstant

/-- The text of a constant. -/
def text : NumericConstant → List Char
  | decimal n => n.text
  | hexadecimal n => n.text

/-- The value of a constant. -/
def value : NumericConstant → Int
  | decimal n => n.value
  | hexadecimal n => n.value

/-- The token of a constant. -/
def token : NumericConstant → Token
  | decimal n => ⟨.decimal, String.ofList n.text⟩
  | hexadecimal n => ⟨.hexadecimal, String.ofList n.text⟩

end NumericConstant

/-- A place where a numeric constant can stand. -/
inductive ConstantPlace where
  /-- The operand of an instruction in the given mode. -/
  | instruction (mnemonic : Mnemonic) (mode : Mode)
  | word
  | equate
  | byte
  | block

namespace ConstantPlace

/-- The least value that fits the place. -/
def low : ConstantPlace → Int
  | byte => -128
  | block => 0
  | _ => -32768

/-- The greatest value that fits the place. -/
def high : ConstantPlace → Int
  | byte => 255
  | _ => 65535

/-- A value that fits the place. -/
def Fits (place : ConstantPlace) (v : Int) : Prop := place.low ≤ v ∧ v ≤ place.high

/-- What is wrong with a constant that does not fit the place. -/
def rangeError : ConstantPlace → NumericConstant → LineError
  | byte, .decimal _ => .byteDecimalRange
  | byte, .hexadecimal _ => .byteHexRange
  | block, .decimal _ => .unsignedRange
  | _, .decimal _ => .decimalRange
  | _, .hexadecimal _ => .hexRange

/-- The token of the operation that takes a constant in this place, with the name as it is
written. -/
def operationToken (name : String) : ConstantPlace → Token
  | instruction _ _ => ⟨.identifier, name⟩
  | _ => ⟨.directive, name⟩

/-- The name of that operation. -/
def operationName : ConstantPlace → String
  | instruction mnemonic _ => mnemonic.name
  | word => "WORD"
  | equate => "EQUATE"
  | byte => "BYTE"
  | block => "BLOCK"

/-- Whether a mode can be written behind the constant, or left out. -/
def Admits : ConstantPlace → Option String → Prop
  | instruction mnemonic mode, some name =>
    mnemonic.isUnary = false ∧ mnemonic.allows mode = true ∧ Text.sameName mode.name name = true
  | instruction mnemonic mode, none =>
    mnemonic.isUnary = false ∧ mnemonic.modeRequired = false ∧ mode = .immediate
  | _, name => name = none

/-- The statement with the operand in this place. -/
def statement (operand : Operand) : ConstantPlace → Statement
  | instruction mnemonic mode => .nonunary mnemonic mode operand
  | word => .directive .word operand
  | equate => .directive .equate operand
  | byte => .directive .byte operand
  | block => .directive .block operand

/-- What a line with a constant of the value in this place stands for: a `.BYTE` emits the value as
a byte, a `.BLOCK` takes that many bytes, and elsewhere the operand is the value as a word. -/
def Means (place : ConstantPlace) (v : Int) (line : Line) : Prop :=
  ∃ operand, line.statement = place.statement operand ∧ ∀ symbols table,
    match place with
    | byte => ∃ b, line.code symbols table = [b] ∧ (b.toNat : Int) = v % 256
    | block => ((line.size symbols table).toNat : Int) = v ∧
        line.code symbols table = List.replicate v.toNat 0
    | _ => ((operand.value symbols table).toNat : Int) = v % 65536

end ConstantPlace

/-- A line with a constant in some place: perhaps a label, the operation in either case, the
constant, its mode where there is one, and perhaps a comment. -/
structure ConstantLine where
  place : ConstantPlace
  label : Option String
  operation : String
  mode : Option String
  comment : Option String
  label_le : ∀ name, label = some name → name.utf8ByteSize ≤ Reader.maxSymbolLength
  label_of_equate : place = .equate → label.isSome = true
  sameName_operation : Text.sameName place.operationName operation = true
  admits_mode : place.Admits mode

/-- The tokens of a line with a constant. -/
def ConstantLine.tokens (l : ConstantLine) (c : NumericConstant) : List Token :=
  l.label.toList.map (Token.mk .label) ++ l.place.operationToken l.operation :: c.token ::
    (l.mode.toList.map (Token.mk .mode) ++ (l.comment.toList.map (Token.mk .comment) ++ [Token.lineEnd]))

/-! ### Constants in a range -/

/-- The operand is the value as a word. -/
def Operand.StandsFor (operand : Operand) (v : Int) : Prop :=
  ∀ symbols table, ((operand.value symbols table).toNat : Int) = v % 65536

/-- A value that is in a range is read as an operand that stands for it, and any other value is an
error. -/
def ReadsWithin (low high : Int) (e : LineError) (v : Int) (read : Except LineError Operand) : Prop :=
  (low ≤ v ∧ v ≤ high → ∃ operand, read = .ok operand ∧ operand.StandsFor v) ∧
    (¬(low ≤ v ∧ v ≤ high) → read = .error e)

lemma standsFor_signed (v : Int) : (Operand.signed (Int16.ofInt v)).StandsFor v := by
  intro symbols table
  change (((BitVec.ofInt 16 v).toNat : Nat) : Int) = v % 65536
  rw [BitVec.toNat_ofInt]
  omega

lemma toNat_word {n : Nat} (hn : n ≤ 65535) : ((UInt16.ofNat n).toNat : Int) = (n : Int) % 65536 := by
  rw [UInt16.toNat_ofNat_of_lt' (Nat.lt_succ_of_le hn)]
  omega

namespace Reader

lemma readsWithin_decimal {low high : Int} (hlow : low ≤ 0) (hhigh : 0 ≤ high ∧ high ≤ 65535) (e : LineError)
    (n : DecimalNumeral) :
    ReadsWithin low high e n.value (decimalOperand low high e (String.ofList n.text)) := by
  have hvalue : decimalValue (String.ofList n.text) = n.value := by
    rw [decimalValue, String.toList_ofList, n.signedValue_text]
  simp only [decimalOperand, hvalue, Bool.and_eq_true, decide_eq_true_eq]
  constructor
  · rintro ⟨hmin, hmax⟩
    by_cases hneg : n.value < 0
    · exact ⟨_, if_pos ⟨hmin, hneg⟩, standsFor_signed _⟩
    · have hword := toNat_word (n := n.value.toNat) (by omega)
      rw [Int.toNat_of_nonneg (by omega)] at hword
      exact ⟨.unsigned (UInt16.ofNat n.value.toNat), by rw [if_neg (by omega), if_pos (by omega)],
        fun _ _ => hword⟩
  · intro hout
    rw [if_neg (by omega), if_neg (by omega)]

lemma hexValue_text (n : HexNumeral) : hexValue (String.ofList n.text) =
    if n.value ≤ 0xFFFF then .ok (UInt16.ofNat n.value) else .error .hexRange := by
  simp only [hexValue, String.toList_ofList, n.valueOf_text]

lemma readsWithin_hexadecimal {low : Int} (hlow : low ≤ 0) (n : HexNumeral) :
    ReadsWithin low 65535 .hexRange n.value ((hexValue (String.ofList n.text)).map .hex) := by
  rw [hexValue_text]
  constructor
  · rintro ⟨-, hmax⟩
    have hn : n.value ≤ 65535 := by omega
    exact ⟨.hex (UInt16.ofNat n.value), by rw [if_pos hn]; rfl, fun _ _ => toNat_word hn⟩
  · intro hout
    rw [if_neg (by omega)]
    rfl

end Reader

namespace ConstantPlace

open Reader (requireWord byteOperand blockOperand)

/-- What is made of a token in this place. -/
def read (token : Token) : ConstantPlace → Except LineError Operand
  | instruction _ _ => requireWord .operandExpected token
  | word => requireWord .wordArgument token
  | equate => requireWord .equateArgument token
  | byte => byteOperand token
  | block => blockOperand token

lemma requireWord_of_wordConstant {e : LineError} {t : Token} {x : Except LineError Operand}
    (h : Reader.wordConstant t = x.map some) : requireWord e t = x := by
  rw [requireWord, h]
  cases x <;> rfl

lemma readsWithin_word (e : LineError) (c : NumericConstant) :
    ReadsWithin (-32768) 65535 (word.rangeError c) c.value (requireWord e c.token) := by
  cases c with
  | decimal n =>
    rw [requireWord_of_wordConstant rfl]
    exact Reader.readsWithin_decimal (by decide) (by decide) _ n
  | hexadecimal n =>
    have hword : Reader.wordConstant (NumericConstant.hexadecimal n).token =
        ((Reader.hexValue (String.ofList n.text)).map .hex).map some := by
      simp only [Reader.wordConstant, NumericConstant.token]
      cases Reader.hexValue (String.ofList n.text) <;> rfl
    rw [requireWord_of_wordConstant hword]
    exact Reader.readsWithin_hexadecimal (by decide) n

lemma readsWithin_byte (c : NumericConstant) :
    ReadsWithin (-128) 255 (byte.rangeError c) c.value (byteOperand c.token) := by
  cases c with
  | decimal n => exact Reader.readsWithin_decimal (by decide) (by decide) _ n
  | hexadecimal n =>
    have hbyte : byteOperand (NumericConstant.hexadecimal n).token =
        if n.value ≤ 255 then .ok (.hex (UInt16.ofNat n.value)) else .error .byteHexRange := by
      simp only [byteOperand, NumericConstant.token, Reader.hexValue_text]
      by_cases hword : n.value ≤ 0xFFFF
      · rw [if_pos hword]
        have hle : UInt16.ofNat n.value ≤ 0xFF ↔ n.value ≤ 255 := by
          rw [UInt16.le_iff_toNat_le, UInt16.toNat_ofNat_of_lt' (Nat.lt_succ_of_le hword)]
          rfl
        simp only [hle]
      · rw [if_neg hword, if_neg (by omega)]
    rw [hbyte]
    constructor
    · rintro ⟨-, hmax⟩
      have hn : n.value ≤ 255 := Int.ofNat_le.1 hmax
      exact ⟨_, if_pos hn, fun _ _ => toNat_word (by omega)⟩
    · intro hout
      have hn : ¬n.value ≤ 255 := fun hle => hout ⟨by change _ ≤ (n.value : Int); omega, Int.ofNat_le.2 hle⟩
      exact if_neg hn

lemma readsWithin_block (c : NumericConstant) :
    ReadsWithin 0 65535 (block.rangeError c) c.value (blockOperand c.token) := by
  cases c with
  | decimal n => exact Reader.readsWithin_decimal (by decide) (by decide) _ n
  | hexadecimal n => exact Reader.readsWithin_hexadecimal (by decide) n

/-- A constant is read in a place exactly if its value fits, and then it stands for the value. -/
lemma readsWithin (place : ConstantPlace) (c : NumericConstant) :
    ReadsWithin place.low place.high (place.rangeError c) c.value (place.read c.token) := by
  cases place with
  | instruction mnemonic mode =>
    have herror : (instruction mnemonic mode).rangeError c = word.rangeError c := by cases c <;> rfl
    rw [herror]
    exact readsWithin_word _ c
  | word => exact readsWithin_word _ c
  | equate =>
    have herror : equate.rangeError c = word.rangeError c := by cases c <;> rfl
    rw [herror]
    exact readsWithin_word _ c
  | byte => exact readsWithin_byte c
  | block => exact readsWithin_block c

end ConstantPlace

/-! ### Lines with a constant -/

lemma Reading.outcome_bind {α β : Type} (r : Reading α) (f : α → Reading β) :
    (r >>= f).outcome = r.outcome >>= fun a => (f a).outcome := by
  obtain ⟨marks, e | a⟩ := r <;> rfl

lemma Reading.outcome_ok_bind {α β : Type} (marks : List Mark) (a : α) (f : α → Reading β) :
    ((⟨marks, .ok a⟩ : Reading α) >>= f).outcome = (f a).outcome := rfl

/-- Names that differ in case only are the same as another name, or are not, together. -/
lemma sameName_congr {a b : String} (h : Text.sameName a b = true) (s : String) :
    Text.sameName s b = Text.sameName s a ∧ Text.sameName b s = Text.sameName a s := by
  have heq : a.toList.map Char.toLower = b.toList.map Char.toLower := beq_iff_eq.1 h
  rw [Text.sameName, Text.sameName, Text.sameName, Text.sameName, heq]
  exact ⟨rfl, rfl⟩

namespace Reader

variable {ctx : ReadContext} {label : Option String} {name : String} {tokens rest : List Token}
  {c : NumericConstant}

lemma ofName?_of_sameName {m : Mnemonic} (h : Text.sameName m.name name = true) :
    Mnemonic.ofName? name = some m := by
  have hnames : (fun m' : Mnemonic => Text.sameName m'.name name) = fun m' => Text.sameName m'.name m.name :=
    funext fun m' => (sameName_congr h m'.name).1
  rw [Mnemonic.ofName?, hnames]
  exact ofName?_mnemonicName m

lemma modeOfName?_of_sameName {mode : Mode} (h : Text.sameName mode.name name = true) :
    Mode.ofName? name = some mode := by
  have hnames : (fun mode' : Mode => Text.sameName mode'.name name) =
      fun mode' => Text.sameName mode'.name mode.name := funext fun mode' => (sameName_congr h mode'.name).1
  rw [Mode.ofName?, hnames]
  exact ofName?_modeName mode

lemma directiveOfName?_of_sameName {d : Directive} (h : Text.sameName d.name name = true) :
    Text.sameName name "END" = false ∧ Text.sameName name "ALIGN" = false ∧
      directiveOfName? name = some d := by
  obtain ⟨hend, halign, hname⟩ := directiveOfName?_name d
  have hpoint : Text.sameName ("." ++ d.name) ("." ++ name) = true := by
    have heq : d.name.toList.map Char.toLower = name.toList.map Char.toLower := beq_iff_eq.1 h
    simp [Text.sameName, heq]
  have hnames : (fun d' : Directive => Text.sameName d'.spelling ("." ++ name)) =
      fun d' => Text.sameName d'.spelling ("." ++ d.name) :=
    funext fun d' => (sameName_congr hpoint d'.spelling).1
  refine ⟨(sameName_congr h _).2.trans hend, (sameName_congr h _).2.trans halign, ?_⟩
  rw [directiveOfName?, hnames]
  exact hname

lemma next_numericConstant (c : NumericConstant) (tokens : List Token) :
    next (c.token :: tokens) = ⟨[], .ok (c.token, tokens)⟩ := by
  cases c <;> rfl

/-- The mode of an instruction is the one that its line admits. -/
lemma instructionMode_of_admits {m : Mnemonic} {mode : Mode} {written : Option String}
    (h : (ConstantPlace.instruction m mode).Admits written) (hrest : ∀ t ∈ rest.head?, t.kind ≠ .mode) :
    instructionMode m (written.toList.map (Token.mk .mode) ++ rest) = ⟨[], .ok (mode, rest)⟩ := by
  cases written with
  | none =>
    obtain ⟨-, hrequired, rfl⟩ := h
    exact instructionMode_default hrequired hrest
  | some name =>
    obtain ⟨-, hallows, hname⟩ := h
    change instructionMode m (⟨.mode, name⟩ :: rest) = _
    rw [instructionMode, modeOfName?_of_sameName hname]
    exact if_pos hallows

lemma outcome_instruction {m : Mnemonic} {mode : Mode} {written : Option String}
    (hname : Text.sameName m.name name = true) (h : (ConstantPlace.instruction m mode).Admits written)
    (hrest : ∀ t ∈ rest.head?, t.kind ≠ .mode) :
    (instruction name (c.token :: (written.toList.map (Token.mk .mode) ++ rest))).outcome =
      (requireWord .operandExpected c.token).map fun operand => (.nonunary m mode operand, rest) := by
  have hunary : m.isUnary = false := by
    cases written with
    | none => exact h.1
    | some name => exact h.1
  have hoperand : instructionOperand c.token = .ofExcept (requireWord .operandExpected c.token) := by
    cases c <;> rfl
  rw [instruction, ofName?_of_sameName hname]
  simp only [hunary, Bool.false_eq_true, if_false]
  rw [next_numericConstant, Reading.outcome_ok_bind, hoperand, instructionMode_of_admits h hrest,
    Reading.outcome_bind]
  cases requireWord .operandExpected c.token <;> rfl

lemma outcome_directive {d : Directive} {x : Except LineError Operand}
    (hname : Text.sameName d.name name = true) (hd : d ∈ [Directive.word, .equate, .byte, .block])
    (hread : (directiveOperand label d c.token).outcome = x) :
    (directive ctx label name (c.token :: rest)).outcome =
      x.map fun operand => (.directive d operand, rest) := by
  obtain ⟨hend, halign, hdirective⟩ := directiveOfName?_of_sameName hname
  have hoperand : operandDirective ctx label d (c.token :: rest) =
      next (c.token :: rest) >>= fun read => directiveOperand label d read.1 >>= fun operand =>
        pure (.directive d operand, read.2) := by
    simp only [List.mem_cons, List.not_mem_nil, or_false] at hd
    rcases hd with rfl | rfl | rfl | rfl <;> rfl
  rw [directive, if_neg (by simp [hend]), if_neg (by simp [halign]), hdirective]
  simp only [hoperand, next_numericConstant, Reading.outcome_ok_bind]
  rw [Reading.outcome_bind, hread]
  cases x <;> rfl

lemma next_operation {token : Token} (hkind : token.kind = .identifier ∨ token.kind = .directive) :
    next (token :: rest) = ⟨[], .ok (token, rest)⟩ := by
  rcases hkind with h | h <;> simp only [next, h] <;> rfl

lemma outcome_line_of_operation {number : Nat} {token : Token}
    (hkind : token.kind = .identifier ∨ token.kind = .directive) :
    (line ctx number (token :: rest)).outcome = (lineFrom ctx number none token rest).outcome := by
  rw [line, next_operation hkind, Reading.outcome_ok_bind]
  rcases hkind with h | h <;> simp only [h]

lemma outcome_line_of_label {number : Nat} {token : Token}
    (hkind : token.kind = .identifier ∨ token.kind = .directive)
    (hname : name.utf8ByteSize ≤ maxSymbolLength) :
    (line ctx number (⟨.label, name⟩ :: token :: rest)).outcome =
      (lineFrom ctx number (some name) token rest).outcome := by
  have hlabel : next (⟨.label, name⟩ :: token :: rest) = ⟨[], .ok (⟨.label, name⟩, token :: rest)⟩ := rfl
  have hcheck : checkLength name = ⟨[], .ok ()⟩ := if_neg (Nat.not_lt.2 hname)
  have hfollows : followsLabel token = true := by rcases hkind with h | h <;> simp only [followsLabel, h]
  rw [line, hlabel, Reading.outcome_ok_bind]
  simp only [hcheck, Reading.leave, next_operation hkind, Reading.outcome_ok_bind, hfollows, if_true]

end Reader

namespace ConstantLine

variable {ctx : ReadContext} {number : Nat} {rest : List Token}

/-- The line as it is kept, with the operand that is made of the constant. -/
def line (l : ConstantLine) (number : Nat) (operand : Operand) : Line :=
  { statement := l.place.statement operand, number, label := l.label, comment := l.comment }

lemma outcome_statement (l : ConstantLine) (c : NumericConstant) (hrest : ∀ t ∈ rest.head?, t.kind ≠ .mode) :
    (Reader.statement ctx l.label (l.place.operationToken l.operation)
      (c.token :: (l.mode.toList.map (Token.mk .mode) ++ rest))).outcome =
        (l.place.read c.token).map fun operand => (l.place.statement operand, rest) := by
  obtain ⟨place, label, operation, mode, comment, -, hlabel, hname, hmode⟩ := l
  cases place with
  | instruction m mode' => exact Reader.outcome_instruction hname hmode hrest
  | word =>
    cases hmode
    exact Reader.outcome_directive (d := .word) hname (by decide) rfl
  | equate =>
    cases hmode
    obtain ⟨symbol, rfl⟩ := Option.isSome_iff_exists.1 (hlabel rfl)
    refine Reader.outcome_directive (d := .equate) hname (by decide) ?_
    change (Reader.equateOperand (some symbol) c.token).outcome = Reader.requireWord .equateArgument c.token
    rw [Reader.equateOperand, Reading.outcome_bind]
    cases h : Reader.requireWord .equateArgument c.token with
    | error e => rfl
    | ok operand => rfl
  | byte =>
    cases hmode
    exact Reader.outcome_directive (d := .byte) hname (by decide) rfl
  | block =>
    cases hmode
    exact Reader.outcome_directive (d := .block) hname (by decide) rfl

lemma outcome_lineFrom (l : ConstantLine) (c : NumericConstant) (ctx : ReadContext) (number : Nat) :
    (Reader.lineFrom ctx number l.label (l.place.operationToken l.operation)
      (c.token :: (l.mode.toList.map (Token.mk .mode) ++
        (l.comment.toList.map (Token.mk .comment) ++ [Token.lineEnd])))).outcome =
          (l.place.read c.token).map (l.line number) := by
  have hrest : ∀ t ∈ (l.comment.toList.map (Token.mk .comment) ++ [Token.lineEnd]).head?, t.kind ≠ .mode := by
    cases l.comment with
    | none => intro t ht; cases ht; nofun
    | some text => intro t ht; cases ht; nofun
  rw [Reader.lineFrom, Reading.outcome_bind, l.outcome_statement c hrest]
  cases l.place.read c.token with
  | error e => rfl
  | ok operand =>
    have hend : ∀ e, Reader.lineEnd e [Token.lineEnd] = ⟨[], .ok ()⟩ := fun _ => rfl
    change (Reader.lineEnd _ (Reader.takeComment _).2 >>= _).outcome = _
    rw [Reader.takeComment_tokens, hend]
    rfl

/-- A line with a constant is what is made of the constant in its place, and fails as that does. -/
lemma outcome_line (l : ConstantLine) (c : NumericConstant) :
    (Reader.line ctx number (l.tokens c)).outcome = (l.place.read c.token).map (l.line number) := by
  have hkind : (l.place.operationToken l.operation).kind = .identifier ∨
      (l.place.operationToken l.operation).kind = .directive := by
    cases l.place with
    | instruction => exact .inl rfl
    | _ => exact .inr rfl
  rw [← l.outcome_lineFrom c ctx number, tokens]
  cases hlabel : l.label with
  | none => exact Reader.outcome_line_of_operation hkind
  | some name => exact Reader.outcome_line_of_label hkind (l.label_le name hlabel)

end ConstantLine

/-! ### The assembly -/

namespace Program

/-- If the lines before one that cannot be read go on, then reading fails there. -/
lemma readLines_of_error {p : Program} {number : Nat} {before : List String} {source : String}
    {draft : Draft} {e : LineError} (rest : List String) (hbefore : ∀ r ∈ p.readings number before draft, r.GoesOn)
    (h : ∀ ctx number, (Reader.line ctx number (tokenize source)).outcome = .error e) :
    (p.readLines number (before ++ source :: rest) draft).2 = .error (number + before.length, e) := by
  induction before generalizing number draft with
  | nil =>
    rw [List.nil_append, readLines, h]
    rfl
  | cons first before ih =>
    rw [readings, List.flatMap_cons, Reader.line_append, List.forall_mem_cons] at hbefore
    obtain ⟨⟨line, hline, hgoes⟩, hbefore⟩ := hbefore
    have hlength : number + (first :: before).length = number + 1 + before.length := by
      rw [List.length_cons]
      omega
    rw [List.cons_append, readLines, hline]
    dsimp only
    rw [if_neg (by simpa using hgoes), hlength]
    have hrest := ih hbefore
    split
    next heq =>
      rw [heq] at hrest
      exact hrest
    next heq =>
      rw [heq] at hrest
      cases hrest

/-- If an instance has a line that cannot be read, and the lines before it go on, then the assembly
fails with the error of that line. -/
lemma Progress.failure_of_error {s : Progress} {id : Nat} {before rest : List String} {source : String}
    {e : LineError} (hsource : s.program.sourceOf id = before ++ source :: rest)
    (hbefore : ∀ r ∈ s.program.readings 0 before (s.draftFor id), r.GoesOn)
    (h : ∀ ctx number, (Reader.line ctx number (tokenize source)).outcome = .error e) :
    (s.assembleInstance id).failure =
      some ⟨(s.assembleInstance id).program.rootLineOf id before.length, .ofLine e⟩ := by
  have hread := readLines_of_error rest hbefore h
  rw [← hsource, Nat.zero_add] at hread
  exact (assembleInstance_of_error (Prod.ext rfl hread)).2.2

end Program

namespace ConstantPlace

/-- An operand that stands for a value which fits its place gives the line its meaning. -/
lemma means_of_standsFor {l : ConstantLine} {number : Nat} {operand : Operand} {v : Int} (hfits : l.place.Fits v)
    (h : operand.StandsFor v) : l.place.Means v (l.line number operand) := by
  refine ⟨operand, rfl, fun symbols table => ?_⟩
  have hvalue := h symbols table
  unfold ConstantLine.line
  cases hplace : l.place with
  | byte =>
    refine ⟨(operand.value symbols table).toUInt8, rfl, ?_⟩
    rw [UInt16.toNat_toUInt8]
    omega
  | block =>
    rw [hplace] at hfits
    have hv : ((operand.value symbols table).toNat : Int) = v := by
      obtain ⟨hmin, hmax⟩ := hfits
      simp only [low, high] at hmin hmax
      omega
    refine ⟨hv, ?_⟩
    change List.replicate (operand.value symbols table).toNat 0 = _
    rw [← hv, Int.toNat_natCast]
  | _ => exact hvalue

end ConstantPlace

/-! ### Tokens -/

lemma NumericConstant.derives (c : NumericConstant) : Lexer.Derives c.token c.text [] := by
  cases c with
  | decimal n => exact .decimal n
  | hexadecimal n => exact .hexadecimal n

lemma NumericConstant.isArgument_token (c : NumericConstant) : Reader.isArgument c.token = true := by
  cases c <;> rfl

lemma exists_numericConstant {line : String} {t : Token} (ht : t ∈ tokenize line)
    (hkind : t.kind = .decimal ∨ t.kind = .hexadecimal) : ∃ c : NumericConstant, c.token = t := by
  obtain ⟨w, rest, hderives⟩ : ∃ w rest, Lexer.Derives t w rest := by
    apply Lexer.derives_of_mem_tokenize ht
    · rcases hkind with h | h <;> simp [h]
    · rcases hkind with h | h <;> simp [h]
  cases hderives with
  | decimal n => exact ⟨.decimal n, rfl⟩
  | hexadecimal n => exact ⟨.hexadecimal n, rfl⟩
  | _ => rcases hkind with h | h <;> cases h

/-- Every decimal or hexadecimal token of a line is a numeric constant, and every numeric constant
is a token.  Where it stands in its place, the line is read if the value fits, and then stands for
the value; otherwise the assembly of an instance that gets to the line fails with the error for the
range. -/
theorem numericConstant_means_value :
    (∀ (line : String) (t : Token), t ∈ tokenize line → t.kind = .decimal ∨ t.kind = .hexadecimal →
      ∃ c : NumericConstant, c.token = t) ∧
    (∀ c : NumericConstant, tokenize (String.ofList c.text) = [c.token, Token.lineEnd]) ∧
    ∀ (l : ConstantLine) (c : NumericConstant) (source : String), tokenize source = l.tokens c →
      (l.place.Fits c.value → ∀ ctx number, ∃ line,
        (Reader.line ctx number (tokenize source)).outcome = .ok line ∧ l.place.Means c.value line) ∧
      (¬l.place.Fits c.value → ∀ (s : Program.Progress) (id : Nat) (before rest : List String),
        s.program.sourceOf id = before ++ source :: rest →
        (∀ r ∈ s.program.readings 0 before (s.draftFor id), r.GoesOn) →
        (s.assembleInstance id).failure =
          some ⟨(s.assembleInstance id).program.rootLineOf id before.length, .ofLine (l.place.rangeError c)⟩) := by
  refine ⟨fun line t => exists_numericConstant, fun c => ?_, fun l c source htokens => ?_⟩
  · exact (c.derives.spells c.isArgument_token).tokenize_eq
  · obtain ⟨hok, herror⟩ := l.place.readsWithin c
    refine ⟨fun hfits ctx number => ?_, fun hfits s id before rest hsource hbefore => ?_⟩
    · obtain ⟨operand, hread, hstands⟩ := hok hfits
      refine ⟨l.line number operand, ?_, ConstantPlace.means_of_standsFor hfits hstands⟩
      rw [htokens, l.outcome_line, hread]
      rfl
    · refine Program.Progress.failure_of_error hsource hbefore fun ctx number => ?_
      rw [htokens, l.outcome_line, herror hfits]
      rfl

/-- The least word, with a leading zero. -/
def leastWord : NumericConstant := .decimal ⟨.minus, [0, 3, 2, 7, 6, 8], by decide⟩

/-- The first number that is no byte. -/
def firstOverflow : NumericConstant := .hexadecimal ⟨true, [.digit 0, .digit 1, .digit 0, .digit 0], by decide⟩

/-- The line of a load. -/
def loadLine : ConstantLine where
  place := .instruction .ldwa .stackDeferredIndexed
  label := some "x"
  operation := "ldWA"
  mode := some "SFx"
  comment := some ";least"
  label_le name h := by cases h; decide
  label_of_equate := nofun
  sameName_operation := by decide
  admits_mode := ⟨by decide, by decide, by decide⟩

/-- The line of a `.BYTE`. -/
def byteLine : ConstantLine where
  place := .byte
  label := none
  operation := "byte"
  mode := none
  comment := none
  label_le := nofun
  label_of_equate := nofun
  sameName_operation := by decide
  admits_mode := rfl

/-- A program with both lines. -/
def overflowProgram : Program :=
  .ofSource "x: ldWA -032768 , SFx;least\n.byte 0X0100\n.END" .userProgram

theorem numericConstant_means_value_overflow :
    tokenize "x: ldWA -032768 , SFx;least" = loadLine.tokens leastWord ∧
      loadLine.place.Fits leastWord.value ∧
      tokenize ".byte 0X0100" = byteLine.tokens firstOverflow ∧ ¬byteLine.place.Fits firstOverflow.value ∧
      (∃ line, (Reader.line (overflowProgram.readContext {}) 0
          (tokenize "x: ldWA -032768 , SFx;least")).outcome = .ok line ∧
        loadLine.place.Means leastWord.value line) ∧
      (Program.Progress.assembleInstance ⟨overflowProgram, {}, [], none⟩ Program.root).failure =
        some ⟨1, .ofLine .byteHexRange⟩ := by
  have hload : tokenize "x: ldWA -032768 , SFx;least" = loadLine.tokens leastWord := by decide +kernel
  have hbyte : tokenize ".byte 0X0100" = byteLine.tokens firstOverflow := by decide +kernel
  have hfits : loadLine.place.Fits leastWord.value := ⟨by decide, by decide⟩
  have hout : ¬byteLine.place.Fits firstOverflow.value := fun h => absurd h.2 (by decide)
  have hsource : overflowProgram.sourceOf Program.root =
      ["x: ldWA -032768 , SFx;least"] ++ [".byte 0X0100", ".END"] := by decide +kernel
  obtain ⟨-, -, hconstant⟩ := numericConstant_means_value
  have hread := (hconstant loadLine leastWord _ hload).1 hfits (overflowProgram.readContext {}) 0
  refine ⟨hload, hfits, hbyte, hout, hread, ?_⟩
  obtain ⟨line, hline, operand, hstatement, -⟩ := hread
  refine ((hconstant byteLine firstOverflow _ hbyte).2 hout ⟨overflowProgram, {}, [], none⟩ Program.root _ _ hsource
    (List.forall_mem_singleton.2 ⟨line, ?_, ?_⟩)).trans ?_
  · rw [List.flatMap_singleton]
    exact hline
  · rw [hstatement]
    nofun
  · decide +kernel

end Pep10
