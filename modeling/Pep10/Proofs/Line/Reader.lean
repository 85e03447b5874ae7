import Mathlib.Tactic.Common
import Pep10.Proofs.Line.Layout
import Pep10.Proofs.Symbol.Declaration
import Pep10.Line.Reader

/-!
# What a line is when it has been read

A reading that succeeds is taken apart step by step, and every step tells what it contributes: the
marks are those that can be read off the line, `.BLOCK` and `.ALIGN` have the operands that they may
have, and a call is bound to the instance that the context gives for it.
-/

namespace Pep10

/-! ### Readings that succeed -/

namespace Reading

variable {α β : Type} {marks : List Mark} {a b : α}

/-- A sequence of readings succeeds if both parts do; its marks are theirs. -/
lemma bind_eq_ok {r : Reading α} {f : α → Reading β} {b : β} :
    (r >>= f) = ⟨marks, .ok b⟩ ↔
      ∃ m₁ a m₂, r = ⟨m₁, .ok a⟩ ∧ f a = ⟨m₂, .ok b⟩ ∧ marks = m₁ ++ m₂ := by
  obtain ⟨m, outcome⟩ := r
  change andThen ⟨m, outcome⟩ f = _ ↔ _
  cases outcome with
  | error e => simp [andThen]
  | ok a =>
    constructor
    · intro h
      simp only [andThen, Reading.mk.injEq] at h
      refine ⟨m, a, (f a).marks, rfl, ?_, h.1.symm⟩
      rw [← h.2]
    · rintro ⟨m₁, a', m₂, h, hf, rfl⟩
      cases h
      simp [andThen, hf]

@[simp] lemma done_eq_ok : done a = ⟨marks, .ok b⟩ ↔ marks = [] ∧ a = b := by
  simp [done, eq_comm]

@[simp] lemma pure_eq_ok : (pure a : Reading α) = ⟨marks, .ok b⟩ ↔ marks = [] ∧ a = b :=
  done_eq_ok

@[simp] lemma fail_ne_ok {e : LineError} : (fail e : Reading α) ≠ ⟨marks, .ok b⟩ := by
  simp [fail]

@[simp] lemma leave_eq_ok {m : Mark} {u : Unit} : leave m = ⟨marks, .ok u⟩ ↔ marks = [m] := by
  simp [leave, eq_comm]

@[simp] lemma ofExcept_eq_ok {x : Except LineError α} :
    ofExcept x = ⟨marks, .ok b⟩ ↔ marks = [] ∧ x = .ok b := by
  simp [ofExcept, eq_comm]

end Reading

namespace Reader

variable {ctx : ReadContext} {token : Token} {tokens rest : List Token} {marks : List Mark}
  {label : Option String} {operand : Operand} {s : Statement} {name : String}

/-! ### Tokens and symbols -/

lemma next_eq_ok (h : next tokens = ⟨marks, .ok (token, rest)⟩) :
    tokens = token :: rest ∧ marks = [] := by
  unfold next at h
  split at h
  · cases h
  · split at h
    · cases h
    · simp only [Reading.done_eq_ok, Prod.mk.injEq] at h
      obtain ⟨rfl, rfl, rfl⟩ := h
      exact ⟨rfl, rfl⟩

lemma lineEnd_eq_ok {e : LineError} {u : Unit} (h : lineEnd e tokens = ⟨marks, .ok u⟩) :
    marks = [] := by
  obtain ⟨m₁, ⟨token, rest⟩, m₂, hnext, hend, rfl⟩ := Reading.bind_eq_ok.1 h
  obtain ⟨-, rfl⟩ := next_eq_ok hnext
  dsimp only at hend
  split at hend
  · simpa using hend
  · cases hend

lemma checkLength_eq_ok {u : Unit} (h : checkLength name = ⟨marks, .ok u⟩) : marks = [] := by
  unfold checkLength at h
  split at h
  · cases h
  · simpa using h

/-- Using a symbol mentions it. -/
lemma useSymbol_eq_ok (h : useSymbol name = ⟨marks, .ok operand⟩) :
    operand = .symbol name ∧ marks = [.mention name] := by
  obtain ⟨m₁, u, m₂, hlen, hrest, rfl⟩ := Reading.bind_eq_ok.1 h
  obtain ⟨m₃, u', m₄, hleave, hpure, rfl⟩ := Reading.bind_eq_ok.1 hrest
  obtain rfl := checkLength_eq_ok hlen
  obtain rfl := Reading.leave_eq_ok.1 hleave
  obtain ⟨rfl, rfl⟩ := Reading.pure_eq_ok.1 hpure
  exact ⟨rfl, rfl⟩

/-! ### Constants are no symbols -/

lemma symbol?_decimalOperand {low high : Int} {e : LineError} {text : String}
    (h : decimalOperand low high e text = .ok operand) : operand.symbol? = none := by
  unfold decimalOperand at h
  dsimp only at h
  split at h
  · cases h; rfl
  · split at h
    · cases h; rfl
    · cases h

lemma symbol?_hex {text : String} (h : (hexValue text).map Operand.hex = .ok operand) :
    operand.symbol? = none := by
  cases hv : hexValue text with
  | error e => rw [hv] at h; cases h
  | ok v => rw [hv] at h; cases h; rfl

lemma symbol?_wordConstant (h : wordConstant token = .ok (some operand)) :
    operand.symbol? = none := by
  unfold wordConstant at h
  split at h
  · cases h; rfl
  · cases hd : decimalOperand (-0x8000) 0xFFFF .decimalRange token.text with
    | error e => rw [hd] at h; cases h
    | ok o =>
      rw [hd] at h
      cases h
      exact symbol?_decimalOperand hd
  · cases hv : hexValue token.text with
    | error e => rw [hv] at h; cases h
    | ok v => rw [hv] at h; cases h; rfl
  · split at h
    · cases h
    · cases h; rfl
  · cases h

lemma symbol?_requireWord {e : LineError} (h : requireWord e token = .ok operand) :
    operand.symbol? = none := by
  unfold requireWord at h
  split at h
  · cases h
  · cases h
  · next o ho =>
    cases h
    exact symbol?_wordConstant ho

lemma symbol?_blockOperand (h : blockOperand token = .ok operand) : operand.symbol? = none := by
  unfold blockOperand at h
  split at h
  · exact symbol?_decimalOperand h
  · exact symbol?_hex h
  · cases h

lemma symbol?_byteOperand (h : byteOperand token = .ok operand) : operand.symbol? = none := by
  unfold byteOperand at h
  split at h
  · cases h; rfl
  · exact symbol?_decimalOperand h
  · split at h
    · split at h
      · cases h; rfl
      · cases h
    · cases h
  · split at h
    · cases h; rfl
    · cases h
  · cases h

lemma symbol?_burnOperand (h : burnOperand token = .ok operand) : operand.symbol? = none := by
  unfold burnOperand at h
  split at h
  · exact symbol?_hex h
  · cases h

lemma symbol?_asciiOperand (h : asciiOperand token = .ok operand) : operand.symbol? = none := by
  unfold asciiOperand at h
  split at h
  · cases h; rfl
  · cases h

/-- `.ALIGN` takes one of the numbers that it may. -/
lemma alignOperand_eq_ok (h : alignOperand token = .ok operand) :
    ∃ n, IsAlignment n ∧ operand = .unsigned n := by
  unfold alignOperand at h
  dsimp only at h
  split at h
  · next hv =>
    simp only [Bool.and_eq_true, Bool.or_eq_true, beq_iff_eq] at hv
    cases h
    refine ⟨_, ?_, rfl⟩
    rcases hv.2 with (h2 | h4) | h8
    · rw [h2]; exact .inl rfl
    · rw [h4]; exact .inr (.inl rfl)
    · rw [h8]; exact .inr (.inr rfl)
  · cases h

/-! ### Statements -/

/-- What reading a statement guarantees, given its label and the marks that have been left. -/
structure Reads (ctx : ReadContext) (label : Option String) (marks : List Mark) (s : Statement) :
    Prop where
  marks_eq : marks = s.symbol?.toList.map .mention ++ s.directiveMarks label
  regular : s.Regular
  addressable : s.isAddressable = true
  labelled : s.isEquate = true → label.isSome = true
  unlabelled : s = .endMark → label = none
  noBurn : ctx.isSystem = false → s.isBurn = false

lemma instructionOperand_eq_ok (h : instructionOperand token = ⟨marks, .ok operand⟩) :
    marks = operand.symbol?.toList.map .mention := by
  unfold instructionOperand at h
  split at h
  · obtain ⟨rfl, rfl⟩ := useSymbol_eq_ok h
    rfl
  · cases h
  · obtain ⟨rfl, hword⟩ := Reading.ofExcept_eq_ok.1 h
    simp [symbol?_requireWord hword]

lemma instructionMode_eq_ok {mnemonic : Mnemonic} {r : Mode × List Token}
    (h : instructionMode mnemonic tokens = ⟨marks, .ok r⟩) : marks = [] := by
  unfold instructionMode at h
  split at h
  · split at h
    · cases h
    · split at h
      · exact (Reading.done_eq_ok.1 h).1
      · cases h
  · split at h
    · cases h
    · exact (Reading.done_eq_ok.1 h).1

/-- An instruction mentions its operand and does nothing else. -/
lemma instruction_reads (h : instruction name tokens = ⟨marks, .ok (s, rest)⟩) :
    Reads ctx label marks s ∧ s.target? = none := by
  unfold instruction at h
  split at h
  · cases h
  · split at h
    · obtain ⟨rfl, heq⟩ := Reading.done_eq_ok.1 h
      cases heq
      exact ⟨⟨rfl, trivial, rfl, nofun, nofun, fun _ => rfl⟩, rfl⟩
    · obtain ⟨m₁, ⟨token, rest₁⟩, m₂, hnext, hrest, rfl⟩ := Reading.bind_eq_ok.1 h
      obtain ⟨m₃, operand, m₄, hoperand, hmode, rfl⟩ := Reading.bind_eq_ok.1 hrest
      obtain ⟨m₅, ⟨mode, rest₂⟩, m₆, hm, hpure, rfl⟩ := Reading.bind_eq_ok.1 hmode
      obtain ⟨-, rfl⟩ := next_eq_ok hnext
      obtain rfl := instructionMode_eq_ok hm
      obtain ⟨rfl, heq⟩ := Reading.pure_eq_ok.1 hpure
      cases heq
      refine ⟨⟨?_, trivial, rfl, nofun, nofun, fun _ => rfl⟩, rfl⟩
      rw [instructionOperand_eq_ok hoperand]
      simp [Statement.symbol?, Statement.operand?, Statement.directiveMarks]

/-- The directives with a constant operand leave no marks. -/
lemma reads_constant {d : Directive} (hsym : operand.symbol? = none) (hd : d ≠ .equate)
    (hburn : d = .burn → ctx.isSystem = true) :
    Reads ctx label [] (.directive d operand) := by
  have hnone : (Statement.directive d operand).symbol? = none := hsym
  refine ⟨?_, ?_, by cases d <;> rfl, ?_, nofun, ?_⟩
  · rw [hnone]
    cases d <;> cases operand <;>
      first | rfl | exact absurd rfl hd | cases hsym
  · cases d <;> trivial
  · intro h
    cases d <;> first | exact absurd rfl hd | cases h
  · intro h
    cases d <;> first | rfl | exact absurd (hburn rfl) (by simp [h])

/-- The directives with one operand, where they are not about symbols of the operating system. -/
lemma directiveOperand_reads {d : Directive} (hburn : d = .burn → ctx.isSystem = true)
    (h : directiveOperand label d token = ⟨marks, .ok operand⟩) :
    Reads ctx label marks (.directive d operand) := by
  cases d with
  | addrss =>
    change addrssOperand token = _ at h
    unfold addrssOperand at h
    split at h
    · obtain ⟨rfl, rfl⟩ := useSymbol_eq_ok h
      exact ⟨rfl, trivial, rfl, nofun, nofun, fun _ => rfl⟩
    · cases h
  | ascii =>
    obtain ⟨rfl, hoperand⟩ := Reading.ofExcept_eq_ok.1 h
    exact reads_constant (symbol?_asciiOperand hoperand) nofun hburn
  | block =>
    obtain ⟨rfl, hoperand⟩ := Reading.ofExcept_eq_ok.1 h
    exact reads_constant (symbol?_blockOperand hoperand) nofun hburn
  | burn =>
    obtain ⟨rfl, hoperand⟩ := Reading.ofExcept_eq_ok.1 h
    exact reads_constant (symbol?_burnOperand hoperand) nofun hburn
  | byte =>
    obtain ⟨rfl, hoperand⟩ := Reading.ofExcept_eq_ok.1 h
    exact reads_constant (symbol?_byteOperand hoperand) nofun hburn
  | equate =>
    change equateOperand label token = _ at h
    unfold equateOperand at h
    split at h
    · cases h
    · obtain ⟨m₁, operand', m₂, hconst, hrest, rfl⟩ := Reading.bind_eq_ok.1 h
      obtain ⟨m₃, u, m₄, hleave, hpure, rfl⟩ := Reading.bind_eq_ok.1 hrest
      obtain ⟨rfl, hword⟩ := Reading.ofExcept_eq_ok.1 hconst
      obtain rfl := Reading.leave_eq_ok.1 hleave
      obtain ⟨rfl, rfl⟩ := Reading.pure_eq_ok.1 hpure
      refine ⟨?_, trivial, rfl, fun _ => rfl, nofun, fun _ => rfl⟩
      simp [Statement.symbol?, Statement.operand?, symbol?_requireWord hword,
        Statement.directiveMarks]
  | word =>
    obtain ⟨rfl, hoperand⟩ := Reading.ofExcept_eq_ok.1 h
    exact reads_constant (symbol?_requireWord hoperand) nofun hburn
  | publish => cases h
  | scall => cases h
  | uscall => cases h

/-- The directives about symbols of the operating system. -/
lemma systemSymbol_reads {d : Directive} (hd : d = .publish ∨ d = .scall ∨ d = .uscall)
    (h : systemSymbol ctx label d tokens = ⟨marks, .ok (s, rest)⟩) :
    Reads ctx label marks s ∧ s.target? = none := by
  unfold systemSymbol at h
  split at h
  · cases h
  split at h
  · cases h
  obtain ⟨m₁, ⟨token, rest₁⟩, m₂, hnext, hrest, rfl⟩ := Reading.bind_eq_ok.1 h
  obtain ⟨-, rfl⟩ := next_eq_ok hnext
  dsimp only at hrest
  split at hrest
  · cases hrest
  obtain ⟨m₃, operand, m₄, huse, hthen, rfl⟩ := Reading.bind_eq_ok.1 hrest
  obtain ⟨m₅, u, m₆, hleave, hlast, rfl⟩ := Reading.bind_eq_ok.1 hthen
  obtain ⟨m₇, u', m₈, hoffer, hpure, rfl⟩ := Reading.bind_eq_ok.1 hlast
  obtain ⟨rfl, rfl⟩ := useSymbol_eq_ok huse
  obtain rfl := Reading.leave_eq_ok.1 hleave
  obtain ⟨rfl, heq⟩ := Reading.pure_eq_ok.1 hpure
  cases heq
  rcases hd with rfl | rfl | rfl
  · obtain ⟨rfl, -⟩ := Reading.done_eq_ok.1 hoffer
    exact ⟨⟨rfl, trivial, rfl, nofun, nofun, fun _ => rfl⟩, rfl⟩
  all_goals
    simp only [offer, offeredCall] at hoffer
    split at hoffer
    · cases hoffer
    · obtain rfl := Reading.leave_eq_ok.1 hoffer
      exact ⟨⟨rfl, trivial, rfl, nofun, nofun, fun _ => rfl⟩, rfl⟩

lemma operandDirective_reads {d : Directive}
    (h : operandDirective ctx label d tokens = ⟨marks, .ok (s, rest)⟩) :
    Reads ctx label marks s ∧ s.target? = none := by
  unfold operandDirective at h
  split at h
  · exact systemSymbol_reads (.inl rfl) h
  · exact systemSymbol_reads (.inr (.inl rfl)) h
  · exact systemSymbol_reads (.inr (.inr rfl)) h
  · split at h
    · cases h
    · next hburn =>
      obtain ⟨m₁, ⟨token, rest₁⟩, m₂, hnext, hrest, rfl⟩ := Reading.bind_eq_ok.1 h
      obtain ⟨m₃, operand, m₄, hoperand, hpure, rfl⟩ := Reading.bind_eq_ok.1 hrest
      obtain ⟨-, rfl⟩ := next_eq_ok hnext
      obtain ⟨rfl, heq⟩ := Reading.pure_eq_ok.1 hpure
      cases heq
      have hreads : Reads ctx label m₃ (.directive d operand) :=
        directiveOperand_reads (by rintro rfl; simpa using hburn) hoperand
      rw [List.nil_append, List.append_nil]
      exact ⟨hreads, rfl⟩

lemma directive_reads (h : directive ctx label name tokens = ⟨marks, .ok (s, rest)⟩) :
    Reads ctx label marks s ∧ s.target? = none := by
  unfold directive at h
  split at h
  · split at h
    · cases h
    · next hlabel =>
      obtain ⟨rfl, heq⟩ := Reading.done_eq_ok.1 h
      cases heq
      exact ⟨⟨rfl, trivial, rfl, nofun, fun _ => by simpa using hlabel, fun _ => rfl⟩, rfl⟩
  · split at h
    · obtain ⟨m₁, ⟨token, rest₁⟩, m₂, hnext, hrest, rfl⟩ := Reading.bind_eq_ok.1 h
      obtain ⟨m₃, operand, m₄, hread, hpure, rfl⟩ := Reading.bind_eq_ok.1 hrest
      obtain ⟨-, rfl⟩ := next_eq_ok hnext
      obtain ⟨rfl, halign⟩ := Reading.ofExcept_eq_ok.1 hread
      obtain ⟨rfl, heq⟩ := Reading.pure_eq_ok.1 hpure
      cases heq
      obtain ⟨n, hn, rfl⟩ := alignOperand_eq_ok halign
      exact ⟨⟨rfl, ⟨n, hn, rfl⟩, rfl, nofun, nofun, fun _ => rfl⟩, rfl⟩
    · split at h
      · exact operandDirective_reads h
      · obtain ⟨m₁, r, m₂, -, hfail, -⟩ := Reading.bind_eq_ok.1 h
        cases hfail

/-- The arguments that are read behind the name of a macro. -/
def argumentsOf (tokens : List Token) : List String :=
  (tokens.takeWhile isArgument).map Token.text

/-- A call is bound to the instance that the context gives for the macro and the arguments. -/
lemma call_eq_ok (h : call ctx name tokens = ⟨marks, .ok (s, rest)⟩) :
    marks = [] ∧ ∃ m target, ctx.library.get? name = some m ∧
      ctx.instance? m.name (argumentsOf tokens) = some target ∧
      s = .call m.name (argumentsOf tokens) target := by
  unfold call at h
  dsimp only at h
  split at h
  · cases h
  · obtain ⟨m₁, statement, m₂, hbound, hpure, rfl⟩ := Reading.bind_eq_ok.1 h
    obtain ⟨rfl, hbound⟩ := Reading.ofExcept_eq_ok.1 hbound
    obtain ⟨rfl, heq⟩ := Reading.pure_eq_ok.1 hpure
    cases heq
    refine ⟨rfl, ?_⟩
    unfold boundCall at hbound
    split at hbound
    · cases hbound
    · next m hm =>
      split at hbound
      · cases hbound
      · split at hbound
        · cases hbound
        · next target ht =>
          cases hbound
          exact ⟨m, target, hm, ht, rfl⟩

/-- A call takes the tokens that can be arguments. -/
lemma call_rest {name : String} (h : call ctx name tokens = ⟨marks, .ok (s, rest)⟩) :
    rest = tokens.dropWhile isArgument := by
  unfold call at h
  dsimp only at h
  split at h
  · cases h
  · obtain ⟨m₁, statement, m₂, -, hpure, -⟩ := Reading.bind_eq_ok.1 h
    obtain ⟨-, heq⟩ := Reading.pure_eq_ok.1 hpure
    cases heq
    rfl

lemma statement_reads (h : statement ctx label token tokens = ⟨marks, .ok (s, rest)⟩) :
    Reads ctx label marks s := by
  unfold statement at h
  split at h
  · exact (instruction_reads h).1
  · exact (directive_reads h).1
  · obtain ⟨rfl, m, target, -, -, rfl⟩ := call_eq_ok h
    exact ⟨rfl, trivial, rfl, nofun, nofun, fun _ => rfl⟩
  · cases h
  · cases h

/-- Only a call token begins a call. -/
lemma statement_target {target : Nat}
    (h : statement ctx label token tokens = ⟨marks, .ok (s, rest)⟩)
    (ht : s.target? = some target) :
    token.kind = .call ∧ ∃ m, ctx.library.get? token.text = some m ∧
      ctx.instance? m.name (argumentsOf tokens) = some target ∧
      s = .call m.name (argumentsOf tokens) target := by
  unfold statement at h
  split at h
  · have hreads : Reads ctx label marks s ∧ s.target? = none := instruction_reads h
    rw [hreads.2] at ht
    cases ht
  · rw [(directive_reads h).2] at ht
    cases ht
  · next hkind =>
    obtain ⟨rfl, m, target', hm, hi, rfl⟩ := call_eq_ok h
    cases ht
    exact ⟨hkind, m, hm, hi, rfl⟩
  · cases h
  · cases h

/-! ### Lines -/

/-- What reading a line guarantees of it. -/
structure Yields (ctx : ReadContext) (number : Nat) (marks : List Mark) (l : Line) : Prop where
  marks_eq : marks = l.marks
  number_eq : l.number = number
  address_eq : l.address = none
  emits_eq : l.emits = true
  regular : l.statement.Regular
  addressable : l.label.isSome = true → l.statement.isAddressable = true
  labelled : l.statement.isEquate = true → l.label.isSome = true
  unlabelled : l.statement = .endMark → l.label = none
  noBurn : ctx.isSystem = false → l.statement.isBurn = false

variable {number : Nat} {l : Line}

/-- The line that is made of a label, a statement and a comment. -/
lemma lineFrom_eq_ok (h : lineFrom ctx number label token tokens = ⟨marks, .ok l⟩) :
    ∃ s rest, statement ctx label token tokens = ⟨marks, .ok (s, rest)⟩ ∧
      l = { statement := s, number, label, comment := (takeComment rest).1 } := by
  obtain ⟨m₁, ⟨s, rest⟩, m₂, hs, hthen, rfl⟩ := Reading.bind_eq_ok.1 h
  obtain ⟨m₃, u, m₄, hend, hpure, rfl⟩ := Reading.bind_eq_ok.1 hthen
  obtain rfl := lineEnd_eq_ok hend
  obtain ⟨rfl, rfl⟩ := Reading.pure_eq_ok.1 hpure
  exact ⟨s, rest, by simpa using hs, rfl⟩

lemma lineFrom_yields {m : List Mark} (hm : m = label.toList.map .declare)
    (h : lineFrom ctx number label token tokens = ⟨marks, .ok l⟩) :
    Yields ctx number (m ++ marks) l ∧ l.label = label := by
  obtain ⟨s, rest, hs, rfl⟩ := lineFrom_eq_ok h
  have hr := statement_reads hs
  refine ⟨⟨?_, rfl, rfl, rfl, hr.regular, fun _ => hr.addressable, hr.labelled, hr.unlabelled,
    hr.noBurn⟩, rfl⟩
  rw [hm, hr.marks_eq]
  rfl

/-- A line with a label starts with the label, and goes on behind it. -/
lemma line_label_eq_ok (hkind : token.kind = .label)
    (h : line ctx number (token :: tokens) = ⟨marks, .ok l⟩) :
    ∃ second rest m, tokens = second :: rest ∧ marks = .declare token.text :: m ∧
      lineFrom ctx number (some token.text) second rest = ⟨m, .ok l⟩ := by
  obtain ⟨m₁, ⟨token', rest⟩, m₂, hnext, hthen, rfl⟩ := Reading.bind_eq_ok.1 h
  obtain ⟨heq, rfl⟩ := next_eq_ok hnext
  cases heq
  simp only [hkind] at hthen
  obtain ⟨m₃, u, m₄, hlen, hmark, rfl⟩ := Reading.bind_eq_ok.1 hthen
  obtain ⟨m₅, u', m₆, hleave, hsecond, rfl⟩ := Reading.bind_eq_ok.1 hmark
  obtain ⟨m₇, ⟨second, rest⟩, m₈, hnext', hfrom, rfl⟩ := Reading.bind_eq_ok.1 hsecond
  obtain rfl := checkLength_eq_ok hlen
  obtain rfl := Reading.leave_eq_ok.1 hleave
  obtain ⟨rfl, rfl⟩ := next_eq_ok hnext'
  dsimp only at hfrom
  split at hfrom
  · exact ⟨second, rest, m₈, rfl, rfl, hfrom⟩
  · cases hfrom

/-- Every line that is read is a blank one, a comment, or a statement with or without a label. -/
lemma line_yields (h : line ctx number tokens = ⟨marks, .ok l⟩) : Yields ctx number marks l := by
  obtain ⟨m₁, ⟨token, rest⟩, m₂, hnext, hthen, rfl⟩ := Reading.bind_eq_ok.1 h
  obtain ⟨rfl, rfl⟩ := next_eq_ok hnext
  dsimp only at hthen
  split at hthen
  · obtain ⟨rfl, rfl⟩ := Reading.pure_eq_ok.1 hthen
    exact ⟨rfl, rfl, rfl, rfl, trivial, nofun, nofun, nofun, fun _ => rfl⟩
  · obtain ⟨m₃, u, m₄, hend, hpure, rfl⟩ := Reading.bind_eq_ok.1 hthen
    obtain rfl := lineEnd_eq_ok hend
    obtain ⟨rfl, rfl⟩ := Reading.pure_eq_ok.1 hpure
    exact ⟨rfl, rfl, rfl, rfl, trivial, nofun, nofun, nofun, fun _ => rfl⟩
  · next hkind =>
    obtain ⟨second, rest', m, rfl, hm, hfrom⟩ := line_label_eq_ok hkind h
    rw [hm]
    exact (lineFrom_yields (m := [.declare token.text]) rfl hfrom).1
  · exact (lineFrom_yields (m := []) rfl hthen).1

/-- A line with a call has a call token in front, or behind its label. -/
lemma line_target {target : Nat} (h : line ctx number tokens = ⟨marks, .ok l⟩)
    (ht : l.statement.target? = some target) :
    ∃ token rest m, token.kind = .call ∧
      (tokens = token :: rest ∨
        ∃ first, first.kind = .label ∧ tokens = first :: token :: rest) ∧
      ctx.library.get? token.text = some m ∧
      ctx.instance? m.name (argumentsOf rest) = some target ∧
      l.statement = .call m.name (argumentsOf rest) target := by
  obtain ⟨m₁, ⟨token, rest⟩, m₂, hnext, hthen, rfl⟩ := Reading.bind_eq_ok.1 h
  obtain ⟨rfl, rfl⟩ := next_eq_ok hnext
  dsimp only at hthen
  split at hthen
  · obtain ⟨-, rfl⟩ := Reading.pure_eq_ok.1 hthen
    cases ht
  · obtain ⟨m₃, u, m₄, -, hpure, -⟩ := Reading.bind_eq_ok.1 hthen
    obtain ⟨-, rfl⟩ := Reading.pure_eq_ok.1 hpure
    cases ht
  · next hkind =>
    obtain ⟨second, rest', m, rfl, -, hfrom⟩ := line_label_eq_ok hkind h
    obtain ⟨s, rest'', hs, rfl⟩ := lineFrom_eq_ok hfrom
    obtain ⟨hcall, m, hm, hi, heq⟩ := statement_target hs ht
    exact ⟨second, rest', m, hcall, .inr ⟨token, hkind, rfl⟩, hm, hi, heq⟩
  · obtain ⟨s, rest'', hs, rfl⟩ := lineFrom_eq_ok hthen
    obtain ⟨hcall, m, hm, hi, heq⟩ := statement_target hs ht
    exact ⟨token, rest, m, hcall, .inl rfl, hm, hi, heq⟩

end Reader

end Pep10
