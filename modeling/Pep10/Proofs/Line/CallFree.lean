import Pep10.Proofs.Line.Reader
import Pep10.Proofs.Macro.Arguments
import Pep10.Proofs.Token.Calls
import Pep10.Proofs.Token.Spelling

/-!
# Lines without a call

A line of a user program that is no call is read from its text alone: neither the library nor the
instances of the program matter, and another number does no harm (`line_congr`).  All tokens of such
a line are used up by its parts, so that there is no call among them, and the search for macro calls
finds none in its text (`ofLine?_of_line`).

A marker is a line of this kind that does nothing but declare its label: `x: .BLOCK 0`.
-/

namespace Pep10

namespace Reader

variable {ctx ctx' : ReadContext} {token : Token} {tokens rest : List Token} {marks : List Mark}
  {label : Option String} {operand : Operand} {s : Statement} {name : String} {number number' : Nat}
  {l : Line}

/-! ### Reading in another program -/

/-- In user programs directives consult nothing. -/
lemma directive_congr (h : ctx.isSystem = false) (h' : ctx'.isSystem = false) :
    directive ctx label name tokens = directive ctx' label name tokens := by
  have hoperand : ∀ d, operandDirective ctx label d tokens = operandDirective ctx' label d tokens := by
    intro d
    cases d <;> simp [operandDirective, systemSymbol, h, h']
  unfold directive
  simp only [hoperand]

lemma statement_congr (h : ctx.isSystem = false) (h' : ctx'.isSystem = false)
    (hs : statement ctx label token tokens = ⟨marks, .ok (s, rest)⟩) (htarget : s.target? = none) :
    statement ctx' label token tokens = ⟨marks, .ok (s, rest)⟩ := by
  unfold statement at hs ⊢
  split at hs
  · exact hs
  · rwa [directive_congr h' h]
  · obtain ⟨-, m, target, -, -, rfl⟩ := call_eq_ok hs
    cases htarget
  · cases hs
  · cases hs

section

variable {P : Statement → Prop}
  (hstatement : ∀ {label token tokens marks s rest},
    statement ctx label token tokens = ⟨marks, .ok (s, rest)⟩ → P s →
      statement ctx' label token tokens = ⟨marks, .ok (s, rest)⟩)

include hstatement

lemma lineFrom_of_statement (hl : lineFrom ctx number label token tokens = ⟨marks, .ok l⟩)
    (hP : P l.statement) :
    lineFrom ctx' number' label token tokens = ⟨marks, .ok { l with number := number' }⟩ := by
  obtain ⟨m₁, ⟨s, rest⟩, m₂, hs, hthen, rfl⟩ := Reading.bind_eq_ok.1 hl
  obtain ⟨m₃, u, m₄, hend, hpure, rfl⟩ := Reading.bind_eq_ok.1 hthen
  obtain ⟨rfl, rfl⟩ := Reading.pure_eq_ok.1 hpure
  refine Reading.bind_eq_ok.2 ⟨m₁, (s, rest), m₃ ++ [], hstatement hs hP, ?_, rfl⟩
  exact Reading.bind_eq_ok.2 ⟨m₃, u, [], hend, Reading.pure_eq_ok.2 ⟨rfl, rfl⟩, rfl⟩

/-- If a kind of statement is read in the same way in another context, then so are the lines that
hold such a statement, apart from their numbers. -/
theorem line_of_statement (hl : line ctx number tokens = ⟨marks, .ok l⟩) (hP : P l.statement) :
    line ctx' number' tokens = ⟨marks, .ok { l with number := number' }⟩ := by
  obtain ⟨m₁, ⟨token, rest⟩, m₂, hnext, hthen, rfl⟩ := Reading.bind_eq_ok.1 hl
  refine Reading.bind_eq_ok.2 ⟨m₁, (token, rest), m₂, hnext, ?_, rfl⟩
  dsimp only at hthen ⊢
  split at hthen
  · obtain ⟨rfl, rfl⟩ := Reading.pure_eq_ok.1 hthen
    exact Reading.pure_eq_ok.2 ⟨rfl, rfl⟩
  · obtain ⟨m₃, u, m₄, hend, hpure, rfl⟩ := Reading.bind_eq_ok.1 hthen
    obtain ⟨rfl, rfl⟩ := Reading.pure_eq_ok.1 hpure
    exact Reading.bind_eq_ok.2 ⟨m₃, u, [], hend, Reading.pure_eq_ok.2 ⟨rfl, rfl⟩, rfl⟩
  · obtain ⟨m₃, u, m₄, hlen, hmark, rfl⟩ := Reading.bind_eq_ok.1 hthen
    obtain ⟨m₅, u', m₆, hleave, hsecond, rfl⟩ := Reading.bind_eq_ok.1 hmark
    obtain ⟨m₇, ⟨second, rest'⟩, m₈, hnext', hfrom, rfl⟩ := Reading.bind_eq_ok.1 hsecond
    refine Reading.bind_eq_ok.2 ⟨m₃, u, _, hlen, ?_, rfl⟩
    refine Reading.bind_eq_ok.2 ⟨m₅, u', _, hleave, ?_, rfl⟩
    refine Reading.bind_eq_ok.2 ⟨m₇, (second, rest'), m₈, hnext', ?_, rfl⟩
    dsimp only at hfrom ⊢
    split at hfrom
    next hfollows =>
      rw [if_pos hfollows]
      exact lineFrom_of_statement hstatement hfrom hP
    · cases hfrom
  · exact lineFrom_of_statement hstatement hthen hP

end

/-- A line that is no call is read in the same way in all user programs, apart from its number. -/
theorem line_congr (h : ctx.isSystem = false) (h' : ctx'.isSystem = false)
    (hl : line ctx number tokens = ⟨marks, .ok l⟩) (htarget : l.statement.target? = none) :
    line ctx' number' tokens = ⟨marks, .ok { l with number := number' }⟩ :=
  line_of_statement (P := fun s => s.target? = none) (fun hs => statement_congr h h' hs) hl htarget

/-! ### Operands -/

lemma isArgument_of_requireWord {e : LineError} (h : requireWord e token = .ok operand) :
    isArgument token = true := by
  cases hkind : token.kind <;> simp_all [isArgument, requireWord, wordConstant]

lemma isArgument_of_instructionOperand (h : instructionOperand token = ⟨marks, .ok operand⟩) :
    isArgument token = true := by
  unfold instructionOperand at h
  split at h
  next hkind => simp [isArgument, hkind]
  · cases h
  · exact isArgument_of_requireWord (Reading.ofExcept_eq_ok.1 h).2

/-- What can be the operand of a directive can also be an argument of a macro. -/
lemma isArgument_of_directiveOperand {d : Directive}
    (h : directiveOperand label d token = ⟨marks, .ok operand⟩) : isArgument token = true := by
  cases d with
  | equate =>
    change equateOperand label token = _ at h
    unfold equateOperand at h
    split at h
    · cases h
    · obtain ⟨m₁, operand', m₂, hconst, -, -⟩ := Reading.bind_eq_ok.1 h
      exact isArgument_of_requireWord (Reading.ofExcept_eq_ok.1 hconst).2
  | word => exact isArgument_of_requireWord (Reading.ofExcept_eq_ok.1 h).2
  | _ =>
    cases hkind : token.kind <;>
      simp_all [isArgument, directiveOperand, addrssOperand, asciiOperand, blockOperand, burnOperand,
        byteOperand]

lemma isArgument_of_alignOperand (h : alignOperand token = .ok operand) : isArgument token = true := by
  cases hkind : token.kind <;> simp_all [isArgument, alignOperand]

lemma kind_ne_of_isArgument (h : isArgument token = true) :
    token.kind ≠ .call ∧ token.kind ≠ .lineEnd := by
  cases hkind : token.kind <;> simp_all [isArgument]

/-! ### Tokens that are used up -/

/-- The tokens up to `rest` have been used up, and there is no call among them. -/
def Uses (tokens rest : List Token) : Prop :=
  ∃ used, tokens = used ++ rest ∧ ∀ t ∈ used, t.kind ≠ .call

namespace Uses

lemma refl (tokens : List Token) : Uses tokens tokens := ⟨[], rfl, nofun⟩

lemma cons (hkind : token.kind ≠ .call) (h : Uses tokens rest) : Uses (token :: tokens) rest := by
  obtain ⟨used, rfl, hused⟩ := h
  exact ⟨token :: used, rfl, List.forall_mem_cons.2 ⟨hkind, hused⟩⟩

lemma trans {rest' : List Token} (h : Uses tokens rest) (h' : Uses rest rest') :
    Uses tokens rest' := by
  obtain ⟨used, rfl, hused⟩ := h
  obtain ⟨used', rfl, hused'⟩ := h'
  exact ⟨used ++ used', by rw [List.append_assoc], List.forall_mem_append.2 ⟨hused, hused'⟩⟩

end Uses

lemma instructionMode_uses {mnemonic : Mnemonic} {mode : Mode}
    (h : instructionMode mnemonic tokens = ⟨marks, .ok (mode, rest)⟩) : Uses tokens rest := by
  unfold instructionMode at h
  split at h
  · split at h
    · cases h
    · split at h
      · obtain ⟨-, heq⟩ := Reading.done_eq_ok.1 h
        cases heq
        exact .cons nofun (.refl _)
      · cases h
  · split at h
    · cases h
    · obtain ⟨-, heq⟩ := Reading.done_eq_ok.1 h
      cases heq
      exact .refl _

lemma instruction_uses (h : instruction name tokens = ⟨marks, .ok (s, rest)⟩) : Uses tokens rest := by
  unfold instruction at h
  split at h
  · cases h
  · split at h
    · obtain ⟨-, heq⟩ := Reading.done_eq_ok.1 h
      cases heq
      exact .refl _
    · obtain ⟨m₁, ⟨token, rest₁⟩, m₂, hnext, hrest, -⟩ := Reading.bind_eq_ok.1 h
      obtain ⟨m₃, operand, m₄, hoperand, hmode, -⟩ := Reading.bind_eq_ok.1 hrest
      obtain ⟨m₅, ⟨mode, rest₂⟩, m₆, hm, hpure, -⟩ := Reading.bind_eq_ok.1 hmode
      obtain ⟨rfl, -⟩ := next_eq_ok hnext
      obtain ⟨-, heq⟩ := Reading.pure_eq_ok.1 hpure
      cases heq
      exact .cons (kind_ne_of_isArgument (isArgument_of_instructionOperand hoperand)).1 (instructionMode_uses hm)

lemma operandDirective_uses {d : Directive}
    (h : operandDirective ctx label d tokens = ⟨marks, .ok (s, rest)⟩) : Uses tokens rest := by
  have hsystem : ∀ d, systemSymbol ctx label d tokens = ⟨marks, .ok (s, rest)⟩ → Uses tokens rest := by
    intro d hd
    unfold systemSymbol at hd
    split at hd
    · cases hd
    · split at hd
      · cases hd
      · obtain ⟨m₁, ⟨token, rest₁⟩, m₂, hnext, hrest, -⟩ := Reading.bind_eq_ok.1 hd
        obtain ⟨rfl, -⟩ := next_eq_ok hnext
        dsimp only at hrest
        split at hrest
        · cases hrest
        next hkind =>
          obtain ⟨m₃, operand, m₄, -, hthen, -⟩ := Reading.bind_eq_ok.1 hrest
          obtain ⟨m₅, u, m₆, -, hlast, -⟩ := Reading.bind_eq_ok.1 hthen
          obtain ⟨m₇, u', m₈, -, hpure, -⟩ := Reading.bind_eq_ok.1 hlast
          obtain ⟨-, heq⟩ := Reading.pure_eq_ok.1 hpure
          cases heq
          have hident : token.kind = .identifier := by simpa using hkind
          exact .cons (by simp [hident]) (.refl _)
  unfold operandDirective at h
  split at h
  · exact hsystem _ h
  · exact hsystem _ h
  · exact hsystem _ h
  · split at h
    · cases h
    · obtain ⟨m₁, ⟨token, rest₁⟩, m₂, hnext, hrest, -⟩ := Reading.bind_eq_ok.1 h
      obtain ⟨m₃, operand, m₄, hoperand, hpure, -⟩ := Reading.bind_eq_ok.1 hrest
      obtain ⟨rfl, -⟩ := next_eq_ok hnext
      obtain ⟨-, heq⟩ := Reading.pure_eq_ok.1 hpure
      cases heq
      exact .cons (kind_ne_of_isArgument (isArgument_of_directiveOperand hoperand)).1 (.refl _)

lemma directive_uses (h : directive ctx label name tokens = ⟨marks, .ok (s, rest)⟩) :
    Uses tokens rest := by
  unfold directive at h
  split at h
  · split at h
    · cases h
    · obtain ⟨-, heq⟩ := Reading.done_eq_ok.1 h
      cases heq
      exact .refl _
  · split at h
    · obtain ⟨m₁, ⟨token, rest₁⟩, m₂, hnext, hrest, -⟩ := Reading.bind_eq_ok.1 h
      obtain ⟨m₃, operand, m₄, hread, hpure, -⟩ := Reading.bind_eq_ok.1 hrest
      obtain ⟨rfl, -⟩ := next_eq_ok hnext
      obtain ⟨-, halign⟩ := Reading.ofExcept_eq_ok.1 hread
      obtain ⟨-, heq⟩ := Reading.pure_eq_ok.1 hpure
      cases heq
      exact .cons (kind_ne_of_isArgument (isArgument_of_alignOperand halign)).1 (.refl _)
    · split at h
      · exact operandDirective_uses h
      · obtain ⟨m₁, r, m₂, -, hfail, -⟩ := Reading.bind_eq_ok.1 h
        cases hfail

lemma statement_uses (h : statement ctx label token tokens = ⟨marks, .ok (s, rest)⟩)
    (htarget : s.target? = none) : Uses (token :: tokens) rest := by
  unfold statement at h
  split at h
  next hkind => exact .cons (by simp [hkind]) (instruction_uses h)
  next hkind => exact .cons (by simp [hkind]) (directive_uses h)
  · obtain ⟨-, m, target, -, -, rfl⟩ := call_eq_ok h
    cases htarget
  · cases h
  · cases h

lemma takeComment_uses (tokens : List Token) : Uses tokens (takeComment tokens).2 := by
  unfold takeComment
  split
  · exact .cons nofun (.refl _)
  · exact .refl _

/-- What is left is the end of the line. -/
lemma lineEnd_head {e : LineError} {u : Unit} (h : lineEnd e tokens = ⟨marks, .ok u⟩) :
    ∃ t rest, tokens = t :: rest ∧ t.kind = .lineEnd := by
  obtain ⟨m₁, ⟨token, rest⟩, m₂, hnext, hend, -⟩ := Reading.bind_eq_ok.1 h
  obtain ⟨rfl, -⟩ := next_eq_ok hnext
  dsimp only at hend
  split at hend
  next hkind => exact ⟨token, rest, rfl, by simpa using hkind⟩
  · cases hend

lemma Uses.suffix (h : Uses tokens rest) : rest <:+ tokens := by
  obtain ⟨used, rfl, -⟩ := h
  exact List.suffix_append used rest

/-- A statement takes tokens off the front. -/
lemma statement_suffix (h : statement ctx label token tokens = ⟨marks, .ok (s, rest)⟩) :
    rest <:+ token :: tokens := by
  cases htarget : s.target? with
  | none => exact (statement_uses h htarget).suffix
  | some target =>
    obtain ⟨hkind, -⟩ := statement_target h htarget
    unfold statement at h
    rw [hkind] at h
    rw [call_rest h]
    exact (List.dropWhile_suffix _).trans (List.suffix_cons _ _)

/-- A line takes its tokens up to the end of the line.  If it is no call, there is no call among
them. -/
theorem line_uses (h : line ctx number tokens = ⟨marks, .ok l⟩) :
    ∃ t rest, t.kind = .lineEnd ∧ t :: rest <:+ tokens ∧
      (l.statement.target? = none → Uses tokens (t :: rest)) := by
  have hfrom : ∀ {label : Option String} {token : Token} {tokens : List Token} {marks : List Mark},
      lineFrom ctx number label token tokens = ⟨marks, .ok l⟩ →
      ∃ t rest, t.kind = .lineEnd ∧ t :: rest <:+ token :: tokens ∧
        (l.statement.target? = none → Uses (token :: tokens) (t :: rest)) := by
    intro label token tokens marks hl
    obtain ⟨m₁, ⟨s, rest⟩, m₂, hs, hthen, -⟩ := Reading.bind_eq_ok.1 hl
    obtain ⟨m₃, u, m₄, hend, hpure, -⟩ := Reading.bind_eq_ok.1 hthen
    obtain ⟨-, rfl⟩ := Reading.pure_eq_ok.1 hpure
    obtain ⟨t, rest', hrest, hkind⟩ := lineEnd_head hend
    have hcomment := takeComment_uses rest
    rw [hrest] at hcomment
    exact ⟨t, rest', hkind, hcomment.suffix.trans (statement_suffix hs),
      fun htarget => (statement_uses hs htarget).trans hcomment⟩
  obtain ⟨m₁, ⟨token, rest⟩, m₂, hnext, hthen, -⟩ := Reading.bind_eq_ok.1 h
  obtain ⟨rfl, -⟩ := next_eq_ok hnext
  dsimp only at hthen
  split at hthen
  next hkind => exact ⟨token, rest, hkind, List.suffix_refl _, fun _ => .refl _⟩
  next hkind =>
    obtain ⟨m₃, u, m₄, hend, -, -⟩ := Reading.bind_eq_ok.1 hthen
    obtain ⟨t, rest', rfl, ht⟩ := lineEnd_head hend
    exact ⟨t, rest', ht, List.suffix_cons _ _, fun _ => .cons (by simp [hkind]) (.refl _)⟩
  next hkind =>
    obtain ⟨second, rest', m, rfl, -, hsecond⟩ := line_label_eq_ok hkind h
    obtain ⟨t, rest'', hend, hsuffix, huses⟩ := hfrom hsecond
    exact ⟨t, rest'', hend, hsuffix.trans (List.suffix_cons _ _),
      fun htarget => (huses htarget).cons (by simp [hkind])⟩
  · exact hfrom hthen

end Reader

/-! ### No call is found -/

/-- No call is found on a line that is read and is no call. -/
theorem ofLine?_of_line {ctx : ReadContext} {number : Nat} {source : String} {marks : List Mark}
    {l : Line} (h : Reader.line ctx number (tokenize source) = ⟨marks, .ok l⟩)
    (htarget : l.statement.target? = none) : MacroCall.ofLine? source = .ok none := by
  obtain ⟨t, rest, ht, -, huses⟩ := Reader.line_uses h
  obtain ⟨used, htokens, hused⟩ := huses htarget
  have hscan : Lexer.tokensFrom false (Text.trim source.toList) = .ok (tokenize source) := by
    obtain ⟨m₁, ⟨token, rest⟩, m₂, hnext, -⟩ := Reading.bind_eq_ok.1 h
    have hfirst := (Reader.next_eq_ok hnext).1
    rw [hfirst] at hnext ⊢
    refine Lexer.tokenize_eq hfirst fun e he => ?_
    simp [Reader.next, he] at hnext
  obtain ⟨front, hfront, hproper⟩ := Lexer.tokensFrom_eq_append hscan
  have hcalls : callsAmong (tokenize source) = [] := by
    rw [htokens] at hfront
    rw [htokens, callsAmong, List.filter_eq_nil_iff, List.forall_mem_append, List.forall_mem_cons]
    refine ⟨fun u hu => by simpa using hused u hu, by simp [ht], ?_⟩
    -- Nothing stands behind the end of the line.
    rcases List.eq_nil_or_concat rest with rfl | ⟨init, last, rfl⟩
    · exact List.forall_mem_nil _
    · rw [List.concat_eq_append, ← List.cons_append, ← List.append_assoc] at hfront
      obtain ⟨rfl, -⟩ := List.append_inj' hfront rfl
      exact absurd ht (hproper t (List.mem_append_right _ List.mem_cons_self)).1
  obtain ⟨first, texts, hfields, hnames⟩ := callFields_of_tokenize hscan
  rw [hcalls, List.forall₂_nil_left_iff] at hnames
  rw [hnames] at hfields
  unfold MacroCall.ofLine?
  dsimp only
  rw [show MacroCall.fieldsAt '@' .outside (MacroCall.beforeMark ';' .outside source.toList) = [first]
    from hfields]

/-! ### Markers -/

/-- The source line that declares a name where it stands and takes no room. -/
def markerSource (name : String) : String := name ++ ": .BLOCK 0"

/-- What the source line of a marker is read as. -/
def marker (number : Nat) (name : String) : Line :=
  { statement := .directive .block (.unsigned 0), number, label := some name }

variable {name : String} {ctx : ReadContext} {number : Nat} {marks : List Mark} {l : Line}

lemma tokenize_markerSource (h : Text.isIdentifier name.toList = true) :
    tokenize (markerSource name) =
      [⟨.label, name⟩, ⟨.directive, "BLOCK"⟩, ⟨.decimal, "0"⟩, Token.lineEnd] := by
  have hbehind : Lexer.scanLine " .BLOCK 0".toList =
      .ok [⟨.directive, "BLOCK"⟩, ⟨.decimal, "0"⟩, Token.lineEnd] := by
    decide +kernel
  have hsource : (markerSource name).toList = name.toList ++ ':' :: " .BLOCK 0".toList := by
    simp [markerSource]
  apply Lexer.tokenize_of_scanLine
  rw [hsource, Lexer.scanLine_label h, hbehind]
  rfl

/-- A marker is read as such. -/
lemma line_markerSource (h : Text.isIdentifier name.toList = true)
    (hlen : name.utf8ByteSize ≤ Reader.maxSymbolLength) :
    Reader.line ctx number (tokenize (markerSource name)) =
      ⟨[.declare name], .ok (marker number name)⟩ := by
  have hcheck : Reader.checkLength name = .done () := by
    rw [Reader.checkLength, if_neg (Nat.not_lt.2 hlen)]
  have hname : Reader.directiveOfName? "BLOCK" = some .block := by decide
  have hzero : Reader.blockOperand ⟨.decimal, "0"⟩ = .ok (.unsigned 0) := by decide
  have hstatement : Reader.statement ctx (some name) ⟨.directive, "BLOCK"⟩
      [⟨.decimal, "0"⟩, Token.lineEnd] =
        ⟨[], .ok (.directive .block (.unsigned 0), [Token.lineEnd])⟩ := by
    change Reader.directive ctx (some name) "BLOCK" [⟨.decimal, "0"⟩, Token.lineEnd] = _
    rw [Reader.directive, if_neg (by decide), if_neg (by decide), hname]
    refine Reading.bind_eq_ok.2 ⟨[], (⟨.decimal, "0"⟩, [Token.lineEnd]), [], rfl, ?_, rfl⟩
    refine Reading.bind_eq_ok.2 ⟨[], .unsigned 0, [], ?_, rfl, rfl⟩
    exact Reading.ofExcept_eq_ok.2 ⟨rfl, hzero⟩
  rw [tokenize_markerSource h]
  refine Reading.bind_eq_ok.2 ⟨[], (⟨.label, name⟩, _), [.declare name], rfl, ?_, rfl⟩
  refine Reading.bind_eq_ok.2 ⟨[], (), [.declare name], hcheck, ?_, rfl⟩
  refine Reading.bind_eq_ok.2 ⟨[.declare name], (), [], rfl, ?_, rfl⟩
  refine Reading.bind_eq_ok.2 ⟨[], (⟨.directive, "BLOCK"⟩, _), [], rfl, ?_, rfl⟩
  change Reader.lineFrom ctx number (some name) _ _ = _
  exact Reading.bind_eq_ok.2 ⟨[], _, [], hstatement, rfl, rfl⟩

/-- The label of a line is its first token, and it is short enough. -/
lemma tokenize_of_label {source : String}
    (h : Reader.line ctx number (tokenize source) = ⟨marks, .ok l⟩) (hlabel : l.label = some name) :
    (∃ rest, tokenize source = ⟨.label, name⟩ :: rest) ∧ name.utf8ByteSize ≤ Reader.maxSymbolLength := by
  obtain ⟨m₁, ⟨token, rest⟩, m₂, hnext, hthen, -⟩ := Reading.bind_eq_ok.1 h
  have htokens := (Reader.next_eq_ok hnext).1
  dsimp only at hthen
  split at hthen
  · obtain ⟨-, rfl⟩ := Reading.pure_eq_ok.1 hthen
    cases hlabel
  · obtain ⟨m₃, u, m₄, -, hpure, -⟩ := Reading.bind_eq_ok.1 hthen
    obtain ⟨-, rfl⟩ := Reading.pure_eq_ok.1 hpure
    cases hlabel
  next hkind =>
    obtain ⟨m₃, u, m₄, hlen, -, -⟩ := Reading.bind_eq_ok.1 hthen
    rw [htokens] at h
    obtain ⟨second, rest', m, -, -, hfrom⟩ := Reader.line_label_eq_ok hkind h
    obtain ⟨s, rest'', -, rfl⟩ := Reader.lineFrom_eq_ok hfrom
    cases hlabel
    refine ⟨⟨rest, by rw [htokens, ← hkind]⟩, ?_⟩
    unfold Reader.checkLength at hlen
    split at hlen
    · cases hlen
    next hshort => exact Nat.not_lt.1 hshort
  · obtain ⟨s, rest'', -, rfl⟩ := Reader.lineFrom_eq_ok hthen
    cases hlabel

/-- A label in front of a line is an identifier with a colon behind it. -/
lemma trim_of_label {source : String} {rest : List Token}
    (h : tokenize source = ⟨.label, name⟩ :: rest) :
    Text.isIdentifier name.toList = true ∧
      ∃ behind, Text.trimStart (Text.trim source.toList) = name.toList ++ ':' :: behind := by
  rcases Lexer.tokensFrom_eq_ok (Lexer.tokenize_eq h (by simp)) with
    ⟨-, heq⟩ | ⟨w, behind, t, tokens, htrim, hlex, -, heq⟩
  · cases heq
  · cases heq
    obtain ⟨name, rfl, htext, hname⟩ := hlex
    dsimp only at htext
    rw [htext, String.toList_ofList]
    exact ⟨hname, behind, by rw [htrim, List.append_assoc]; rfl⟩

/-- The label of a line is an identifier that is short enough. -/
lemma label_of_line {source : String}
    (h : Reader.line ctx number (tokenize source) = ⟨marks, .ok l⟩) (hlabel : l.label = some name) :
    Text.isIdentifier name.toList = true ∧ name.utf8ByteSize ≤ Reader.maxSymbolLength := by
  obtain ⟨⟨rest, htokens⟩, hlength⟩ := tokenize_of_label h hlabel
  exact ⟨(trim_of_label htokens).1, hlength⟩

/-- A line that begins with a name and no colon behind it has no label. -/
lemma label_eq_none_of_line {source : String}
    (h : Reader.line ctx number (tokenize source) = ⟨marks, .ok l⟩)
    (hblank : source.toList.head?.any Text.isBlank = false)
    (hcolon : (source.toList.dropWhile Text.isNameRest).head? ≠ some ':') : l.label = none := by
  cases hlabel : l.label with
  | none => rfl
  | some name =>
    obtain ⟨⟨rest, htokens⟩, -⟩ := tokenize_of_label h hlabel
    obtain ⟨hname, behind, htrim⟩ := trim_of_label htokens
    obtain ⟨blanks, hsource⟩ := Text.trimEnd_prefix source.toList
    have hhead : (Text.trimEnd source.toList).head?.any Text.isBlank = false := by
      cases hend : Text.trimEnd source.toList with
      | nil => rfl
      | cons c s => rwa [← hsource, hend] at hblank
    rw [Text.trim, Text.trimStart_eq_self hblank, Text.trimStart_eq_self hhead] at htrim
    rw [← hsource, htrim, List.append_assoc, List.dropWhile_append_of_pos (Text.isNameRest_of_mem hname)]
      at hcolon
    exact absurd rfl hcolon

end Pep10
