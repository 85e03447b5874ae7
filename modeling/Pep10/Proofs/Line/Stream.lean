import Pep10.Proofs.Line.CallFree

/-!
# Reading a line from a stream of tokens

The tokens of a source line end with the end of the line, or are a malformed token alone.  All parts
of a line stop there: if the tokens of further lines follow, then each part is read as before, and
what it leaves is left with the further tokens behind it.  Hence a line that is read from a stream
of tokens depends on its own tokens only (`line_append`), and it needs all of them
(`not_reads_of_prefix`).

Running out of tokens is the one error that cannot arise before a line has ended
(`line_ne_missingEnd`).
-/

namespace Pep10

/-! ### Where a line ends -/

/-- The last token of a line: its end, or a malformed token. -/
def Token.Closes (t : Token) : Prop := t.kind = .lineEnd ∨ ∃ e, t.kind = .malformed e

/-- A line ends somewhere among the tokens. -/
def Closed (tokens : List Token) : Prop := ∃ t ∈ tokens, t.Closes

lemma closed_cons {t : Token} {tokens : List Token} :
    Closed (t :: tokens) ↔ t.Closes ∨ Closed tokens := by
  simp [Closed]

lemma Closed.exists_cons {tokens : List Token} (h : Closed tokens) : ∃ t rest, tokens = t :: rest := by
  obtain ⟨t, ht, -⟩ := h
  exact List.exists_cons_of_ne_nil (List.ne_nil_of_mem ht)

/-- The tokens of a line are a malformed token, or proper ones up to the end of the line. -/
lemma tokenize_cases (source : String) :
    (∃ e rest, tokenize source = [⟨.malformed e, rest⟩]) ∨
      ∃ front, tokenize source = front ++ [Token.lineEnd] ∧ ∀ t ∈ front, ¬ t.Closes := by
  unfold tokenize
  split
  next tokens hscan =>
    obtain ⟨front, rfl, hfront⟩ := Lexer.tokensFrom_eq_append hscan
    refine .inr ⟨front, rfl, fun t ht hcloses => ?_⟩
    obtain ⟨hend, hmalformed⟩ := hfront t ht
    exact hcloses.elim hend fun ⟨e, he⟩ => hmalformed e he
  next e rest _ => exact .inl ⟨e, _, rfl⟩

lemma closed_tokenize (source : String) : Closed (tokenize source) := by
  rcases tokenize_cases source with ⟨e, rest, heq⟩ | ⟨front, heq, -⟩
  · rw [heq]
    exact ⟨_, List.mem_singleton_self _, .inr ⟨e, rfl⟩⟩
  · rw [heq]
    exact ⟨_, List.mem_append_right _ (List.mem_singleton_self _), .inl rfl⟩

/-! ### Readings that agree -/

namespace Reading

variable {α β γ δ : Type}

/-- Two readings leave the same marks, and they fail alike or give related results.  They do not
fail because the tokens have run out. -/
inductive Agree (R : α → β → Prop) : Reading α → Reading β → Prop
  | error (marks : List Mark) {e : LineError} (he : e ≠ .missingEnd) :
      Agree R ⟨marks, .error e⟩ ⟨marks, .error e⟩
  | ok (marks : List Mark) {a : α} {b : β} (hab : R a b) : Agree R ⟨marks, .ok a⟩ ⟨marks, .ok b⟩

lemma bind_ne_missingEnd {r : Reading α} {f : α → Reading β} (hr : r.outcome ≠ .error .missingEnd)
    (hf : ∀ a, (f a).outcome ≠ .error .missingEnd) : (r >>= f).outcome ≠ .error .missingEnd := by
  obtain ⟨marks, outcome⟩ := r
  cases outcome with
  | error e => exact fun he => hr (congrArg _ (Except.error.inj he))
  | ok a => exact hf a

namespace Agree

variable {R : α → β → Prop} {S : γ → δ → Prop} {r : Reading α} {r' : Reading β}

lemma fail {e : LineError} (he : e ≠ .missingEnd) : Agree R (.fail e) (.fail e) := .error [] he

lemma done {a : α} {b : β} (hab : R a b) : Agree R (.done a) (.done b) := .ok [] hab

/-- Readings that agree may be continued by readings that agree. -/
lemma bind {f : α → Reading γ} {f' : β → Reading δ} (h : Agree R r r')
    (hf : ∀ a b, R a b → Agree S (f a) (f' b)) : Agree S (r >>= f) (r' >>= f') := by
  cases h with
  | error marks he => exact .error marks he
  | @ok marks a b hab =>
    change Agree S ⟨marks ++ (f a).marks, (f a).outcome⟩ ⟨marks ++ (f' b).marks, (f' b).outcome⟩
    have hfab := hf a b hab
    generalize f a = x at hfab
    generalize f' b = y at hfab
    cases hfab with
    | error more he => exact .error _ he
    | ok more hcd => exact .ok _ hcd

/-- A reading agrees with itself if it cannot run out of tokens. -/
lemma self {R : α → α → Prop} {r : Reading α} (hne : r.outcome ≠ .error .missingEnd)
    (hok : ∀ marks a, r = ⟨marks, .ok a⟩ → R a a) : Agree R r r := by
  obtain ⟨marks, outcome⟩ := r
  cases outcome with
  | error e => exact .error marks fun he => hne (congrArg _ he)
  | ok a => exact .ok marks (hok marks a rfl)

lemma eq {r r' : Reading α} (h : Agree Eq r r') : r' = r := by
  cases h with
  | error => rfl
  | ok marks hab => rw [hab]

lemma ne_missingEnd (h : Agree R r r') : r.outcome ≠ .error .missingEnd := by
  cases h with
  | error marks he => exact fun heq => he (Except.error.inj heq)
  | ok => nofun

end Agree

end Reading

namespace Reader

open Reading (Agree)

variable {ctx : ReadContext} {token : Token} {tokens rest : List Token} {marks : List Mark}
  {label : Option String} {operand : Operand} {s : Statement} {name : String} {number : Nat} {l : Line}
  {otherwise : LineError}

/-- From the stream with more tokens at its end the same is read, and what is left has these tokens
at its end.  The line has not ended yet. -/
def Behind {α : Type} (more : List Token) (x y : α × List Token) : Prop :=
  y = (x.1, x.2 ++ more) ∧ Closed x.2

variable {more : List Token}

/-! ### Errors of operands -/

lemma decimalOperand_ne_missingEnd {low high : Int} {text : String} (h : otherwise ≠ .missingEnd) :
    decimalOperand low high otherwise text ≠ .error .missingEnd := by
  unfold decimalOperand
  dsimp only
  split
  · nofun
  · split
    · nofun
    · exact fun heq => h (Except.error.inj heq)

lemma hexValue_ne_missingEnd (text : String) : hexValue text ≠ .error .missingEnd := by
  unfold hexValue
  dsimp only
  split <;> nofun

lemma map_ne_missingEnd {α β : Type} {f : α → β} {x : Except LineError α} (h : x ≠ .error .missingEnd) :
    x.map f ≠ .error .missingEnd := by
  cases x with
  | error e => exact fun heq => h (congrArg _ (Except.error.inj heq))
  | ok a => nofun

lemma requireWord_ne_missingEnd (h : otherwise ≠ .missingEnd) :
    requireWord otherwise token ≠ .error .missingEnd := by
  have hword : wordConstant token ≠ .error .missingEnd := by
    unfold wordConstant
    split
    · nofun
    · exact map_ne_missingEnd (decimalOperand_ne_missingEnd nofun)
    · exact map_ne_missingEnd (hexValue_ne_missingEnd _)
    · split <;> nofun
    · nofun
  unfold requireWord
  split
  next e heq => exact fun he => hword (heq.trans (congrArg _ (Except.error.inj he)))
  · exact fun he => h (Except.error.inj he)
  · nofun

lemma checkLength_ne_missingEnd (name : String) : (checkLength name).outcome ≠ .error .missingEnd := by
  unfold checkLength
  split <;> nofun

lemma useSymbol_ne_missingEnd (name : String) : (useSymbol name).outcome ≠ .error .missingEnd :=
  Reading.bind_ne_missingEnd (checkLength_ne_missingEnd name) nofun

lemma byteOperand_ne_missingEnd : byteOperand token ≠ .error .missingEnd := by
  unfold byteOperand
  split
  · nofun
  · exact decimalOperand_ne_missingEnd nofun
  · split
    · split <;> nofun
    · nofun
  · split <;> nofun
  · nofun

lemma alignOperand_ne_missingEnd : alignOperand token ≠ .error .missingEnd := by
  unfold alignOperand
  dsimp only
  split <;> nofun

lemma equateOperand_ne_missingEnd : (equateOperand label token).outcome ≠ .error .missingEnd := by
  unfold equateOperand
  split
  · nofun
  · exact Reading.bind_ne_missingEnd (requireWord_ne_missingEnd nofun) nofun

lemma directiveOperand_ne_missingEnd {d : Directive} :
    (directiveOperand label d token).outcome ≠ .error .missingEnd := by
  cases d with
  | addrss =>
    change (addrssOperand token).outcome ≠ _
    unfold addrssOperand
    split
    · exact useSymbol_ne_missingEnd _
    · nofun
  | ascii =>
    change asciiOperand token ≠ _
    unfold asciiOperand
    split <;> nofun
  | block =>
    change blockOperand token ≠ _
    unfold blockOperand
    split
    · exact decimalOperand_ne_missingEnd nofun
    · exact map_ne_missingEnd (hexValue_ne_missingEnd _)
    · nofun
  | burn =>
    change burnOperand token ≠ _
    unfold burnOperand
    split
    · exact map_ne_missingEnd (hexValue_ne_missingEnd _)
    · nofun
  | byte => exact byteOperand_ne_missingEnd
  | equate => exact equateOperand_ne_missingEnd
  | word => exact requireWord_ne_missingEnd nofun
  | publish => nofun
  | scall => nofun
  | uscall => nofun

lemma instructionOperand_ne_missingEnd : (instructionOperand token).outcome ≠ .error .missingEnd := by
  unfold instructionOperand
  split
  · exact useSymbol_ne_missingEnd _
  · nofun
  · exact requireWord_ne_missingEnd nofun

lemma boundCall_ne_missingEnd {args : List String} : boundCall ctx name args ≠ .error .missingEnd := by
  unfold boundCall
  split
  · nofun
  · split
    · nofun
    · split <;> nofun

/-! ### The parts of a line -/

/-- The next token is the end of the line, or the line ends behind it. -/
lemma next_agree (h : Closed tokens) :
    Agree (fun x y => y = (x.1, x.2 ++ more) ∧ (x.1.kind = .lineEnd ∨ Closed x.2)) (next tokens)
      (next (tokens ++ more)) := by
  cases tokens with
  | nil =>
    obtain ⟨t, ht, -⟩ := h
    cases ht
  | cons token rest =>
    simp only [List.cons_append, next]
    split
    · exact .fail (by simp)
    next hproper =>
      refine .done ⟨rfl, ?_⟩
      rcases closed_cons.1 h with (hend | ⟨e, he⟩) | hrest
      · exact .inl hend
      · exact absurd he (hproper e)
      · exact .inr hrest

/-- What is read as an operand is not the end of the line, so that the line ends behind it. -/
lemma operand_agree {r : Reading Operand} (hrest : token.kind = .lineEnd ∨ Closed rest)
    (hne : r.outcome ≠ .error .missingEnd)
    (hargument : ∀ {marks operand}, r = ⟨marks, .ok operand⟩ → isArgument token = true) :
    Agree (fun a b => b = a ∧ Closed rest) r r :=
  .self hne fun _ _ heq => ⟨rfl, hrest.resolve_left (kind_ne_of_isArgument (hargument heq)).2⟩

lemma lineEnd_agree (h : Closed tokens) (hne : otherwise ≠ .missingEnd) :
    Agree Eq (lineEnd otherwise tokens) (lineEnd otherwise (tokens ++ more)) := by
  refine (next_agree h).bind ?_
  rintro ⟨token, rest⟩ _ ⟨rfl, -⟩
  dsimp only
  split
  · exact .done rfl
  · exact .fail hne

lemma instructionMode_agree {mnemonic : Mnemonic} (h : Closed tokens) :
    Agree (Behind more) (instructionMode mnemonic tokens) (instructionMode mnemonic (tokens ++ more)) := by
  obtain ⟨token, rest, rfl⟩ := h.exists_cons
  rw [List.cons_append]
  by_cases hmode : token.kind = .mode
  · obtain ⟨kind, text⟩ := token
    cases hmode
    have hrest : Closed rest := (closed_cons.1 h).resolve_left (by simp [Token.Closes])
    simp only [instructionMode]
    split
    · exact .fail nofun
    · split
      · exact .done ⟨rfl, hrest⟩
      · exact .fail nofun
  · have hnone : ∀ behind : List Token, instructionMode mnemonic (token :: behind) =
        if mnemonic.modeRequired then .fail .modeRequired else .done (.immediate, token :: behind) := by
      intro behind
      unfold instructionMode
      split
      next heq =>
        cases heq
        exact absurd rfl hmode
      · rfl
    rw [hnone, hnone]
    split
    · exact .fail nofun
    · exact .done ⟨rfl, h⟩

lemma instruction_agree (h : Closed tokens) :
    Agree (Behind more) (instruction name tokens) (instruction name (tokens ++ more)) := by
  unfold instruction
  split
  · exact .fail nofun
  · split
    · exact .done ⟨rfl, h⟩
    · refine (next_agree h).bind ?_
      rintro ⟨token, rest⟩ _ ⟨rfl, hrest⟩
      refine (operand_agree hrest instructionOperand_ne_missingEnd isArgument_of_instructionOperand).bind ?_
      rintro operand _ ⟨rfl, hclosed⟩
      refine (instructionMode_agree hclosed).bind ?_
      rintro ⟨mode, rest'⟩ _ ⟨rfl, hrest'⟩
      exact .done ⟨rfl, hrest'⟩

lemma offer_ne_missingEnd {d : Directive} : (offer ctx d name).outcome ≠ .error .missingEnd := by
  unfold offer
  split
  · nofun
  · split <;> nofun

lemma systemSymbol_agree {d : Directive} (h : Closed tokens) :
    Agree (Behind more) (systemSymbol ctx label d tokens) (systemSymbol ctx label d (tokens ++ more)) := by
  unfold systemSymbol
  split
  · exact .fail nofun
  · split
    · exact .fail nofun
    · refine (next_agree h).bind ?_
      rintro ⟨token, rest⟩ _ ⟨rfl, hrest⟩
      dsimp only
      split
      · exact .fail nofun
      next hkind =>
        have hclosed : Closed rest := hrest.resolve_left (by simp_all)
        refine Agree.bind (R := Eq) (.self (useSymbol_ne_missingEnd _) fun _ _ _ => rfl) ?_
        rintro operand _ rfl
        refine Agree.bind (R := Eq) (.self nofun fun _ _ _ => rfl) fun _ _ _ => ?_
        refine Agree.bind (R := Eq) (.self offer_ne_missingEnd fun _ _ _ => rfl) fun _ _ _ => ?_
        exact .done ⟨rfl, hclosed⟩

lemma operandDirective_agree {d : Directive} (h : Closed tokens) :
    Agree (Behind more) (operandDirective ctx label d tokens)
      (operandDirective ctx label d (tokens ++ more)) := by
  unfold operandDirective
  split
  · exact systemSymbol_agree h
  · exact systemSymbol_agree h
  · exact systemSymbol_agree h
  · split
    · exact .fail nofun
    · refine (next_agree h).bind ?_
      rintro ⟨token, rest⟩ _ ⟨rfl, hrest⟩
      refine (operand_agree hrest directiveOperand_ne_missingEnd isArgument_of_directiveOperand).bind ?_
      rintro operand _ ⟨rfl, hclosed⟩
      exact .done ⟨rfl, hclosed⟩

lemma directive_agree (h : Closed tokens) :
    Agree (Behind more) (directive ctx label name tokens) (directive ctx label name (tokens ++ more)) := by
  unfold directive
  split
  · split
    · exact .fail nofun
    · exact .done ⟨rfl, h⟩
  · split
    · refine (next_agree h).bind ?_
      rintro ⟨token, rest⟩ _ ⟨rfl, hrest⟩
      refine (operand_agree hrest alignOperand_ne_missingEnd fun heq =>
        isArgument_of_alignOperand (Reading.ofExcept_eq_ok.1 heq).2).bind ?_
      rintro operand _ ⟨rfl, hclosed⟩
      exact .done ⟨rfl, hclosed⟩
    · split
      · exact operandDirective_agree h
      · exact (next_agree h).bind fun _ _ _ => .fail nofun

lemma call_eq_of_dropWhile {first : Token} (h : tokens.dropWhile isArgument = first :: rest) :
    call ctx name tokens =
      if first.kind = .placeholder then .fail (.placeholder first.text)
      else do
        let statement ← .ofExcept (boundCall ctx name (argumentsOf tokens))
        return (statement, first :: rest) := by
  unfold call
  dsimp only
  rw [h]
  split
  next heq =>
    cases heq
    rfl
  next hother =>
    rw [if_neg]
    · rfl
    · intro hkind
      obtain ⟨kind, text⟩ := first
      cases hkind
      exact hother text rest rfl

/-- The arguments of a call end before the end of the line. -/
lemma call_agree (h : Closed tokens) :
    Agree (Behind more) (call ctx name tokens) (call ctx name (tokens ++ more)) := by
  have hclosed : Closed (tokens.dropWhile isArgument) := by
    obtain ⟨t, ht, hcloses⟩ := h
    rw [← List.takeWhile_append_dropWhile (p := isArgument) (l := tokens), List.mem_append] at ht
    refine ⟨t, ht.resolve_left fun htake => ?_, hcloses⟩
    have hargument := List.mem_takeWhile_imp htake
    rcases hcloses with hend | ⟨e, he⟩
    · exact (kind_ne_of_isArgument hargument).2 hend
    · simp [isArgument, he] at hargument
  obtain ⟨first, rest, hdrop⟩ := hclosed.exists_cons
  have hdrop' : (tokens ++ more).dropWhile isArgument = first :: (rest ++ more) := by
    rw [List.dropWhile_append, hdrop]
    rfl
  have htake : (tokens ++ more).takeWhile isArgument = tokens.takeWhile isArgument := by
    rw [List.takeWhile_append, if_neg]
    intro hlength
    have hparts := congrArg List.length (List.takeWhile_append_dropWhile (p := isArgument) (l := tokens))
    rw [List.length_append, hlength, hdrop, List.length_cons] at hparts
    omega
  rw [call_eq_of_dropWhile hdrop, call_eq_of_dropWhile hdrop', argumentsOf, argumentsOf, htake]
  rw [hdrop] at hclosed
  split
  · exact .fail (by simp)
  · refine Agree.bind (R := Eq) (.self boundCall_ne_missingEnd fun _ _ _ => rfl) ?_
    rintro statement _ rfl
    exact .done ⟨rfl, hclosed⟩

lemma statement_agree (h : Closed tokens) :
    Agree (Behind more) (statement ctx label token tokens)
      (statement ctx label token (tokens ++ more)) := by
  unfold statement
  split
  · exact instruction_agree h
  · exact directive_agree h
  · exact call_agree h
  · exact .fail nofun
  · exact .fail nofun

/-- A comment does not end a line by itself. -/
lemma takeComment_append (h : Closed tokens) (more : List Token) :
    takeComment (tokens ++ more) = ((takeComment tokens).1, (takeComment tokens).2 ++ more) ∧
      Closed (takeComment tokens).2 := by
  obtain ⟨token, rest, rfl⟩ := h.exists_cons
  by_cases hcomment : token.kind = .comment
  · obtain ⟨kind, text⟩ := token
    cases hcomment
    exact ⟨rfl, (closed_cons.1 h).resolve_left (by simp [Token.Closes])⟩
  · have hnone : ∀ behind : List Token, takeComment (token :: behind) = (none, token :: behind) := by
      intro behind
      unfold takeComment
      split
      next heq =>
        cases heq
        exact absurd rfl hcomment
      · rfl
    rw [List.cons_append, hnone, hnone]
    exact ⟨rfl, h⟩

lemma lineFrom_agree (h : Closed tokens) :
    Agree Eq (lineFrom ctx number label token tokens) (lineFrom ctx number label token (tokens ++ more)) := by
  refine (statement_agree h).bind ?_
  rintro ⟨s, rest⟩ _ ⟨rfl, hrest⟩
  obtain ⟨hcomment, hclosed⟩ := takeComment_append hrest more
  dsimp only
  rw [hcomment]
  refine (lineEnd_agree hclosed ?_).bind fun _ _ _ => .done rfl
  split <;> nofun

/-- A line that is read from a stream of tokens ends where its own tokens end. -/
lemma line_agree (h : Closed tokens) (more : List Token) :
    Agree Eq (line ctx number tokens) (line ctx number (tokens ++ more)) := by
  refine (next_agree h).bind ?_
  rintro ⟨token, rest⟩ _ ⟨rfl, hrest⟩
  dsimp only
  split
  · exact .done rfl
  next hkind =>
    have hclosed : Closed rest := hrest.resolve_left (by simp [hkind])
    have hne : LineError.commentExpected ≠ .missingEnd := nofun
    exact (lineEnd_agree hclosed hne).bind fun _ _ _ => .done rfl
  next hkind =>
    have hclosed : Closed rest := hrest.resolve_left (by simp [hkind])
    refine Agree.bind (R := Eq) (.self (checkLength_ne_missingEnd _) fun _ _ _ => rfl) fun _ _ _ => ?_
    refine Agree.bind (R := Eq) (.self nofun fun _ _ _ => rfl) fun _ _ _ => ?_
    refine (next_agree hclosed).bind ?_
    rintro ⟨second, rest'⟩ _ ⟨rfl, hrest'⟩
    dsimp only
    split
    next hfollows =>
      refine lineFrom_agree (hrest'.resolve_left fun hend => ?_)
      change second.kind = .lineEnd at hend
      simp [followsLabel, hend] at hfollows
    · exact .fail nofun
  next hend _ _ => exact lineFrom_agree (hrest.resolve_left hend)

/-! ### The tokens that a line takes -/

/-- From a stream of tokens, a line is read from its own tokens and from nothing else. -/
theorem line_append (ctx : ReadContext) (number : Nat) (source : String) (more : List Token) :
    line ctx number (tokenize source ++ more) = line ctx number (tokenize source) :=
  (line_agree (closed_tokenize source) more).eq

/-- Reading a line does not run out of tokens. -/
theorem line_ne_missingEnd (ctx : ReadContext) (number : Nat) (source : String) :
    (line ctx number (tokenize source)).outcome ≠ .error .missingEnd :=
  (line_agree (closed_tokenize source) []).ne_missingEnd

/-- A line is not read if some of its tokens are left out at its end. -/
theorem not_reads_of_prefix {source : String} {front : List Token} (hfront : front <+: tokenize source)
    (hne : front ≠ tokenize source) : (line ctx number front).outcome ≠ .ok l := by
  intro hok
  have hread : line ctx number front = ⟨(line ctx number front).marks, .ok l⟩ := by rw [← hok]
  obtain ⟨t, rest, ht, hsuffix, -⟩ := line_uses hread
  have hmem : t ∈ front := hsuffix.mem List.mem_cons_self
  obtain ⟨more, hmore⟩ := hfront
  rcases List.eq_nil_or_concat more with rfl | ⟨init, last, rfl⟩
  · exact hne (by rw [← hmore, List.append_nil])
  · rw [List.concat_eq_append, ← List.append_assoc] at hmore
    rcases tokenize_cases source with ⟨e, text, heq⟩ | ⟨proper, heq, hproper⟩
    · have hsingle : front ++ init ++ [last] = [] ++ [⟨.malformed e, text⟩] := hmore.trans heq
      obtain ⟨hnil, -⟩ := List.append_inj' hsingle rfl
      rw [(List.append_eq_nil_iff.1 hnil).1] at hmem
      cases hmem
    · obtain ⟨rfl, -⟩ := List.append_inj' (hmore.trans heq) rfl
      exact hproper t (List.mem_append_left _ hmem) (.inl ht)

end Reader

end Pep10
