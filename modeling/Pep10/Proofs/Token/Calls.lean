import Pep10.Proofs.Token.Lexeme

/-!
# The calls among the tokens of a text

The search for macro calls cuts the raw text of a line at at signs, and the lexer splits it into
tokens.  On a text that splits into tokens both see the same calls: behind every at sign that the
search stops at there is the name of a call among the tokens, in the same order
(`fieldsAt_of_tokensFrom`).  All other tokens, and the blanks and commas between tokens, are neutral
to the search; and a comment, in which anything may stand, is cut off before.
-/

namespace Pep10

open MacroCall (Quotation beforeMark fieldsAt)

variable {s w blanks first : List Char} {texts : List (List Char)} {tokens : List Token} {t : Token}

/-- The macro calls among some tokens. -/
def callsAmong (tokens : List Token) : List Token := tokens.filter fun t => t.kind == .call

lemma callsAmong_cons_of_ne (h : t.kind ≠ .call) : callsAmong (t :: tokens) = callsAmong tokens :=
  List.filter_cons_of_neg (by simpa using h)

lemma callsAmong_cons_of_eq (h : t.kind = .call) : callsAmong (t :: tokens) = t :: callsAmong tokens :=
  List.filter_cons_of_pos (by simpa using h)

/-- The fields at which a text is searched for calls: what is before the first at sign, and what is
behind each of them. -/
def callFields (s : List Char) : List (List Char) := fieldsAt '@' .outside (beforeMark ';' .outside s)

/-- The text behind an at sign begins with the name of a call, which ends there or at a blank. -/
def NamesCall (t : Token) (text : List Char) : Prop :=
  ∃ name behind, t = ⟨.call, String.ofList name⟩ ∧ text = name ++ behind ∧
    Text.isIdentifier name = true ∧ behind.head?.all Text.isBlank = true

/-! ### Text that the search passes over -/

lemma neutral_blanks (h : ∀ c ∈ blanks, Text.isBlank c = true) : Neutral blanks :=
  .of_plain fun c hc => isPlain_of_isBlank (h c hc)

lemma callFields_neutral (hw : Neutral w) (h : callFields s = first :: texts) :
    callFields (w ++ s) = (w ++ first) :: texts := by
  rw [callFields, MacroCall.beforeMark_append hw.hides_semicolon, hw.after_eq]
  refine MacroCall.fieldsAt_hides_append hw.hides_at ?_
  rw [hw.after_eq]
  exact h

lemma callFields_comment (s : List Char) : callFields (';' :: s) = [[]] := by
  rw [callFields, beforeMark, if_pos (by decide)]
  rfl

lemma callFields_of_blanks (h : ∀ c ∈ blanks, Text.isBlank c = true) : callFields blanks = [blanks] := by
  have hnil : callFields [] = [[]] := rfl
  rw [← List.append_nil blanks, callFields_neutral (neutral_blanks h) hnil]

/-- Blanks in front of a text belong to the first field. -/
lemma exists_callFields_trimStart (h : callFields (Text.trimStart s ++ blanks) = first :: texts) :
    ∃ first', callFields (s ++ blanks) = first' :: texts := by
  refine ⟨s.takeWhile Text.isBlank ++ first, ?_⟩
  rw [← callFields_neutral (neutral_blanks fun c hc => List.mem_takeWhile_imp hc) h, ← List.append_assoc,
    Text.trimStart, List.takeWhile_append_dropWhile]

/-! ### The text behind an at sign -/

/-- A call ends at a blank, at a comment or with the text. -/
lemma endsCall_of_scanToken {c : Char} {rest : List Char} (h : Lexer.scanToken c s = .ok (t, rest))
    (hkind : t.kind = .call) : Lexer.endsCall rest = true := by
  obtain ⟨w, -, hderives⟩ := Lexer.exists_derives h
  cases hderives with
  | call _ hends => exact hends
  | _ => cases hkind

/-- Where a call ends, the first field begins with a blank or is empty. -/
lemma isBlank_head_of_endsCall (hblanks : ∀ c ∈ blanks, Text.isBlank c = true)
    (hends : Lexer.endsCall s = true) (h : callFields (s ++ blanks) = first :: texts) :
    first.head?.all Text.isBlank = true := by
  have hhead : (beforeMark ';' .outside (s ++ blanks)).head?.all Text.isBlank = true := by
    cases hs : s ++ blanks with
    | nil => rfl
    | cons c rest =>
      have hc : Text.isBlank c = true ∨ c = ';' := by
        cases s with
        | nil =>
          rw [List.nil_append] at hs
          exact .inl (hblanks c (by rw [hs]; exact List.mem_cons_self))
        | cons d s =>
          cases hs
          simpa [Lexer.endsCall] using hends
      rcases hc with hc | rfl
      · rw [beforeMark, if_neg]
        · exact hc
        · rw [Bool.and_eq_true, beq_iff_eq]
          exact fun hmark => (isPlain_of_isBlank hc).2.2 hmark.2
      · rfl
  cases first with
  | nil => rfl
  | cons c first =>
    rcases MacroCall.fieldsAt_eq_cons h with ⟨heq, -⟩ | ⟨rest, heq, -⟩
    · rw [heq] at hhead
      exact hhead
    · rw [heq] at hhead
      exact hhead

/-- A call begins a new field. -/
lemma callFields_call {name rest : List Char} (hname : Text.isIdentifier name = true)
    (h : callFields rest = first :: texts) :
    callFields ('@' :: (name ++ rest)) = [] :: (name ++ first) :: texts := by
  have hneutral : Neutral name :=
    .of_plain fun c hc => isPlain_of_isNameRest (Text.isNameRest_of_mem hname c hc)
  have hat : beforeMark ';' .outside ('@' :: (name ++ rest)) =
      '@' :: beforeMark ';' .outside (name ++ rest) := by
    rw [beforeMark, if_neg (by decide)]
    rfl
  rw [callFields, hat, MacroCall.fieldsAt_mark (by decide)]
  exact congrArg _ (callFields_neutral hneutral h)

/-! ### The fields of a text and its tokens -/

/-- The calls among the tokens of a text are named behind the at signs that it shows, one by one. -/
theorem fieldsAt_of_tokensFrom {afterCall : Bool} (hblanks : ∀ c ∈ blanks, Text.isBlank c = true)
    (h : Lexer.tokensFrom afterCall s = .ok tokens) :
    ∃ first texts, callFields (s ++ blanks) = first :: texts ∧
      List.Forall₂ NamesCall (callsAmong tokens) texts := by
  fun_induction Lexer.tokensFrom afterCall s generalizing tokens with
  | case1 b s hs =>
    cases h
    have hnil : callFields (Text.trimStart s ++ blanks) = [blanks] := by
      rw [hs, List.nil_append, callFields_of_blanks hblanks]
    obtain ⟨first, hfirst⟩ := exists_callFields_trimStart hnil
    exact ⟨first, [], hfirst, .nil⟩
  | case2 b s c s' hs _ hcomma ih =>
    -- A comma behind a call.
    obtain ⟨first, texts, hfields, hnames⟩ := ih h
    rw [Bool.and_eq_true, beq_iff_eq] at hcomma
    have hneutral : Neutral [','] := .of_plain (List.forall_mem_singleton.2 (by decide))
    have hstart : callFields (Text.trimStart s ++ blanks) = ([','] ++ first) :: texts := by
      rw [← callFields_neutral hneutral hfields, hs, hcomma.2]
      rfl
    obtain ⟨first', hfirst⟩ := exists_callFields_trimStart hstart
    exact ⟨first', texts, hfirst, hnames⟩
  | case3 => cases h
  | case4 => cases h
  | case5 b s c s' hs _ _ t rest hscan _ tokens' hrec ih =>
    cases h
    obtain ⟨w, hw, hlex⟩ := Lexer.exists_lexeme hscan
    obtain ⟨first, texts, hfields, hnames⟩ := ih hrec
    have hsplit : Text.trimStart s ++ blanks = w ++ (rest ++ blanks) := by
      rw [hs, hw, List.append_assoc]
    by_cases hcall : t.kind = .call
    · have hends := isBlank_head_of_endsCall hblanks (endsCall_of_scanToken hscan hcall) hfields
      rw [Lexer.IsLexeme, hcall] at hlex
      obtain ⟨name, rfl, htext, hname, -⟩ := hlex
      have hstart : callFields (Text.trimStart s ++ blanks) = [] :: (name ++ first) :: texts := by
        rw [hsplit]
        exact callFields_call hname hfields
      obtain ⟨first', hfirst⟩ := exists_callFields_trimStart hstart
      refine ⟨first', _, hfirst, ?_⟩
      rw [callsAmong_cons_of_eq hcall]
      refine .cons ⟨name, first, ?_, rfl, hname, hends⟩ hnames
      rw [← htext, ← hcall]
    · rw [callsAmong_cons_of_ne hcall]
      by_cases hcomment : t.kind = .comment
      · -- There is nothing behind a comment.
        rw [Lexer.IsLexeme, hcomment] at hlex
        obtain ⟨text, rfl, rfl⟩ := hlex
        rw [List.nil_append, callFields_of_blanks hblanks] at hfields
        cases hfields
        have hstart : callFields (Text.trimStart s ++ blanks) = [[]] := by
          rw [hsplit]
          exact callFields_comment _
        obtain ⟨first', hfirst⟩ := exists_callFields_trimStart hstart
        exact ⟨first', [], hfirst, hnames⟩
      · have hstart : callFields (Text.trimStart s ++ blanks) = (w ++ first) :: texts := by
          rw [hsplit]
          exact callFields_neutral (hlex.neutral hcall hcomment) hfields
        obtain ⟨first', hfirst⟩ := exists_callFields_trimStart hstart
        exact ⟨first', texts, hfirst, hnames⟩

/-- On a line that splits into tokens, the calls among them are named behind the at signs that the
line shows, one by one. -/
lemma callFields_of_tokenize {line : String}
    (h : Lexer.tokensFrom false (Text.trim line.toList) = .ok tokens) :
    ∃ first texts, callFields line.toList = first :: texts ∧
      List.Forall₂ NamesCall (callsAmong tokens) texts := by
  obtain ⟨l, r, hline, hl, hr⟩ := Text.exists_trim line.toList
  obtain ⟨first, texts, hfields, hnames⟩ := fieldsAt_of_tokensFrom hr h
  refine ⟨l ++ first, texts, ?_, hnames⟩
  rw [hline]
  exact callFields_neutral (neutral_blanks hl) hfields

end Pep10
