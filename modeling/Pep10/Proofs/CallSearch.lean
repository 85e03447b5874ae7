import Pep10.Proofs.Token.Calls

/-!
# The search for calls agrees with the lexer

Macro calls are searched in the raw text of a line, before the line is split into tokens.  On every
line that splits into tokens the search finds what the tokens show: nothing if there is no call
among them, the call if there is one, and otherwise it refuses the line because of several calls
(`search_agrees`).
-/

namespace Pep10.MacroCall

variable {line : String} {tokens : List Token} {t : Token} {name text : List Char}

/-! ### The name of a call -/

lemma checkName_of_isIdentifier (h : Text.isIdentifier name = true) : checkName name = .ok () := by
  have hdollar : name.contains '$' = false := by
    rw [List.contains_eq_mem, decide_eq_false_iff_not]
    intro hmem
    have := Text.isNameRest_of_mem h _ hmem
    revert this
    decide
  cases name with
  | nil => cases h
  | cons c s =>
    have hparts : Text.isNameStart c = true ∧ s.all Text.isNameRest = true := by
      simpa [Text.isIdentifier] using h
    rw [checkName, hparts.1, hdollar, hparts.2]
    rfl

/-- The name of a call does not end before a character of it. -/
lemma endsName_of_isNameRest {c : Char} (h : Text.isNameRest c = true) : endsName c = false := by
  have hcomma : c ≠ ',' := by
    rintro rfl
    revert h
    decide
  rw [endsName, Text.isBlank_of_isNameRest h, Bool.false_or, beq_eq_false_iff_ne]
  exact hcomma

/-- The call that is named behind an at sign is read with its name. -/
lemma ofText_of_namesCall (h : NamesCall t text) : ∃ args, ofText text = .ok ⟨t.text, args⟩ := by
  obtain ⟨name, behind, rfl, rfl, hname, hbehind⟩ := h
  have hin : ∀ c ∈ name, (!endsName c) = true := by
    intro c hc
    rw [endsName_of_isNameRest (Text.isNameRest_of_mem hname c hc), Bool.not_false]
  have hout : behind.takeWhile (fun c => !endsName c) = [] := by
    cases behind with
    | nil => rfl
    | cons c behind =>
      have hblank : Text.isBlank c = true := hbehind
      exact List.takeWhile_cons_of_neg (by simp [endsName, hblank])
  have htake : (name ++ behind).takeWhile (fun c => !endsName c) = name := by
    rw [List.takeWhile_append_of_pos hin, hout, List.append_nil]
  refine ⟨argsOf (Text.trim ((name ++ behind).dropWhile fun c => !endsName c)), ?_⟩
  rw [ofText]
  dsimp only
  rw [htake, checkName_of_isIdentifier hname]

/-! ### The whole line -/

/-- What the search finds on a line, by the calls among its tokens. -/
lemma ofLine?_of_tokensFrom (h : Lexer.tokensFrom false (Text.trim line.toList) = .ok tokens) :
    (callsAmong tokens = [] ∧ ofLine? line = .ok none) ∨
      (∃ t args, callsAmong tokens = [t] ∧ ofLine? line = .ok (some ⟨t.text, args⟩)) ∨
      ∃ t t' rest, callsAmong tokens = t :: t' :: rest ∧ ofLine? line = .error .severalCalls := by
  obtain ⟨first, texts, hfields, hnames⟩ := callFields_of_tokenize h
  unfold ofLine?
  dsimp only
  rw [show fieldsAt '@' .outside (beforeMark ';' .outside line.toList) = first :: texts from hfields]
  generalize callsAmong tokens = calls at hnames
  cases hnames with
  | nil => exact .inl ⟨rfl, rfl⟩
  | cons hname hrest =>
    cases hrest with
    | nil =>
      obtain ⟨args, hcall⟩ := ofText_of_namesCall hname
      exact .inr (.inl ⟨_, args, rfl, congrArg (Except.map some) hcall⟩)
    | cons _ _ => exact .inr (.inr ⟨_, _, _, rfl, rfl⟩)

/-- On a line without a malformed token, the search finds no call exactly if there is none among the
tokens, and a call exactly if there is one, which then has the name that the token gives; it refuses
the line because of several calls exactly if there are two or more, and for no other reason. -/
theorem search_agrees (line : String) (h : ∀ t ∈ tokenize line, ∀ e, t.kind ≠ .malformed e) :
    let calls := (tokenize line).filter fun t => t.kind == .call
    (ofLine? line = .ok none ↔ calls = []) ∧
      ((∃ call, ofLine? line = .ok (some call)) ↔ ∃ t, calls = [t]) ∧
      (∀ call t, ofLine? line = .ok (some call) → calls = [t] → call.name = t.text) ∧
      (ofLine? line = .error .severalCalls ↔ 2 ≤ calls.length) ∧
      ∀ e, ofLine? line = .error e → e = .severalCalls := by
  intro calls
  obtain ⟨tokens, htokens⟩ : ∃ tokens, Lexer.tokensFrom false (Text.trim line.toList) = .ok tokens := by
    cases hscan : Lexer.tokensFrom false (Text.trim line.toList) with
    | ok tokens => exact ⟨tokens, rfl⟩
    | error e =>
      rw [tokenize, hscan] at h
      exact absurd rfl (h _ List.mem_cons_self e.1)
  have hcalls : calls = callsAmong tokens := by
    dsimp only [calls]
    rw [tokenize, htokens]
    rfl
  rw [hcalls]
  rcases ofLine?_of_tokensFrom htokens with ⟨hnone, hline⟩ | ⟨t, args, hone, hline⟩ |
    ⟨t, t', rest, hmany, hline⟩
  · simp [hnone, hline]
  · simp [hone, hline]
  · simp [hmany, hline]

/-- A line with a call among constants and before a comment that hold at signs, semicolons and
quotes. -/
def quotedLine : String := "s: .ASCII \"@;\\\"'\" @CALL x, '@','\\'' ;@NOT \"@"

/-- The call is found, and it is the only one. -/
theorem search_agrees_quoted :
    (∀ t ∈ tokenize quotedLine, ∀ e, t.kind ≠ .malformed e) ∧
      ((tokenize quotedLine).filter fun t => t.kind == .call) = [⟨.call, "CALL"⟩] ∧
      ∃ call, ofLine? quotedLine = .ok (some call) ∧ call.name = "CALL" := by
  have htokens : tokenize quotedLine = [⟨.label, "s"⟩, ⟨.directive, "ASCII"⟩, ⟨.stringConstant, "\"@;\\\"'\""⟩,
      ⟨.call, "CALL"⟩, ⟨.identifier, "x"⟩, ⟨.charConstant, "'@'"⟩, ⟨.charConstant, "'\\''"⟩,
      ⟨.comment, ";@NOT \"@"⟩, Token.lineEnd] := by
    decide +kernel
  have hproper : ∀ t ∈ tokenize quotedLine, ∀ e, t.kind ≠ .malformed e := by
    simp [htokens, Token.lineEnd]
  have hcalls : ((tokenize quotedLine).filter fun t => t.kind == .call) = [⟨.call, "CALL"⟩] := by
    rw [htokens]
    decide
  obtain ⟨-, hsome, hname, -⟩ := search_agrees quotedLine hproper
  obtain ⟨call, hcall⟩ := hsome.2 ⟨_, hcalls⟩
  exact ⟨hproper, hcalls, call, hcall, hname call _ hcall hcalls⟩

end Pep10.MacroCall
