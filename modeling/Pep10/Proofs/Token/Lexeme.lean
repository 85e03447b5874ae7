import Pep10.Proofs.Macro.Quotation
import Pep10.Proofs.Token.Grammar

/-!
# The text of a token

Every token is cut off the front of a text.  `IsLexeme` tells what has been cut off, as far as it
matters to the search for macro calls: a call is an at sign and a name, a label is a name and a
colon, a comment is a semicolon and all the rest.  The text of any other token is neutral: it holds
no at sign and no semicolon outside of quoted constants, and every quoted constant that begins in it
also ends in it.
-/

namespace Pep10

open MacroCall (Hides IsQuote Quotation)
open Text (HexDigit QuotedUnit quoted)

/-! ### Neutral text -/

/-- A text that shows no at sign and no semicolon, and ends outside of quoted constants. -/
structure Neutral (w : List Char) : Prop where
  hides_at : Hides '@' .outside w
  hides_semicolon : Hides ';' .outside w
  after_eq : Quotation.outside.after w = .outside

/-- A character that means nothing to the search for macro calls. -/
def IsPlain (c : Char) : Prop := ¬IsQuote c ∧ c ≠ '@' ∧ c ≠ ';'

instance (c : Char) : Decidable (IsQuote c) := inferInstanceAs (Decidable (_ ∨ _))

instance (c : Char) : Decidable (IsPlain c) := inferInstanceAs (Decidable (_ ∧ _))

namespace Neutral

lemma of_plain {w : List Char} (h : ∀ c ∈ w, IsPlain c) : Neutral w where
  hides_at := MacroCall.hides_of_not_mem fun hw => (h _ hw).2.1 rfl
  hides_semicolon := MacroCall.hides_of_not_mem fun hw => (h _ hw).2.2 rfl
  after_eq := Quotation.after_outside fun c hc => (h c hc).1

end Neutral

/-- A class of characters without the four that matter. -/
lemma isPlain_of_class {p : Char → Bool}
    (hp : p '\'' = false ∧ p '"' = false ∧ p '@' = false ∧ p ';' = false) {c : Char}
    (h : p c = true) : IsPlain c := by
  obtain ⟨h1, h2, h3, h4⟩ := hp
  refine ⟨?_, ?_, ?_⟩
  · rintro (rfl | rfl)
    · rw [h1] at h
      cases h
    · rw [h2] at h
      cases h
  · rintro rfl
    rw [h3] at h
    cases h
  · rintro rfl
    rw [h4] at h
    cases h

lemma isPlain_of_isBlank {c : Char} (h : Text.isBlank c = true) : IsPlain c :=
  isPlain_of_class (by decide) h

lemma isPlain_of_isNameRest {c : Char} (h : Text.isNameRest c = true) : IsPlain c :=
  isPlain_of_class (by decide) h

lemma isPlain_of_isHexDigit {c : Char} (h : Text.isHexDigit c = true) : IsPlain c :=
  isPlain_of_class (by decide) h

lemma isPlain_of_isDigit {c : Char} (h : c.isDigit = true) : IsPlain c :=
  isPlain_of_class (by decide) h

namespace Lexer

variable {c : Char} {s rest : List Char} {t : Token}

/-! ### Quoted constants -/

/-- A text that is read inside a quoted constant and does not end it. -/
def StaysInside (quote : Char) (u : List Char) : Prop :=
  (Quotation.inside quote).after u = .inside quote ∧ ∀ mark, Hides mark (.inside quote) u

lemma StaysInside.append {quote : Char} {u v : List Char} (h : StaysInside quote u)
    (h' : StaysInside quote v) : StaysInside quote (u ++ v) :=
  ⟨by rw [Quotation.after_append, h.1, h'.1],
    fun mark => MacroCall.hides_append.2 ⟨h.2 mark, by rw [h.1]; exact h'.2 mark⟩⟩

/-- A character other than the quote and the backslash stays inside. -/
lemma staysInside_char {quote : Char} (hquote : c ≠ quote) (hslash : c ≠ '\\') :
    StaysInside quote [c] := by
  refine ⟨?_, fun mark => ⟨?_, trivial⟩⟩
  · simp [Quotation.after, Quotation.next, hquote, hslash]
  · simp [Quotation.exposes]

/-- An escaped character stays inside, whatever it is. -/
lemma staysInside_escape (quote : Char) (c : Char) : StaysInside quote ['\\', c] := by
  refine ⟨?_, fun mark => ⟨?_, ?_, trivial⟩⟩
  · simp [Quotation.after, Quotation.next]
  · simp [Quotation.exposes]
  · simp [Quotation.exposes, Quotation.next]

lemma staysInside_hexDigit {quote : Char} (hquote : IsQuote quote) (d : HexDigit) :
    StaysInside quote [d.char] := by
  refine staysInside_char ?_ ?_
  · intro heq
    exact (isPlain_of_isHexDigit d.isHexDigit_char).1 (heq ▸ hquote)
  · intro heq
    exact absurd (heq ▸ d.isHexDigit_char) (by decide)

/-- A unit of a quoted constant does not end the constant. -/
lemma staysInside_unit {quote : Char} (hquote : IsQuote quote) (u : QuotedUnit quote) :
    StaysInside quote u.text := by
  cases u with
  | plain c hc hslash => exact staysInside_char hc hslash
  | escape e => exact staysInside_escape quote e.letter
  | hex upper high low =>
    exact (staysInside_escape quote _).append
      ((staysInside_hexDigit hquote high).append (staysInside_hexDigit hquote low))

lemma staysInside_units {quote : Char} (hquote : IsQuote quote) (units : List (QuotedUnit quote)) :
    StaysInside quote (units.flatMap QuotedUnit.text) := by
  induction units with
  | nil => exact ⟨rfl, fun _ => trivial⟩
  | cons u units ih => exact (staysInside_unit hquote u).append ih

/-- A quoted constant is neutral. -/
lemma neutral_quoted {quote : Char} (hquote : IsQuote quote) (units : List (QuotedUnit quote)) :
    Neutral (quoted units) := by
  have hu := staysInside_units hquote units
  have hne : quote ≠ '\\' := by
    rcases hquote with rfl | rfl <;> decide
  have hopen : Quotation.outside.next quote = .inside quote := by
    rcases hquote with rfl | rfl <;> rfl
  have hclose : (Quotation.inside quote).next quote = .outside := by
    simp [Quotation.next, hne]
  have hhides : ∀ mark, Hides mark .outside (quoted units) := by
    intro mark
    refine ⟨fun hmark => (Quotation.exposes_iff.1 hmark.1).2 hquote, ?_⟩
    rw [hopen, MacroCall.hides_append, hu.1]
    exact ⟨hu.2 mark, by simp [Quotation.exposes], trivial⟩
  refine ⟨hhides '@', hhides ';', ?_⟩
  rw [quoted, Quotation.after_cons, hopen, Quotation.after_append, hu.1, Quotation.after_cons, hclose]
  rfl

/-! ### What is cut off for a token -/

/-- The text `w` has been cut off before `rest` for the token. -/
def IsLexeme (t : Token) (w rest : List Char) : Prop :=
  match t.kind with
  | .call => ∃ name, w = '@' :: name ∧ t.text = String.ofList name ∧
      Text.isIdentifier name = true ∧ rest.head?.any Text.isNameRest = false
  | .label => ∃ name, w = name ++ [':'] ∧ t.text = String.ofList name ∧
      Text.isIdentifier name = true
  | .comment => ∃ text, w = ';' :: text ∧ rest = []
  | .lineEnd => False
  | .malformed _ => False
  | _ => Neutral w

/-- What is cut off for a token that is neither a call nor a comment is neutral. -/
lemma IsLexeme.neutral {w : List Char} (h : IsLexeme t w rest) (hcall : t.kind ≠ .call)
    (hcomment : t.kind ≠ .comment) : Neutral w := by
  unfold IsLexeme at h
  split at h
  next hkind => exact absurd hkind hcall
  · obtain ⟨name, rfl, -, hname⟩ := h
    refine .of_plain (List.forall_mem_append.2 ⟨fun c hc => ?_, ?_⟩)
    · exact isPlain_of_isNameRest (Text.isNameRest_of_mem hname c hc)
    · exact List.forall_mem_singleton.2 (by decide)
  next hkind => exact absurd hkind hcomment
  · exact h.elim
  · exact h.elim
  · exact h

/-- Where a call may end, no character of a name follows. -/
lemma isNameRest_of_endsCall (h : endsCall rest = true) : rest.head?.any Text.isNameRest = false := by
  cases rest with
  | nil => rfl
  | cons c rest =>
    rw [← Bool.not_eq_true]
    intro hname
    have hc : Text.isNameRest c = true := hname
    simp only [endsCall, List.head?_cons, Option.all_some, Text.isBlank_of_isNameRest hc, Bool.false_or,
      beq_iff_eq] at h
    rw [h] at hc
    exact absurd hc (by decide)

/-- The rules of the grammar, as far as they matter to the search for calls. -/
lemma Derives.isLexeme {w : List Char} (h : Derives t w rest) : IsLexeme t w rest := by
  cases h with
  | placeholder _ hdigits =>
    exact .of_plain (List.forall_mem_cons.2 ⟨by decide, fun c hc => isPlain_of_isDigit (hdigits c hc)⟩)
  | call hname hends => exact ⟨_, rfl, rfl, hname, isNameRest_of_endsCall hends⟩
  | mode mode hblanks hname =>
    refine .of_plain (List.forall_mem_cons.2 ⟨by decide, List.forall_mem_append.2 ⟨?_, ?_⟩⟩)
    · exact fun c hc => isPlain_of_isBlank (hblanks c hc)
    · exact fun c hc => isPlain_of_isNameRest (isNameRest_of_modeName hname c hc)
  | charConstant u _ => exact neutral_quoted (.inl rfl) [u]
  | comment text => exact ⟨text, rfl, rfl⟩
  | hexadecimal n =>
    have hmark : IsPlain n.mark := by rcases n.mark_eq with h | h <;> rw [h] <;> decide
    refine .of_plain (List.forall_mem_cons.2 ⟨by decide, List.forall_mem_cons.2 ⟨hmark, ?_⟩⟩)
    exact fun c hc => isPlain_of_isHexDigit (n.isHexDigit_of_mem hc)
  | decimal n =>
    have hsign : ∀ c ∈ n.sign.text, IsPlain c := by
      cases n.sign with
      | absent => exact List.forall_mem_nil _
      | plus => exact List.forall_mem_singleton.2 (by decide)
      | minus => exact List.forall_mem_singleton.2 (by decide)
    exact .of_plain (List.forall_mem_append.2 ⟨hsign, fun c hc => isPlain_of_isDigit (n.isDigit_of_mem hc)⟩)
  | directive _ hname =>
    exact .of_plain (List.forall_mem_cons.2 ⟨by decide, fun c hc => isPlain_of_isNameRest (hname c hc)⟩)
  | identifier hname =>
    exact .of_plain fun c hc => isPlain_of_isNameRest (Text.isNameRest_of_mem hname c hc)
  | label hname => exact ⟨_, rfl, rfl, hname⟩
  | stringConstant units => exact neutral_quoted (.inr rfl) units

/-- What is cut off for a token, by its kind. -/
theorem exists_lexeme (h : scanToken c s = .ok (t, rest)) : ∃ w, c :: s = w ++ rest ∧ IsLexeme t w rest := by
  obtain ⟨w, hw, hderives⟩ := exists_derives h
  exact ⟨w, hw, hderives.isLexeme⟩

/-! ### The tokens of a line -/

/-- As long as no macro call has been seen, a text is blank or begins with a token. -/
lemma tokensFrom_eq_ok {tokens : List Token} (h : tokensFrom false s = .ok tokens) :
    (Text.trimStart s = [] ∧ tokens = [Token.lineEnd]) ∨
      ∃ w rest t tokens', Text.trimStart s = w ++ rest ∧ IsLexeme t w rest ∧
        tokensFrom (t.kind == .call) rest = .ok tokens' ∧ tokens = t :: tokens' := by
  unfold tokensFrom at h
  split at h
  next hs =>
    cases h
    exact .inl ⟨hs, rfl⟩
  next c s' hs =>
    simp only [Bool.false_and, Bool.false_eq_true, if_false, Bool.false_or] at h
    split at h
    · cases h
    next t rest hscan =>
      split at h
      · cases h
      next tokens' hrest =>
        cases h
        obtain ⟨w, hw, hlex⟩ := exists_lexeme hscan
        exact .inr ⟨w, rest, t, tokens', hs.trans hw, hlex, hrest, rfl⟩

/-- The end of the line is the last token of a text, and no token before it is an end or
malformed. -/
lemma tokensFrom_eq_append {afterCall : Bool} {tokens : List Token}
    (h : tokensFrom afterCall s = .ok tokens) :
    ∃ front, tokens = front ++ [Token.lineEnd] ∧
      ∀ t ∈ front, t.kind ≠ .lineEnd ∧ ∀ e, t.kind ≠ .malformed e := by
  fun_induction tokensFrom afterCall s generalizing tokens with
  | case1 =>
    cases h
    exact ⟨[], rfl, List.forall_mem_nil _⟩
  | case2 _ _ _ _ _ _ _ ih => exact ih h
  | case3 => cases h
  | case4 => cases h
  | case5 _ _ c s' _ _ _ t rest hscan _ tokens' hrec ih =>
    cases h
    obtain ⟨front, rfl, hfront⟩ := ih hrec
    obtain ⟨w, -, hlex⟩ := exists_lexeme hscan
    refine ⟨t :: front, rfl, List.forall_mem_cons.2 ⟨⟨fun hkind => ?_, fun e hkind => ?_⟩, hfront⟩⟩
    all_goals
      rw [IsLexeme, hkind] at hlex
      exact hlex

lemma derives_of_mem_tokensFrom {afterCall : Bool} {tokens : List Token}
    (h : tokensFrom afterCall s = .ok tokens) (ht : t ∈ tokens) :
    t = Token.lineEnd ∨ ∃ w rest, Derives t w rest := by
  fun_induction tokensFrom afterCall s generalizing tokens with
  | case1 =>
    cases h
    exact .inl (List.mem_singleton.1 ht)
  | case2 _ _ _ _ _ _ _ ih => exact ih h ht
  | case3 => cases h
  | case4 => cases h
  | case5 _ _ c s' _ _ _ t' rest hscan _ tokens' hrec ih =>
    cases h
    rcases List.mem_cons.1 ht with rfl | ht
    · obtain ⟨w, -, hderives⟩ := exists_derives hscan
      exact .inr ⟨w, rest, hderives⟩
    · exact ih hrec ht

/-- Every token of a line comes from a rule of the grammar, unless it ends the line or replaces all
of it. -/
lemma derives_of_mem_tokenize {line : String} (ht : t ∈ tokenize line) (hend : t.kind ≠ .lineEnd)
    (hmalformed : ∀ e, t.kind ≠ .malformed e) : ∃ w rest, Derives t w rest := by
  unfold tokenize at ht
  split at ht
  next h =>
    rcases derives_of_mem_tokensFrom h ht with rfl | hderives
    · exact absurd rfl hend
    · exact hderives
  next =>
    cases List.mem_singleton.1 ht
    exact absurd rfl (hmalformed _)

/-- A line that does not consist of a malformed token alone splits into tokens. -/
lemma tokenize_eq {line : String} {t : Token} {tokens : List Token}
    (h : tokenize line = t :: tokens) (ht : ∀ e, t.kind ≠ .malformed e) :
    tokensFrom false (Text.trim line.toList) = .ok (t :: tokens) := by
  unfold tokenize at h
  split at h
  next heq => rw [heq, h]
  next =>
    cases h
    exact absurd rfl (ht _)

end Lexer

end Pep10
