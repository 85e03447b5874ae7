import Pep10.Line.Reader
import Pep10.Proofs.Token.Lexeme

/-!
# The tokens of an argument list

Behind a macro call the lexer passes over commas as it passes over blanks.  An argument that is a
single token by itself is the same token wherever it stands in the list, as long as a blank, a comma
or a comment follows it (`scanToken_append`).  So a list whose fields are single tokens becomes one
token for each field (`tokensFrom_fields`).
-/

namespace Pep10

/-- The kinds of tokens that can be arguments. -/
def argumentKinds : List Token.Kind :=
  [.identifier, .hexadecimal, .decimal, .charConstant, .stringConstant]

/-- A text that is one argument: its only token is of a kind that can be an argument, and the text
is all of it. -/
def IsSingle (arg : String) : Prop :=
  ∃ kind ∈ argumentKinds, tokenize arg = [⟨kind, arg⟩, Token.lineEnd]

instance (arg : String) : Decidable (IsSingle arg) := inferInstanceAs (Decidable (∃ _ ∈ _, _))

lemma isArgument_of_mem {kind : Token.Kind} (h : kind ∈ argumentKinds) (text : String) :
    Reader.isArgument ⟨kind, text⟩ = true := by
  simp only [argumentKinds, List.mem_cons, List.not_mem_nil, or_false] at h
  rcases h with rfl | rfl | rfl | rfl | rfl <;> rfl

namespace Lexer

open Text (DecimalNumeral HexDigit HexNumeral QuotedUnit quoted)

variable {c : Char} {s rest tail : List Char} {t : Token} {tokens : List Token} {afterCall : Bool}

/-- Whether an argument ends before the character. -/
def endsArgument (c : Char) : Bool := Text.isBlank c || c == ',' || c == ';'

/-! ### Runs of characters -/

lemma isNameRest_of_isDigit (h : c.isDigit = true) : Text.isNameRest c = true := by
  simp [Text.isNameRest, Char.isAlphanum, h]

lemma isNameRest_of_isHexDigit (h : Text.isHexDigit c = true) : Text.isNameRest c = true := by
  simp only [Text.isHexDigit, Bool.or_eq_true, Bool.and_eq_true, decide_eq_true_eq] at h
  delta Text.isNameRest Char.isAlphanum Char.isAlpha Char.isUpper Char.isLower
  simp only [Bool.or_eq_true, Bool.and_eq_true, decide_eq_true_eq]
  rcases h with (h | ⟨h1, h2⟩) | ⟨h1, h2⟩
  · exact .inl (.inr h)
  · exact .inl (.inl (.inr ⟨h1, Nat.le_trans h2 (by decide)⟩))
  · exact .inl (.inl (.inl ⟨h1, Nat.le_trans h2 (by decide)⟩))

/-- No character of a name ends an argument. -/
lemma isNameRest_of_endsArgument (h : endsArgument c = true) : Text.isNameRest c = false := by
  rw [← Bool.not_eq_true]
  intro hname
  simp only [endsArgument, Text.isBlank_of_isNameRest hname, Bool.false_or, Bool.or_eq_true,
    beq_iff_eq] at h
  rcases h with rfl | rfl <;> revert hname <;> decide

/-- An argument ends before blanks. -/
lemma endsArgument_append {blanks : List Char} (hblanks : ∀ c ∈ blanks, Text.isBlank c = true)
    (h : tail.head?.all endsArgument = true) :
    (blanks ++ tail).head?.all endsArgument = true := by
  cases blanks with
  | nil => exact h
  | cons c blanks => simp [endsArgument, hblanks c List.mem_cons_self]

/-- A run of characters of names ends where an argument does. -/
lemma takeWhile_run {p : Char → Bool} (hp : ∀ c, p c = true → Text.isNameRest c = true)
    (hrun : ∀ c ∈ s, p c = true) (htail : tail.head?.all endsArgument = true) :
    (s ++ tail).takeWhile p = s ∧ (s ++ tail).dropWhile p = tail := by
  have hstop : tail.takeWhile p = [] ∧ tail.dropWhile p = tail := by
    cases tail with
    | nil => exact ⟨rfl, rfl⟩
    | cons c tail =>
      have hc : ¬p c = true := fun hpc =>
        absurd (hp c hpc) (by simp [isNameRest_of_endsArgument (c := c) htail])
      exact ⟨List.takeWhile_cons_of_neg hc, List.dropWhile_cons_of_neg hc⟩
  rw [List.takeWhile_append_of_pos hrun, List.dropWhile_append_of_pos hrun, hstop.1, hstop.2, List.append_nil]
  exact ⟨rfl, rfl⟩

/-! ### One lemma for each scanner -/

/-- The text is scanned as the token wherever an argument may end behind it. -/
def Scans (w : List Char) (t : Token) : Prop :=
  ∃ c v, w = c :: v ∧ endsArgument c = false ∧
    ∀ tail, tail.head?.all endsArgument = true → scanToken c (v ++ tail) = .ok (t, tail)

lemma endsArgument_of_isNameRest (h : Text.isNameRest c = true) : endsArgument c = false := by
  rw [← Bool.not_eq_true]
  intro hends
  rw [isNameRest_of_endsArgument hends] at h
  cases h

lemma scanRun_run {kind : Token.Kind} {error : LexicalError} {lead : List Char} {p : Char → Bool}
    (hp : ∀ c, p c = true → Text.isNameRest c = true) (hne : s ≠ []) (hrun : ∀ c ∈ s, p c = true)
    (htail : tail.head?.all endsArgument = true) :
    scanRun kind error lead p (s ++ tail) = .ok (⟨kind, String.ofList (lead ++ s)⟩, tail) := by
  have hhead : (s ++ tail).head?.any p = true := by
    obtain ⟨c, v, rfl⟩ := List.exists_cons_of_ne_nil hne
    exact hrun c List.mem_cons_self
  obtain ⟨htake, hdrop⟩ := takeWhile_run hp hrun htail
  rw [scanRun, if_pos hhead, htake, hdrop]

lemma scans_hexadecimal (n : HexNumeral) : Scans n.text ⟨.hexadecimal, String.ofList n.text⟩ := by
  refine ⟨'0', n.mark :: n.digits.map HexDigit.char, rfl, by decide, fun tail htail => ?_⟩
  have hmark : scanToken '0' (n.mark :: (n.digits.map HexDigit.char ++ tail)) =
      scanRun .hexadecimal .hexadecimal ['0', n.mark] Text.isHexDigit (n.digits.map HexDigit.char ++ tail) := by
    rcases n.mark_eq with h | h <;> rw [h] <;> rfl
  rw [List.cons_append, hmark]
  exact scanRun_run (fun _ => isNameRest_of_isHexDigit) (mt List.map_eq_nil_iff.1 n.digits_ne_nil)
    (fun c => n.isHexDigit_of_mem) htail

/-- A digit that does not begin a hexadecimal constant begins a decimal one. -/
lemma scanToken_of_isDigit (hc : c.isDigit = true) (hx : marksHexadecimal s = false) :
    scanToken c s =
      .ok (⟨.decimal, String.ofList (c :: s.takeWhile Char.isDigit)⟩, s.dropWhile Char.isDigit) := by
  have hall : ['$', '@', ',', '\'', ';', '+', '-'].all (! Char.isDigit ·) = true := by decide
  have hne : ∀ d ∈ ['$', '@', ',', '\'', ';', '+', '-'], c ≠ d := by
    rintro d hd rfl
    have hd := List.all_eq_true.1 hall c hd
    rw [hc] at hd
    cases hd
  simp only [List.forall_mem_cons] at hne
  obtain ⟨h1, h2, h3, h4, h5, h6, h7, -⟩ := hne
  simp [scanToken, h1, h2, h3, h4, h5, h6, h7, hx, hc]

/-- Neither a digit nor the end of an argument marks a hexadecimal constant. -/
lemma marksHexadecimal_append (hs : ∀ c ∈ s, c.isDigit = true) (htail : tail.head?.all endsArgument = true) :
    marksHexadecimal (s ++ tail) = false := by
  have hmark : ∀ c : Char, c.isDigit = true ∨ endsArgument c = true → (c == 'x' || c == 'X') = false := by
    intro c hc
    rw [← Bool.not_eq_true, Bool.or_eq_true, beq_iff_eq, beq_iff_eq]
    rintro (rfl | rfl) <;> revert hc <;> decide
  cases s with
  | nil =>
    cases tail with
    | nil => rfl
    | cons c tail => exact hmark c (.inr htail)
  | cons c s => exact hmark c (.inl (hs c List.mem_cons_self))

lemma scans_decimal (n : DecimalNumeral) : Scans n.text ⟨.decimal, String.ofList n.text⟩ := by
  have hdigits : ∀ c ∈ n.digits.map Text.decimalChar, c.isDigit = true := fun c => n.isDigit_of_mem
  have hne : n.digits.map Text.decimalChar ≠ [] := mt List.map_eq_nil_iff.1 n.digits_ne_nil
  unfold DecimalNumeral.text
  generalize n.digits.map Text.decimalChar = digits at hdigits hne
  have hsigned : ∀ c, (c == '+' || c == '-') = true →
      Scans (c :: digits) ⟨.decimal, String.ofList (c :: digits)⟩ := by
    intro c hc
    refine ⟨c, digits, rfl, ?_, fun tail htail => ?_⟩
    · simp only [Bool.or_eq_true, beq_iff_eq] at hc
      rcases hc with rfl | rfl <;> decide
    · have hrun : scanToken c (digits ++ tail) =
          scanRun .decimal .decimal [c] Char.isDigit (digits ++ tail) := by
        simp only [Bool.or_eq_true, beq_iff_eq] at hc
        rcases hc with rfl | rfl <;> rfl
      rw [hrun]
      exact scanRun_run (fun _ => isNameRest_of_isDigit) hne hdigits htail
  cases n.sign with
  | plus => exact hsigned '+' rfl
  | minus => exact hsigned '-' rfl
  | absent =>
    obtain ⟨c, v, rfl⟩ := List.exists_cons_of_ne_nil hne
    obtain ⟨hc, hv⟩ := List.forall_mem_cons.1 hdigits
    refine ⟨c, v, rfl, endsArgument_of_isNameRest (isNameRest_of_isDigit hc), fun tail htail => ?_⟩
    obtain ⟨htake, hdrop⟩ := takeWhile_run (fun _ => isNameRest_of_isDigit) hv htail
    rw [scanToken_of_isDigit hc (marksHexadecimal_append hv htail), htake, hdrop]
    rfl

lemma scans_charConstant (u : QuotedUnit '\'') (hbyte : u.bytes.length = 1) :
    Scans (quoted [u]) ⟨.charConstant, String.ofList (quoted [u])⟩ := by
  refine ⟨'\'', _, rfl, by decide, fun tail _ => ?_⟩
  have hscan : scanChar (u.text ++ '\'' :: tail) = .ok (⟨.charConstant, String.ofList (quoted [u])⟩, tail) :=
    scanChar_eq_ok_iff.2 ⟨u, hbyte, rfl, rfl⟩
  rw [List.flatMap_singleton, List.append_assoc]
  exact hscan

lemma scans_stringConstant (units : List (QuotedUnit '"')) :
    Scans (quoted units) ⟨.stringConstant, String.ofList (quoted units)⟩ := by
  refine ⟨'"', _, rfl, by decide, fun tail _ => ?_⟩
  have hscan : scanString (units.flatMap QuotedUnit.text ++ '"' :: tail) =
      .ok (⟨.stringConstant, String.ofList (quoted units)⟩, tail) := scanString_eq_ok_iff.2 ⟨units, rfl, rfl⟩
  rw [List.append_assoc]
  exact hscan

lemma dropWhile_identifier (h : Text.isIdentifier s = true) (ht : rest.head?.any Text.isNameRest = false) :
    (s ++ rest).dropWhile Text.isNameRest = rest := by
  have hsplit := List.takeWhile_append_dropWhile (p := Text.isNameRest) (l := s ++ rest)
  rw [Text.takeWhile_identifier h ht] at hsplit
  exact List.append_cancel_left hsplit

/-- A character that may begin a name begins one. -/
lemma scanToken_of_isNameStart (hc : Text.isNameStart c = true) : scanToken c s = scanName c s := by
  have hall : ['$', '@', ',', '\'', ';', '0', '+', '-', '.'].all (! Text.isNameStart ·) = true := by decide
  have hne : ∀ d ∈ ['$', '@', ',', '\'', ';', '0', '+', '-', '.'], c ≠ d := by
    rintro d hd rfl
    have hd := List.all_eq_true.1 hall c hd
    rw [hc] at hd
    cases hd
  simp only [List.forall_mem_cons] at hne
  obtain ⟨h1, h2, h3, h4, h5, h6, h7, h8, h9, -⟩ := hne
  simp [scanToken, h1, h2, h3, h4, h5, h6, h7, h8, h9, Text.isDigit_of_isNameStart hc, hc]

/-- An identifier is scanned as a name up to where no character of a name follows. -/
lemma scanToken_identifier (h : Text.isIdentifier (c :: s) = true)
    (htail : tail.head?.any Text.isNameRest = false) :
    scanToken c (s ++ tail) = .ok (nameToken (c :: s) tail) := by
  have hc : Text.isNameStart c = true := (Bool.and_eq_true_iff.1 h).1
  have hrest := Text.isNameRest_of_isNameStart hc
  have htake := Text.takeWhile_identifier h htail
  have hdrop := dropWhile_identifier h htail
  rw [List.cons_append, List.takeWhile_cons_of_pos hrest] at htake
  rw [List.cons_append, List.dropWhile_cons_of_pos hrest] at hdrop
  rw [scanToken_of_isNameStart hc, scanName, htake, hdrop]

lemma scans_identifier (h : Text.isIdentifier s = true) : Scans s ⟨.identifier, String.ofList s⟩ := by
  cases s with
  | nil => cases h
  | cons c s =>
    have hc := Text.isNameRest_of_mem h c List.mem_cons_self
    refine ⟨c, s, rfl, endsArgument_of_isNameRest hc, fun tail htail => ?_⟩
    cases tail with
    | nil => rw [scanToken_identifier h rfl, nameToken]; exact nofun
    | cons d tail =>
      have hd : endsArgument d = true := htail
      have hname : (d :: tail).head?.any Text.isNameRest = false := isNameRest_of_endsArgument hd
      rw [scanToken_identifier h hname, nameToken]
      rintro rest heq
      obtain ⟨rfl, -⟩ := List.cons.inj heq
      exact absurd hd (by decide)

/-- What the grammar allows for an argument is scanned as the argument wherever it may end. -/
theorem Derives.scans {w : List Char} (h : Derives t w rest) (ht : Reader.isArgument t = true) : Scans w t := by
  cases h with
  | charConstant u hbyte => exact scans_charConstant u hbyte
  | hexadecimal n => exact scans_hexadecimal n
  | decimal n => exact scans_decimal n
  | identifier hname => exact scans_identifier hname
  | stringConstant units => exact scans_stringConstant units
  | _ => cases ht

/-- An argument is the same token in a longer text, if it comes to its end there. -/
theorem scanToken_append (h : scanToken c s = .ok (t, rest)) (ht : Reader.isArgument t = true)
    (htail : (rest ++ tail).head?.all endsArgument = true) :
    scanToken c (s ++ tail) = .ok (t, rest ++ tail) := by
  obtain ⟨w, hw, hderives⟩ := exists_derives h
  obtain ⟨c, v, rfl, -, hscan⟩ := hderives.scans ht
  obtain ⟨rfl, rfl⟩ := List.cons.inj (hw.trans List.cons_append)
  rw [List.append_assoc]
  exact hscan _ htail

/-! ### The tokens of a text -/

/-- How a text splits, said without the proofs that the text gets shorter. -/
lemma tokensFrom_eq : tokensFrom afterCall s =
    match Text.trimStart s with
    | [] => .ok [Token.lineEnd]
    | c :: s' =>
      if afterCall && c == ',' then tokensFrom afterCall s'
      else
        match scanToken c s' with
        | .error e => .error e
        | .ok (t, rest) => (tokensFrom (afterCall || t.kind == .call) rest).map (t :: ·) := by
  rw [tokensFrom]
  split
  next hs => rw [hs]
  next c s' hs =>
    simp only [hs]
    split
    · rfl
    · split
      next hscan => simp only [hscan]
      next t rest hscan =>
        simp only [hscan]
        cases tokensFrom (afterCall || t.kind == .call) rest <;> rfl

/-- Leading blanks do not matter. -/
lemma tokensFrom_blanks {blanks : List Char} (h : ∀ c ∈ blanks, Text.isBlank c = true) :
    tokensFrom afterCall (blanks ++ s) = tokensFrom afterCall s := by
  have htrim : Text.trimStart (blanks ++ s) = Text.trimStart s := List.dropWhile_append_of_pos h
  rw [tokensFrom_eq, htrim, ← tokensFrom_eq]

/-- Behind a call, a comma does not matter either. -/
lemma tokensFrom_comma : tokensFrom true (',' :: s) = tokensFrom true s := by
  have hcomma : Text.trimStart (',' :: s) = ',' :: s := List.dropWhile_cons_of_neg (by decide)
  rw [tokensFrom_eq, hcomma]
  rfl

/-- A token that begins a text is the first one of it. -/
lemma tokensFrom_cons (hblank : Text.isBlank c = false) (hcomma : c ≠ ',')
    (h : scanToken c s = .ok (t, rest)) :
    tokensFrom afterCall (c :: s) =
      (tokensFrom (afterCall || t.kind == .call) rest).map (t :: ·) := by
  have hstart : Text.trimStart (c :: s) = c :: s := List.dropWhile_cons_of_neg (by simp [hblank])
  rw [tokensFrom_eq, hstart]
  simp [hcomma, h]

/-- The first token of a text, as long as no call has been seen. -/
lemma tokensFrom_eq_cons (h : tokensFrom false s = .ok (t :: tokens)) (ht : t.kind ≠ .lineEnd) :
    ∃ c s' rest, Text.trimStart s = c :: s' ∧ scanToken c s' = .ok (t, rest) ∧
      tokensFrom (t.kind == .call) rest = .ok tokens := by
  rw [tokensFrom_eq] at h
  split at h
  next =>
    cases h
    exact absurd rfl ht
  next c s' hs =>
    simp only [Bool.false_and, Bool.false_eq_true, if_false, Bool.false_or] at h
    split at h
    · cases h
    next t' rest hscan =>
      cases hrest : tokensFrom (t'.kind == .call) rest with
      | error e => rw [hrest] at h; cases h
      | ok tokens' =>
        rw [hrest] at h
        cases h
        exact ⟨c, s', rest, hs, hscan, hrest⟩

/-- A text has no tokens only if it is blank. -/
lemma isBlank_of_tokensFrom (h : tokensFrom false s = .ok [Token.lineEnd]) :
    ∀ c ∈ s, Text.isBlank c = true := by
  have hnil : Text.trimStart s = [] := by
    rcases tokensFrom_eq_ok h with ⟨hs, -⟩ | ⟨w, rest, t, tokens, -, hlex, -, heq⟩
    · exact hs
    · cases heq
      cases hlex
  intro c hc
  exact List.dropWhile_eq_nil_iff.1 hnil c hc

/-! ### Arguments in a list -/

/-- A single argument in front of a text is its first token, if the argument comes to its end
there. -/
lemma tokensFrom_single {arg : String} (h : IsSingle arg)
    (htail : tail.head?.all endsArgument = true) :
    ∃ t, Reader.isArgument t = true ∧ t.text = arg ∧
      tokensFrom true (arg.toList ++ tail) = (tokensFrom true tail).map (t :: ·) := by
  obtain ⟨kind, hmem, htokens⟩ := h
  have harg := isArgument_of_mem hmem arg
  have hend : kind ≠ .lineEnd := by rintro rfl; cases harg
  have hcall : (kind == Token.Kind.call) = false := by
    rw [beq_eq_false_iff_ne]
    rintro rfl
    cases harg
  obtain ⟨c, s, rest, hs, hscan, hrest⟩ := tokensFrom_eq_cons
    (tokenize_eq htokens fun e he => by cases he; cases harg) hend
  rw [hcall] at hrest
  have hblanks := isBlank_of_tokensFrom hrest
  -- The argument is the token, with blanks around it.
  obtain ⟨l, r, harg_eq, hl, hr⟩ := Text.exists_trim arg.toList
  have htrim : Text.trim arg.toList = (Text.trim arg.toList).takeWhile Text.isBlank ++ c :: s := by
    rw [← hs, Text.trimStart, List.takeWhile_append_dropWhile]
  have hc : Text.isBlank c = false := Text.head?_dropWhile_eq_false hs
  have hcomma : c ≠ ',' := by
    rintro rfl
    obtain ⟨w, hw, hderives⟩ := exists_derives hscan
    obtain ⟨c, v, rfl, hcomma, -⟩ := hderives.scans harg
    cases hw
    cases hcomma
  have hbehind := endsArgument_append hblanks (endsArgument_append hr htail)
  refine ⟨⟨kind, arg⟩, harg, rfl, ?_⟩
  rw [harg_eq, htrim, List.append_assoc, tokensFrom_blanks hl, List.append_assoc,
    List.append_assoc, tokensFrom_blanks fun c hc => List.mem_takeWhile_imp hc, List.cons_append,
    tokensFrom_cons hc hcomma (scanToken_append hscan harg hbehind), hcall, Bool.or_false,
    tokensFrom_blanks hblanks, tokensFrom_blanks hr]

/-- A list whose fields are single arguments becomes one token for each field. -/
theorem tokensFrom_fields {fields : List (List Char)}
    (hfields : MacroCall.fieldsAt ',' .outside s = fields)
    (hsingle : ∀ field ∈ fields, IsSingle (String.ofList (Text.trim field)))
    (htail : tail.head?.all endsArgument = true) :
    ∃ tokens : List Token, (∀ t ∈ tokens, Reader.isArgument t = true) ∧
      tokens.map Token.text = fields.map (fun field => String.ofList (Text.trim field)) ∧
      tokensFrom true (s ++ tail) = (tokensFrom true tail).map (tokens ++ ·) := by
  induction fields generalizing s with
  | nil => exact absurd hfields (MacroCall.fieldsAt_ne_nil _ _ _)
  | cons field fields ih =>
    rw [List.forall_mem_cons] at hsingle
    obtain ⟨l, r, hfield, hl, hr⟩ := Text.exists_trim field
    have hfirst : ∀ behind : List Char, behind.head?.all endsArgument = true →
        ∃ t, Reader.isArgument t = true ∧ t.text = String.ofList (Text.trim field) ∧
          tokensFrom true (field ++ behind) = (tokensFrom true behind).map (t :: ·) := by
      intro behind hbehind
      obtain ⟨t, harg, htext, htokens⟩ :=
        tokensFrom_single hsingle.1 (endsArgument_append hr hbehind)
      refine ⟨t, harg, htext, ?_⟩
      rw [String.toList_ofList] at htokens
      rw [hfield, List.append_assoc, tokensFrom_blanks hl, List.append_assoc, htokens,
        tokensFrom_blanks hr]
    rcases MacroCall.fieldsAt_eq_cons hfields with ⟨rfl, rfl⟩ | ⟨s', rfl, hrest⟩
    · obtain ⟨t, harg, htext, htokens⟩ := hfirst tail htail
      exact ⟨[t], List.forall_mem_singleton.2 harg, by simp [htext], htokens⟩
    · obtain ⟨tokens, hargs, htexts, htokens⟩ := ih hrest hsingle.2
      obtain ⟨t, harg, htext, hfirst⟩ := hfirst (',' :: (s' ++ tail))
        (show endsArgument ',' = true by decide)
      refine ⟨t :: tokens, List.forall_mem_cons.2 ⟨harg, hargs⟩, by simp [htext, htexts], ?_⟩
      rw [List.append_assoc, List.cons_append, hfirst, tokensFrom_comma, htokens]
      cases tokensFrom true tail <;> rfl

end Lexer

end Pep10
