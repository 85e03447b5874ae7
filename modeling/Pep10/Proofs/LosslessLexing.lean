import Pep10.Proofs.Token.Spelling

/-!
# Lexing loses nothing

A line that splits into tokens is the concatenation of their spellings, with gaps around them
(`tokenize_lossless`).  A gap is made of blanks; behind a macro call it can have commas as well,
since those separate arguments.  A line that does not split becomes one token with an end of the
line as its text.  The other way round, whatever the grammar allows for a token is split into just
this token.
-/

namespace Pep10

variable {s w gap rest tail : List Char} {t : Token} {tokens front : List Token} {afterCall : Bool}

/-- How a token is written: the at sign of a call, the point of a directive, the colon of a label
and the comma in front of a mode are not part of its text. -/
def Token.SpelledAs (t : Token) (w : List Char) : Prop :=
  match t.kind with
  | .call => w = '@' :: t.text.toList
  | .directive => w = '.' :: t.text.toList
  | .label => w = t.text.toList ++ [':']
  | .mode => ∃ blanks, (∀ c ∈ blanks, Text.isBlank c = true) ∧ w = ',' :: (blanks ++ t.text.toList)
  | _ => w = t.text.toList

/-- What can stand between tokens: blanks, and behind a call also commas. -/
def IsGap (afterCall : Bool) (gap : List Char) : Prop :=
  ∀ c ∈ gap, Text.isBlank c = true ∨ afterCall = true ∧ c = ','

/-- The text consists of the spellings of the tokens, in their order, with gaps between them and
around them.  `afterCall` tells whether a macro call has been seen before. -/
inductive LaidOut : Bool → List Token → List Char → Prop
  | nil {afterCall : Bool} {gap : List Char} (hgap : IsGap afterCall gap) : LaidOut afterCall [] gap
  | cons {afterCall : Bool} {gap w rest : List Char} {t : Token} {tokens : List Token}
      (hgap : IsGap afterCall gap) (hw : t.SpelledAs w)
      (hrest : LaidOut (afterCall || t.kind == .call) tokens rest) :
      LaidOut afterCall (t :: tokens) (gap ++ (w ++ rest))

/-! ### What is laid out in a text -/

lemma IsGap.append {gap' : List Char} (h : IsGap afterCall gap) (h' : IsGap afterCall gap') :
    IsGap afterCall (gap ++ gap') :=
  List.forall_mem_append.2 ⟨h, h'⟩

lemma isGap_of_isBlank (h : ∀ c ∈ gap, Text.isBlank c = true) : IsGap afterCall gap :=
  fun c hc => .inl (h c hc)

/-- A gap in front of a text belongs to the first gap of it. -/
lemma LaidOut.gap_append (hgap : IsGap afterCall gap) (h : LaidOut afterCall tokens s) :
    LaidOut afterCall tokens (gap ++ s) := by
  cases h with
  | nil hgap' => exact .nil (hgap.append hgap')
  | cons hgap' hw hrest =>
    rw [← List.append_assoc]
    exact .cons (hgap.append hgap') hw hrest

/-- The blanks in front of a text are a gap. -/
lemma LaidOut.of_trimStart (h : LaidOut afterCall tokens (Text.trimStart s)) : LaidOut afterCall tokens s := by
  have hgap : IsGap afterCall (s.takeWhile Text.isBlank) :=
    isGap_of_isBlank fun c hc => List.mem_takeWhile_imp hc
  have happend := h.gap_append hgap
  rwa [Text.trimStart, List.takeWhile_append_dropWhile] at happend

namespace Lexer

lemma Derives.spelledAs (h : Derives t w rest) : t.SpelledAs w := by
  cases h with
  | mode mode hblanks _ => exact ⟨_, hblanks, by rw [String.toList_ofList]⟩
  | _ => simp [Token.SpelledAs]

/-- The tokens of a text are laid out in it, up to the token that ends it. -/
lemma exists_laidOut (h : tokensFrom afterCall s = .ok tokens) :
    ∃ front, tokens = front ++ [Token.lineEnd] ∧ LaidOut afterCall front s := by
  fun_induction tokensFrom afterCall s generalizing tokens with
  | case1 b s hs =>
    cases h
    refine ⟨[], rfl, .of_trimStart ?_⟩
    rw [hs]
    exact .nil (isGap_of_isBlank (List.forall_mem_nil _))
  | case2 b s c s' hs _ hcomma ih =>
    -- A comma behind a call.
    obtain ⟨front, rfl, hfront⟩ := ih h
    rw [Bool.and_eq_true, beq_iff_eq] at hcomma
    have hgap : IsGap b [c] := List.forall_mem_singleton.2 (.inr hcomma)
    refine ⟨front, rfl, .of_trimStart ?_⟩
    rw [hs]
    exact hfront.gap_append hgap
  | case3 => cases h
  | case4 => cases h
  | case5 b s c s' hs _ _ t rest hscan _ tokens' hrec ih =>
    cases h
    obtain ⟨front, rfl, hfront⟩ := ih hrec
    obtain ⟨w, hw, hderives⟩ := exists_derives hscan
    refine ⟨t :: front, rfl, .of_trimStart ?_⟩
    rw [hs, hw]
    exact .cons (isGap_of_isBlank (List.forall_mem_nil _)) hderives.spelledAs hfront

/-- The text left when a text goes wrong is an end of it. -/
lemma suffix_of_tokensFrom_error {e : LexicalError} (h : tokensFrom afterCall s = .error (e, rest)) :
    rest <:+ s := by
  fun_induction tokensFrom afterCall s with
  | case1 => cases h
  | case2 b s c s' hs _ _ ih =>
    have hsuffix : c :: s' <:+ s := hs ▸ List.dropWhile_suffix _
    exact (ih h).trans ((List.suffix_cons c s').trans hsuffix)
  | case3 b s c s' hs _ _ e' hscan =>
    cases h
    have hsuffix : c :: s' <:+ s := hs ▸ List.dropWhile_suffix _
    have hsplits := splits_scanToken c s'
    rw [hscan] at hsplits
    exact List.IsSuffix.trans hsplits hsuffix
  | case4 b s c s' hs _ _ t rest' hscan _ e' hrec ih =>
    cases h
    have hsuffix : c :: s' <:+ s := hs ▸ List.dropWhile_suffix _
    obtain ⟨w, hw, -⟩ := exists_derives hscan
    exact (ih hrec).trans (List.IsSuffix.trans ⟨w, hw.symm⟩ hsuffix)
  | case5 => cases h

/-! ### Tokens set apart by blanks -/

lemma scanToken_call (hname : Text.isIdentifier s = true) (htail : tail.head?.all Text.isBlank = true) :
    scanToken '@' (s ++ tail) = .ok (⟨.call, String.ofList s⟩, tail) := by
  have hends : endsCall tail = true := by
    cases tail with
    | nil => rfl
    | cons c tail => exact Bool.or_eq_true_iff.2 (.inl htail)
  have hstart : (s ++ tail).head?.any Text.isNameStart = true := by
    cases s with
    | nil => cases hname
    | cons c s => exact (Bool.and_eq_true_iff.1 hname).1
  have htake := Text.takeWhile_identifier hname (isNameRest_of_endsCall hends)
  have hdrop := dropWhile_identifier hname (isNameRest_of_endsCall hends)
  have hcall : scanToken '@' (s ++ tail) = scanCall (s ++ tail) := rfl
  rw [hcall, scanCall, if_neg (by rw [hstart]; decide), htake, hdrop, if_pos hends]

/-- What the grammar allows for a token is scanned as the token, if a blank or nothing is behind
it. -/
lemma Derives.exists_scanToken (h : Derives t w []) (htail : tail.head?.all Text.isBlank = true)
    (hcomment : t.kind = .comment → tail = []) :
    ∃ c v, w = c :: v ∧ Text.isBlank c = false ∧ scanToken c (v ++ tail) = .ok (t, tail) := by
  have hends : tail.head?.all endsArgument = true := by
    cases tail with
    | nil => rfl
    | cons c tail => exact Bool.or_eq_true_iff.2 (.inl (Bool.or_eq_true_iff.2 (.inl htail)))
  have hargument : Reader.isArgument t = true → Scans w t := h.scans
  cases h with
  | placeholder hne hdigits =>
    exact ⟨'$', _, rfl, by decide, scanRun_run (fun _ => isNameRest_of_isDigit) hne hdigits hends⟩
  | call hname _ => exact ⟨'@', _, rfl, by decide, scanToken_call hname htail⟩
  | mode mode hblanks hname =>
    refine ⟨',', _, rfl, by decide, ?_⟩
    rw [List.append_assoc]
    exact scanToken_mode hblanks hname hends
  | comment text =>
    obtain rfl := hcomment rfl
    exact ⟨';', text, rfl, by decide, by rw [List.append_nil]; rfl⟩
  | directive hhead hname => exact ⟨'.', _, rfl, by decide, scanToken_directive hhead hname hends⟩
  | @label name _ hname =>
    cases name with
    | nil => cases hname
    | cons c name =>
      have hc := Text.isBlank_of_isNameRest (Text.isNameRest_of_mem hname c List.mem_cons_self)
      refine ⟨c, name ++ [':'], rfl, hc, ?_⟩
      rw [List.append_assoc]
      exact scanToken_identifier hname (by simp; decide)
  | _ =>
    obtain ⟨c, v, hw, hc, hscan⟩ := hargument rfl
    simp only [endsArgument, Bool.or_eq_false_iff] at hc
    exact ⟨c, v, hw, hc.1.1, hscan tail hends⟩

/-- What the grammar allows for a token is split into the token, unless it is a comment that ends
with blanks. -/
lemma Derives.tokenize_eq (h : Derives t w []) (htrim : Text.trim w = w) :
    tokenize (String.ofList w) = [t, Token.lineEnd] := by
  obtain ⟨c, v, rfl, hc, hscan⟩ := h.exists_scanToken rfl fun _ => rfl
  have hstart : Text.trimStart (c :: v) = c :: v := List.dropWhile_cons_of_neg (by simp [hc])
  have hnil : ∀ afterCall, tokensFrom afterCall [] = .ok [Token.lineEnd] := by
    intro afterCall
    rw [tokensFrom_eq]
    rfl
  rw [List.append_nil] at hscan
  rw [tokenize, String.toList_ofList, htrim, tokensFrom_eq, hstart]
  simp [hscan, hnil, Except.map]

/-- What the grammar allows for a token is the first token of a line, if a blank sets it apart. -/
lemma Derives.tokenize_append {line : String} (h : Derives t w []) (hcall : t.kind ≠ .call)
    (hcomment : t.kind ≠ .comment) (hline : tokenize line = tokens ++ [Token.lineEnd]) :
    tokenize (String.ofList w ++ " " ++ line) = t :: tokenize line := by
  have hrest : scanLine line.toList = .ok (tokens ++ [Token.lineEnd]) := by
    rw [scanLine_eq]
    rw [tokenize] at hline
    split at hline
    next heq => rw [heq, hline]
    next =>
      cases tokens with
      | nil => cases hline
      | cons t tokens => simp at hline
  have htext : (String.ofList w ++ " " ++ line).toList = w ++ ([' '] ++ line.toList) := by simp
  have hblank : ∀ c ∈ [' '], Text.isBlank c = true := List.forall_mem_singleton.2 rfl
  have htail : (Text.trimEnd ([' '] ++ line.toList)).head?.all Text.isBlank = true :=
    head?_trimEnd (hblank ' ' List.mem_cons_self)
  obtain ⟨c, v, rfl, hc, hscan⟩ := h.exists_scanToken htail fun heq => absurd heq hcomment
  refine tokenize_of_scanLine ?_
  rw [htext, scanLine_cons hc hcall (h.clean hcomment) hscan, scanLine_blanks hblank, hrest, hline]
  rfl

end Lexer

/-! ### Lines -/

/-- A line that does not split into tokens becomes one token, whose text is an end of the line.  Any
other line is the concatenation of its tokens, with gaps around them, and only the last one is the
end of the line.  The other way round, what the grammar allows for a token splits into this token,
by itself and in front of a line. -/
theorem tokenize_lossless :
    (∀ line : String,
      (∃ error text, tokenize line = [⟨.malformed error, text⟩] ∧ text.toList <:+ Text.trim line.toList) ∨
        ∃ front, tokenize line = front ++ [Token.lineEnd] ∧
          (∀ t ∈ front, t.kind ≠ .lineEnd ∧ ∀ error, t.kind ≠ .malformed error) ∧
          LaidOut false front (Text.trim line.toList)) ∧
      ∀ (t : Token) (w : List Char), Lexer.Derives t w [] →
        (Text.trim w = w → tokenize (String.ofList w) = [t, Token.lineEnd]) ∧
        (t.kind ≠ .call → t.kind ≠ .comment → ∀ line tokens, tokenize line = tokens ++ [Token.lineEnd] →
          tokenize (String.ofList w ++ " " ++ line) = t :: tokenize line) := by
  refine ⟨fun line => ?_, fun t w h => ⟨h.tokenize_eq, fun hcall hcomment line tokens hline => ?_⟩⟩
  · rw [tokenize]
    split
    next tokens h =>
      obtain ⟨front, rfl, hfront⟩ := Lexer.exists_laidOut h
      obtain ⟨front', heq, hkinds⟩ := Lexer.tokensFrom_eq_append h
      obtain rfl := List.append_cancel_right heq
      exact .inr ⟨front, rfl, hkinds, hfront⟩
    next error rest h =>
      refine .inl ⟨error, String.ofList rest, rfl, ?_⟩
      rw [String.toList_ofList]
      exact Lexer.suffix_of_tokensFrom_error h
  · exact h.tokenize_append hcall hcomment hline

theorem tokenize_lossless_stackDeferredIndexed :
    Lexer.Derives ⟨.mode, "sFx"⟩ [',', '\t', ' ', 's', 'F', 'x'] [] ∧
      Text.trim [',', '\t', ' ', 's', 'F', 'x'] = [',', '\t', ' ', 's', 'F', 'x'] ∧
      tokenize ",\t sFx" = [⟨.mode, "sFx"⟩, Token.lineEnd] ∧
      tokenize "; no comma" = [⟨.comment, "; no comma"⟩] ++ [Token.lineEnd] ∧
      tokenize ",\t sFx ; no comma" = [⟨.mode, "sFx"⟩, ⟨.comment, "; no comma"⟩, Token.lineEnd] := by
  have hderives : Lexer.Derives ⟨.mode, "sFx"⟩ (',' :: (['\t', ' '] ++ ['s', 'F', 'x'])) [] :=
    .mode .stackDeferredIndexed (List.forall_mem_cons.2 ⟨rfl, List.forall_mem_singleton.2 rfl⟩) rfl
  have htrim : Text.trim [',', '\t', ' ', 's', 'F', 'x'] = [',', '\t', ' ', 's', 'F', 'x'] := by decide
  have hline : tokenize "; no comma" = [⟨.comment, "; no comma"⟩] ++ [Token.lineEnd] := by decide +kernel
  obtain ⟨hsingle, hfront⟩ := tokenize_lossless.2 _ _ hderives
  refine ⟨hderives, htrim, hsingle htrim, hline, ?_⟩
  have hfirst := hfront nofun nofun _ _ hline
  rw [hline] at hfirst
  exact hfirst

end Pep10
