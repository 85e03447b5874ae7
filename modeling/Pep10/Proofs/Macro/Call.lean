import Pep10.Proofs.Token.Lexeme

/-!
# Macro calls before and after substitution

Macro calls are searched in the text of a module, where placeholders have not been replaced, while
lines are read with the arguments in place.  No call can hide from the search: an at sign in an
argument has a quote before it, and no quote stands before the at sign of a line that is read as a
call.  So every call that is read has been found, under the same name (`ofLine?_of_isCall`).
-/

namespace Pep10

namespace MacroCall

variable {line : String} {call : MacroCall} {s : List Char}

/-! ### The parts of a call -/

/-- A name that passes the check is an identifier. -/
lemma isIdentifier_of_checkName {name : List Char} (h : checkName name = .ok ()) :
    Text.isIdentifier name = true := by
  unfold checkName at h
  split at h
  · cases h
  next c s =>
    split at h
    · cases h
    next hc =>
      split at h
      · cases h
      · split at h
        next hs => simp_all [Text.isIdentifier]
        · cases h

/-- The text of a call is its name and the arguments behind it. -/
lemma ofText_eq_ok (h : ofText s = .ok call) :
    ∃ name behind, s = name ++ behind ∧ Text.isIdentifier name = true ∧
      (behind.head?.all endsName = true) ∧ call = ⟨String.ofList name, argsOf (Text.trim behind)⟩ := by
  unfold ofText at h
  dsimp only at h
  split at h
  · cases h
  next hname =>
    cases h
    refine ⟨_, _, List.takeWhile_append_dropWhile.symm, isIdentifier_of_checkName hname, ?_, rfl⟩
    cases hd : s.dropWhile fun c => !endsName c with
    | nil => rfl
    | cons c t =>
      have := Text.head?_dropWhile_eq_false hd
      simpa using this

/-- A line with a call has one at sign that is exposed, and the call behind it. -/
lemma ofLine?_eq_some (h : ofLine? line = .ok (some call)) :
    ∃ before text, fieldsAt '@' .outside (beforeMark ';' .outside line.toList) = [before, text] ∧
      ofText text = .ok call := by
  unfold ofLine? at h
  dsimp only at h
  split at h
  next before text heq =>
    refine ⟨before, text, heq, ?_⟩
    cases ht : ofText text with
    | error e => rw [ht] at h; cases h
    | ok c => rw [ht] at h; cases h; rfl
  · cases h
  · cases h

/-- Trimming does not expose anything. -/
lemma Hides.trim {mark : Char} (h : Hides mark .outside s) : Hides mark .outside (Text.trim s) := by
  obtain ⟨l, r, hs, hl, -⟩ := Text.exists_trim s
  rw [hs, hides_append, Quotation.after_outside fun c hc => (isPlain_of_isBlank (hl c hc)).1,
    hides_append] at h
  exact h.2.1

/-- The arguments of a call hide their at signs. -/
lemma hides_of_mem_args (h : ofLine? line = .ok (some call)) {arg : String} (harg : arg ∈ call.args) :
    Hides '@' .outside arg.toList := by
  obtain ⟨before, text, hfields, htext⟩ := ofLine?_eq_some h
  obtain ⟨-, hhides⟩ := fieldsAt_eq_pair hfields
  obtain ⟨name, behind, rfl, hname, -, rfl⟩ := ofText_eq_ok htext
  have hquote : ∀ c ∈ name, ¬IsQuote c := fun c hc =>
    (isPlain_of_isNameRest (Text.isNameRest_of_mem hname c hc)).1
  rw [hides_append, Quotation.after_outside hquote] at hhides
  have hbehind := hhides.2.trim
  dsimp only [argsOf] at harg
  split at harg
  · cases harg
  · obtain ⟨field, hfield, rfl⟩ := List.mem_map.1 harg
    rw [String.toList_ofList]
    rcases hf : fieldsAt ',' .outside (Text.trim behind) with _ | ⟨first, rest⟩
    · exact absurd hf (fieldsAt_ne_nil _ _ _)
    · obtain ⟨h1, h2⟩ := hides_fieldsAt hbehind hf
      rw [hf, List.mem_cons] at hfield
      rcases hfield with rfl | hmem
      · exact h1.trim
      · exact (h2 _ hmem).trim

/-- The arguments of a call are pieces of the line. -/
lemma mem_of_mem_args (h : ofLine? line = .ok (some call)) {arg : String} (harg : arg ∈ call.args)
    {c : Char} (hc : c ∈ arg.toList) : c ∈ line.toList := by
  obtain ⟨before, text, hfields, htext⟩ := ofLine?_eq_some h
  obtain ⟨hcode, -⟩ := fieldsAt_eq_pair hfields
  obtain ⟨name, behind, rfl, -, -, rfl⟩ := ofText_eq_ok htext
  obtain ⟨rest, hline, -⟩ := exists_beforeMark ';' .outside line.toList
  have hbehind : c ∈ behind → c ∈ line.toList := by
    intro hmem
    rw [hline, hcode]
    simp [hmem]
  refine hbehind (Text.mem_of_mem_trim ?_)
  dsimp only [argsOf] at harg
  split at harg
  · cases harg
  · obtain ⟨field, hfield, rfl⟩ := List.mem_map.1 harg
    rw [String.toList_ofList] at hc
    exact mem_of_mem_fieldsAt hfield (Text.mem_of_mem_trim hc)

/-- The name of a call is an identifier. -/
lemma isIdentifier_name (h : ofLine? line = .ok (some call)) :
    Text.isIdentifier call.name.toList = true := by
  obtain ⟨before, text, -, htext⟩ := ofLine?_eq_some h
  obtain ⟨name, behind, -, hname, -, rfl⟩ := ofText_eq_ok htext
  rwa [String.toList_ofList]

end MacroCall

/-! ### The at sign of a call -/

open MacroCall (Hides Quotation fieldsAt beforeMark)

/-- The text holds an at sign with a name and the text `behind` after it, and plain characters
before it. -/
def ShowsCall (name behind s : List Char) : Prop :=
  ∃ before, s = before ++ '@' :: (name ++ behind) ∧ (∀ c ∈ before, IsPlain c) ∧
    Text.isIdentifier name = true ∧ behind.head?.any Text.isNameRest = false

lemma ShowsCall.append {name behind s blanks : List Char} (h : ShowsCall name behind s)
    (hblanks : ∀ c ∈ blanks, Text.isBlank c = true) :
    ShowsCall name (behind ++ blanks) (s ++ blanks) := by
  obtain ⟨before, rfl, hbefore, hname, hbehind⟩ := h
  refine ⟨before, by simp, hbefore, hname, ?_⟩
  cases behind with
  | cons c behind => exact hbehind
  | nil =>
    cases blanks with
    | nil => rfl
    | cons c blanks =>
      have hc := hblanks c List.mem_cons_self
      cases hrest : Text.isNameRest c with
      | false => simpa using hrest
      | true => rw [Text.isBlank_of_isNameRest hrest] at hc; cases hc

lemma ShowsCall.prepend {name behind s plain : List Char} (h : ShowsCall name behind s)
    (hplain : ∀ c ∈ plain, IsPlain c) : ShowsCall name behind (plain ++ s) := by
  obtain ⟨before, rfl, hbefore, hname, hbehind⟩ := h
  refine ⟨plain ++ before, by simp, fun c hc => ?_, hname, hbehind⟩
  rcases List.mem_append.1 hc with hc | hc
  · exact hplain c hc
  · exact hbefore c hc

/-- Blanks around a text do not hide a call. -/
lemma ShowsCall.untrim {name behind s : List Char} (h : ShowsCall name behind (Text.trim s)) :
    ∃ blanks, (∀ c ∈ blanks, Text.isBlank c = true) ∧ ShowsCall name (behind ++ blanks) s := by
  obtain ⟨l, r, hs, hl, hr⟩ := Text.exists_trim s
  refine ⟨r, hr, ?_⟩
  rw [hs]
  exact (h.append hr).prepend fun c hc => isPlain_of_isBlank (hl c hc)

lemma ShowsCall.untrimStart {name behind s : List Char}
    (h : ShowsCall name behind (Text.trimStart s)) : ShowsCall name behind s := by
  have hs : s.takeWhile Text.isBlank ++ Text.trimStart s = s := List.takeWhile_append_dropWhile
  rw [← hs]
  exact h.prepend fun c hc => isPlain_of_isBlank (List.mem_takeWhile_imp hc)

/-- A text whose first token is a call shows the call, and the other tokens are behind it. -/
lemma showsCall_of_tokensFrom {s : List Char} {token : Token} {tokens : List Token}
    (h : Lexer.tokensFrom false s = .ok (token :: tokens)) (hkind : token.kind = .call) :
    ∃ name behind, token.text = String.ofList name ∧ ShowsCall name behind s ∧
      Lexer.tokensFrom true behind = .ok tokens := by
  rcases Lexer.tokensFrom_eq_ok h with ⟨-, heq⟩ | ⟨w, rest, t, tokens', hs, hlex, hrest, heq⟩
  · cases heq
    cases hkind
  · cases heq
    rw [Lexer.IsLexeme, hkind] at hlex
    rw [hkind] at hrest
    obtain ⟨name, rfl, htext, hname, hends⟩ := hlex
    exact ⟨name, rest, htext,
      ShowsCall.untrimStart ⟨[], hs, List.forall_mem_nil _, hname, hends⟩, hrest⟩

/-- The tokens of a line that is a call, possibly with a label, and those behind the call. -/
def IsCall (token : Token) (rest tokens : List Token) : Prop :=
  token.kind = .call ∧ (tokens = token :: rest ∨
    ∃ first, first.kind = .label ∧ tokens = first :: token :: rest)

/-- The tokens behind the call are determined by the line. -/
lemma IsCall.rest_unique {token token' : Token} {rest rest' tokens : List Token}
    (h : IsCall token rest tokens) (h' : IsCall token' rest' tokens) : rest = rest' := by
  obtain ⟨hcall, htokens⟩ := h
  obtain ⟨hcall', htokens'⟩ := h'
  rcases htokens with rfl | ⟨first, hlabel, rfl⟩ <;> rcases htokens' with heq | ⟨first', hlabel', heq⟩ <;>
    cases heq
  · rfl
  · rw [hcall] at hlabel'
    cases hlabel'
  · rw [hcall'] at hlabel
    cases hlabel
  · rfl

/-- A line that is a call shows the call, and the other tokens are behind it, where blanks at the
end of the line do not count. -/
lemma showsCall_of_isCall {line : String} {token : Token} {rest : List Token}
    (h : IsCall token rest (tokenize line)) :
    ∃ name behind blanks, token.text = String.ofList name ∧
      (∀ c ∈ blanks, Text.isBlank c = true) ∧ ShowsCall name (behind ++ blanks) line.toList ∧
      Lexer.tokensFrom true behind = .ok rest := by
  suffices htrim : ∃ name behind, token.text = String.ofList name ∧
      ShowsCall name behind (Text.trim line.toList) ∧ Lexer.tokensFrom true behind = .ok rest by
    obtain ⟨name, behind, htext, hshows, hrest⟩ := htrim
    obtain ⟨blanks, hblanks, hline⟩ := hshows.untrim
    exact ⟨name, behind, blanks, htext, hblanks, hline, hrest⟩
  obtain ⟨hkind, hcall | ⟨first, hfirst, hlabel⟩⟩ := h
  · exact showsCall_of_tokensFrom (Lexer.tokenize_eq hcall (by simp [hkind])) hkind
  · have htokens := Lexer.tokenize_eq hlabel (by simp [hfirst])
    rcases Lexer.tokensFrom_eq_ok htokens with ⟨-, heq⟩ | ⟨w, rest', t, ts, hs, hlex, hrest, heq⟩
    · cases heq
    · cases heq
      rw [Lexer.IsLexeme, hfirst] at hlex
      obtain ⟨label, rfl, -, hlabel⟩ := hlex
      rw [show (first.kind == Token.Kind.call) = false by simp [hfirst]] at hrest
      obtain ⟨name, behind, htext, hshows, hbehind⟩ := showsCall_of_tokensFrom hrest hkind
      refine ⟨name, behind, htext, ShowsCall.untrimStart ?_, hbehind⟩
      rw [hs]
      refine hshows.prepend fun c hc => ?_
      rcases List.mem_append.1 hc with hc | hc
      · exact isPlain_of_isNameRest (Text.isNameRest_of_mem hlabel c hc)
      · obtain rfl : c = ':' := by simpa using hc
        decide

/-! ### Substitution -/

namespace Placeholder

variable {args : List String} {s w : List Char} {c : Char}

lemma expand_cons_of_ne (h : c ≠ '$') : expand args (c :: s) = c :: expand args s := by
  rw [expand, if_neg (by simpa using h)]

/-- Text without a dollar sign stays as it is. -/
lemma expand_append (h : '$' ∉ w) : expand args (w ++ s) = w ++ expand args s := by
  induction w with
  | nil => rfl
  | cons c w ih =>
    rw [List.mem_cons, not_or] at h
    rw [List.cons_append, expand_cons_of_ne (Ne.symm h.1), ih h.2, List.cons_append]

/-- Without arguments all placeholders stay as they are. -/
lemma expand_nil (s : List Char) : expand [] s = s := by
  fun_induction expand [] s with
  | case1 => rfl
  | case2 c s hc _ ih =>
    have hself : expansion [] (s.takeWhile Char.isDigit) = '$' :: s.takeWhile Char.isDigit := by
      unfold expansion
      split <;> rfl
    rw [hself, ih, List.cons_append, List.takeWhile_append_dropWhile, beq_iff_eq.1 hc]
  | case3 c s hc ih => rw [ih]

/-- A placeholder stands for an argument or for itself. -/
lemma expansion_cases (args : List String) (digits : List Char) :
    expansion args digits = '$' :: digits ∨ ∃ arg ∈ args, expansion args digits = arg.toList := by
  unfold expansion
  split
  · exact .inl rfl
  · split
    next arg harg => exact .inr ⟨arg, List.mem_of_getElem? harg, rfl⟩
    next => exact .inl rfl

/-- Substitution brings in nothing but the arguments. -/
lemma mem_of_mem_expand (h : c ∈ expand args s) : c ∈ s ∨ ∃ arg ∈ args, c ∈ arg.toList := by
  fun_induction expand args s with
  | case1 => cases h
  | case2 d s hd _ ih =>
    have hdrop : ∀ c ∈ s.dropWhile Char.isDigit, c ∈ s :=
      fun c hc => (List.dropWhile_sublist _).subset hc
    rcases List.mem_append.1 h with h | h
    · rcases expansion_cases args (s.takeWhile Char.isDigit) with hself | ⟨arg, harg, heq⟩
      · rw [hself] at h
        rcases List.mem_cons.1 h with rfl | h
        · exact .inl (by rw [beq_iff_eq.1 hd]; exact List.mem_cons_self)
        · exact .inl (List.mem_cons_of_mem _ ((List.takeWhile_sublist _).subset h))
      · exact .inr ⟨arg, harg, by rwa [← heq]⟩
    · rcases ih h with h | h
      · exact .inl (List.mem_cons_of_mem _ (hdrop c h))
      · exact .inr h
  | case3 d s hd ih =>
    rcases List.mem_cons.1 h with rfl | h
    · exact .inl List.mem_cons_self
    · rcases ih h with h | h
      · exact .inl (List.mem_cons_of_mem _ h)
      · exact .inr h

/-- No placeholder stands for plain text with an at sign behind it. -/
lemma expansion_ne (hargs : ∀ arg ∈ args, Hides '@' .outside arg.toList) {before behind : List Char}
    (hbefore : ∀ c ∈ before, IsPlain c) :
    expansion args (s.takeWhile Char.isDigit) ≠ before ++ '@' :: behind := by
  intro h
  rcases expansion_cases args (s.takeWhile Char.isDigit) with hself | ⟨arg, harg, heq⟩
  · have hmem : '@' ∈ '$' :: s.takeWhile Char.isDigit := by
      rw [← hself, h]
      simp
    rcases List.mem_cons.1 hmem with hc | hc
    · revert hc
      decide
    · have := List.mem_takeWhile_imp hc
      revert this
      decide
  · have hhides := hargs arg harg
    rw [← heq, h] at hhides
    obtain ⟨c, hc, hquote⟩ := hhides.exists_quote (by decide)
    exact (hbefore c hc).1 hquote

/-- An at sign behind plain text comes from the text and not from an argument. -/
lemma expand_eq_append (hargs : ∀ arg ∈ args, Hides '@' .outside arg.toList)
    {before behind : List Char} (h : expand args s = before ++ '@' :: behind)
    (hbefore : ∀ c ∈ before, IsPlain c) :
    ∃ before' behind', s = before' ++ '@' :: behind' ∧ expand args behind' = behind ∧
      ∀ c ∈ before', IsPlain c := by
  fun_induction expand args s generalizing before with
  | case1 => simp at h
  | case2 c s hc _ ih =>
    obtain rfl := beq_iff_eq.1 hc
    -- The at sign lies behind what the placeholder stands for.
    have hlen : ∃ between, before = expansion args (s.takeWhile Char.isDigit) ++ between ∧
        expand args (s.dropWhile Char.isDigit) = between ++ '@' :: behind := by
      rcases List.append_eq_append_iff.1 h with ⟨between, hb, hrest⟩ | ⟨between, he, hrest⟩
      · exact ⟨between, hb, hrest⟩
      · cases between with
        | nil => exact ⟨[], by simpa using he.symm, by simpa using hrest.symm⟩
        | cons c between =>
          rw [List.cons_append, List.cons.injEq] at hrest
          obtain ⟨rfl, -⟩ := hrest
          exact absurd he (expansion_ne hargs hbefore)
    obtain ⟨between, rfl, hrest⟩ := hlen
    obtain ⟨before', behind', hs, hexp, hplain⟩ :=
      ih hrest fun c hc => hbefore c (List.mem_append_right _ hc)
    refine ⟨'$' :: s.takeWhile Char.isDigit ++ before', behind', ?_, hexp, fun c hc => ?_⟩
    · rw [List.append_assoc, ← hs, List.cons_append, List.takeWhile_append_dropWhile]
    · rcases List.mem_append.1 hc with hc | hc
      · rcases List.mem_cons.1 hc with rfl | hc
        · decide
        · exact isPlain_of_isDigit (List.mem_takeWhile_imp hc)
      · exact hplain c hc
  | case3 c s hc ih =>
    cases before with
    | nil =>
      cases h
      exact ⟨[], s, rfl, rfl, nofun⟩
    | cons c' before =>
      rw [List.cons_append, List.cons.injEq] at h
      obtain ⟨rfl, h⟩ := h
      rw [List.forall_mem_cons] at hbefore
      obtain ⟨before', behind', rfl, hexp, hplain⟩ := ih h hbefore.2
      exact ⟨c :: before', behind', rfl, hexp, List.forall_mem_cons.2 ⟨hbefore.1, hplain⟩⟩

end Placeholder

/-! ### Calls are found -/

namespace MacroCall

variable {name s : List Char}

/-- A text that shows a call is searched behind the at sign. -/
lemma fieldsAt_showsCall {before behind : List Char} (hbefore : ∀ c ∈ before, IsPlain c) :
    fieldsAt '@' .outside (beforeMark ';' .outside (before ++ '@' :: behind)) =
      before :: fieldsAt '@' .outside (beforeMark ';' .outside behind) := by
  have hneutral : Neutral before := .of_plain hbefore
  have hat : beforeMark ';' .outside ('@' :: behind) = '@' :: beforeMark ';' .outside behind := by
    simp [beforeMark, Quotation.next]
  rw [beforeMark_append hneutral.hides_semicolon, hneutral.after_eq, hat]
  exact fieldsAt_append hneutral.hides_at (by rw [hneutral.after_eq]; decide)

/-- A call that is shown is found, unless the line is refused.  Its arguments are in the text `tail`
before a comment. -/
lemma ofLine?_of_eq_append {line : String} {o : Option MacroCall} {before behind : List Char}
    (hline : line.toList = before ++ '@' :: behind) (hbefore : ∀ c ∈ before, IsPlain c)
    (h : ofLine? line = .ok o) :
    ∃ name tail comment, o = some ⟨String.ofList name, argsOf (Text.trim tail)⟩ ∧
      behind = name ++ (tail ++ comment) ∧ Text.isIdentifier name = true ∧
      (tail ++ comment).head?.all (fun c => endsName c || c == ';') = true ∧
      (comment = [] ∨ ∃ text, comment = ';' :: text) := by
  unfold ofLine? at h
  dsimp only at h
  rw [hline, fieldsAt_showsCall hbefore] at h
  rcases hf : fieldsAt '@' .outside (beforeMark ';' .outside behind) with _ | ⟨text, _ | _⟩
  · exact absurd hf (fieldsAt_ne_nil _ _ _)
  · obtain ⟨rfl, -⟩ := fieldsAt_eq_singleton hf
    rw [hf] at h
    dsimp only at h
    cases htext : ofText (beforeMark ';' .outside behind) with
    | error e => rw [htext] at h; cases h
    | ok call =>
      rw [htext] at h
      cases h
      obtain ⟨name, tail, hcode, hname, htail, rfl⟩ := ofText_eq_ok htext
      obtain ⟨rest, hrest, hcut⟩ := exists_beforeMark ';' .outside behind
      refine ⟨name, tail, rest, rfl, ?_, hname, ?_, hcut⟩
      · rw [← List.append_assoc, ← hcode, ← hrest]
      · cases tail with
        | cons c tail =>
          have hc : endsName c = true := htail
          simp [hc]
        | nil => rcases hcut with rfl | ⟨behind', rfl⟩ <;> rfl
  · rw [hf] at h
    cases h

/-- No name goes on where the search for calls sees its end. -/
lemma isNameRest_of_endsName {c : Char} (h : (endsName c || c == ';') = true) :
    Text.isNameRest c = false := by
  rw [← Bool.not_eq_true]
  intro hname
  simp only [endsName, Text.isBlank_of_isNameRest hname, Bool.false_or, Bool.or_eq_true,
    beq_iff_eq] at h
  rcases h with rfl | rfl <;> revert hname <;> decide

/-- A line that is read as a call when its placeholders have been replaced is found to be a call of
the same name before, unless it is refused.  The tokens behind the call are those of the text behind
its name, with the placeholders replaced. -/
lemma ofLine?_of_isCall {args : List String} {line : String} {token : Token}
    {rest : List Token} {o : Option MacroCall}
    (hargs : ∀ arg ∈ args, Hides '@' .outside arg.toList)
    (hcall : IsCall token rest (tokenize (Placeholder.substitute args line)))
    (h : ofLine? line = .ok o) :
    ∃ tail comment behind blanks, o = some ⟨token.text, argsOf (Text.trim tail)⟩ ∧
      (comment = [] ∨ ∃ text, comment = ';' :: text) ∧
      Placeholder.expand args (tail ++ comment) = behind ++ blanks ∧
      (∀ c ∈ blanks, Text.isBlank c = true) ∧ Lexer.tokensFrom true behind = .ok rest := by
  obtain ⟨name, behind, blanks, htext, hblanks, ⟨before, hexp, hbefore, hname, hbehind⟩, hrest⟩ :=
    showsCall_of_isCall hcall
  rw [Placeholder.substitute, String.toList_ofList] at hexp
  obtain ⟨before', behind', hline, hbehind', hbefore'⟩ :=
    Placeholder.expand_eq_append hargs hexp hbefore
  obtain ⟨name', tail, comment, ho, rfl, hname', htail, hcomment⟩ :=
    ofLine?_of_eq_append hline hbefore' h
  -- The name has no placeholder in it and ends where it did before.
  have hdollar : '$' ∉ name' := fun hmem => by
    have := Text.isNameRest_of_mem hname' _ hmem
    revert this
    decide
  have htail' : (Placeholder.expand args (tail ++ comment)).head?.any Text.isNameRest = false := by
    cases hc : tail ++ comment with
    | nil => rw [Placeholder.expand]; rfl
    | cons c text =>
      rw [hc] at htail
      have hends : (endsName c || c == ';') = true := htail
      rw [Placeholder.expand_cons_of_ne]
      · simpa using isNameRest_of_endsName hends
      · rintro rfl
        revert hends
        decide
  rw [Placeholder.expand_append hdollar] at hbehind'
  have hsame : name' = name := by
    rw [← Text.takeWhile_identifier hname' htail', hbehind', Text.takeWhile_identifier hname hbehind]
  rw [hsame] at ho hbehind'
  exact ⟨tail, comment, behind, blanks, by rw [ho, htext], hcomment,
    List.append_cancel_left hbehind', hblanks, hrest⟩

end MacroCall

end Pep10
