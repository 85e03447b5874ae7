import Pep10.Proofs.Line.Reader
import Pep10.Proofs.Macro.Call
import Pep10.Proofs.Token.Argument

/-!
# The arguments of a call, as found and as read

The search for macro calls takes the text between commas for an argument, and the reader takes a
token for one.  The two lists are the same if every text between commas is a single token
(`argumentsOf_eq`).
-/

namespace Pep10

/-! ### Text without placeholders -/

namespace Placeholder

open Lexer (endsArgument endsArgument_append)

variable {args : List String} {s t : List Char}

/-- Text without placeholders stays as it is, if an argument can end behind it. -/
lemma expand_append_of_first? (h : first? s = none) (ht : t.head?.all endsArgument = true) :
    expand args (s ++ t) = s ++ expand args t := by
  induction s with
  | nil => rfl
  | cons c s ih =>
    rw [first?] at h
    split at h
    · cases h
    next hc =>
      by_cases hdollar : c = '$'
      · -- No number follows the dollar sign.
        have hnumber : (s ++ t).takeWhile Char.isDigit = [] ∧
            (s ++ t).dropWhile Char.isDigit = s ++ t := by
          cases hst : s ++ t with
          | nil => exact ⟨rfl, rfl⟩
          | cons d u =>
            have hd : d.isDigit = false := by
              cases s with
              | cons e s =>
                rw [List.cons_append, List.cons.injEq] at hst
                rw [← hst.1]
                simpa [hdollar] using hc
              | nil =>
                rw [List.nil_append] at hst
                rw [hst] at ht
                rw [← Bool.not_eq_true]
                intro hdigit
                have hname := Lexer.isNameRest_of_endsArgument (c := d) ht
                rw [Lexer.isNameRest_of_isDigit hdigit] at hname
                cases hname
            exact ⟨List.takeWhile_cons_of_neg (by simp [hd]), List.dropWhile_cons_of_neg (by simp [hd])⟩
        rw [List.cons_append, expand, if_pos (by simp [hdollar]), hnumber.1, hnumber.2, ih h, hdollar]
        rfl
      · rw [List.cons_append, expand_cons_of_ne hdollar, ih h, List.cons_append]

lemma expand_blanks (h : ∀ c ∈ s, Text.isBlank c = true) :
    expand args (s ++ t) = s ++ expand args t :=
  expand_append fun hmem => absurd (h _ hmem) (by decide)

/-- A list of fields without placeholders stays as it is. -/
lemma expand_fields {fields : List (List Char)} (hfields : MacroCall.fieldsAt ',' .outside s = fields)
    (h : ∀ field ∈ fields, first? (Text.trim field) = none)
    (ht : t.head?.all endsArgument = true) : expand args (s ++ t) = s ++ expand args t := by
  have hfield : ∀ field behind : List Char, first? (Text.trim field) = none →
      behind.head?.all endsArgument = true →
      expand args (field ++ behind) = field ++ expand args behind := by
    intro field behind hfirst hbehind
    obtain ⟨l, r, heq, hl, hr⟩ := Text.exists_trim field
    generalize Text.trim field = w at heq hfirst
    rw [heq, List.append_assoc, expand_blanks hl, List.append_assoc,
      expand_append_of_first? hfirst (endsArgument_append hr hbehind), expand_blanks hr]
    simp
  induction fields generalizing s with
  | nil => exact absurd hfields (MacroCall.fieldsAt_ne_nil _ _ _)
  | cons field fields ih =>
    rw [List.forall_mem_cons] at h
    rcases MacroCall.fieldsAt_eq_cons hfields with ⟨rfl, rfl⟩ | ⟨s', rfl, hrest⟩
    · exact hfield s t h.1 ht
    · rw [List.append_assoc, List.cons_append,
        hfield field (',' :: (s' ++ t)) h.1 (show endsArgument ',' = true by decide),
        expand_cons_of_ne (by decide), ih hrest h.2, List.append_assoc, List.cons_append]

end Placeholder

/-! ### The list behind a call -/

namespace MacroCall

open Lexer (tokensFrom endsArgument endsArgument_append)

variable {tail comment behind blanks : List Char}

/-- The text behind a call, with blanks cut off at the end, is the list of arguments with blanks
around it and a comment, and there is no argument in what follows the list. -/
lemma behind_eq (h : tail ++ comment = behind ++ blanks)
    (hcomment : comment = [] ∨ ∃ text, comment = ';' :: text)
    (hblanks : ∀ c ∈ blanks, Text.isBlank c = true) :
    ∃ l rest tokens, behind = l ++ (Text.trim tail ++ rest) ∧ (∀ c ∈ l, Text.isBlank c = true) ∧
      rest.head?.all endsArgument = true ∧ tokensFrom true rest = .ok tokens ∧
      Reader.argumentsOf tokens = [] := by
  rcases hcomment with rfl | ⟨text, rfl⟩
  · rw [List.append_nil] at h
    obtain ⟨l, r, hbehind, hl, hr⟩ := Text.exists_trim behind
    refine ⟨l, r ++ [], [Token.lineEnd], ?_, hl, endsArgument_append hr rfl, ?_, rfl⟩
    · rw [h, Text.trim_append_blanks hblanks, List.append_nil]
      exact hbehind
    · rw [Lexer.tokensFrom_blanks hr, Lexer.tokensFrom_eq]
      rfl
  · -- The comment does not begin among the blanks.
    have hnotin : ';' ∉ blanks := fun hmem => absurd (hblanks _ hmem) (by decide)
    obtain ⟨text', rfl⟩ : ∃ text', behind = tail ++ ';' :: text' := by
      rcases List.append_eq_append_iff.1 h with ⟨mid, hmid, hrest⟩ | ⟨mid, hmid, hrest⟩
      · cases mid with
        | nil =>
          rw [List.nil_append] at hrest
          exact absurd (hrest ▸ List.mem_cons_self) hnotin
        | cons c mid =>
          rw [List.cons_append, List.cons.injEq] at hrest
          exact ⟨mid, by rw [hmid, ← hrest.1]⟩
      · exact absurd (hrest ▸ List.mem_append_right mid List.mem_cons_self) hnotin
    obtain ⟨l, r, htail, hl, hr⟩ := Text.exists_trim tail
    refine ⟨l, r ++ ';' :: text', [⟨.comment, String.ofList (';' :: text')⟩, Token.lineEnd], ?_, hl,
      endsArgument_append hr (show endsArgument ';' = true by decide), ?_, rfl⟩
    · rw [← List.append_assoc (Text.trim tail), ← List.append_assoc l, ← htail]
    · have hscan : Lexer.scanToken ';' text' = .ok (⟨.comment, String.ofList (';' :: text')⟩, []) := rfl
      rw [Lexer.tokensFrom_blanks hr, Lexer.tokensFrom_cons (by decide) (by decide) hscan,
        Lexer.tokensFrom_eq]
      rfl

/-- The arguments that are read on a line are those that were found before, if each of them is a
single token. -/
theorem argumentsOf_eq {args : List String} {line : String} {token : Token} {rest : List Token}
    {call : MacroCall} (hargs : ∀ arg ∈ args, Hides '@' .outside arg.toList)
    (hcall : IsCall token rest (tokenize (Placeholder.substitute args line)))
    (h : ofLine? line = .ok (some call))
    (hplain : ∀ arg ∈ call.args, Placeholder.first? arg.toList = none)
    (hsingle : ∀ arg ∈ call.args, IsSingle arg) : Reader.argumentsOf rest = call.args := by
  obtain ⟨tail, comment, behind, blanks, hsome, hcomment, hexp, hblanks, hrest⟩ :=
    ofLine?_of_isCall hargs hcall h
  cases hsome
  have hends : comment.head?.all endsArgument = true := by
    rcases hcomment with rfl | ⟨text, rfl⟩
    · rfl
    · exact show endsArgument ';' = true by decide
  have hcomment' : Placeholder.expand args comment = [] ∨
      ∃ text, Placeholder.expand args comment = ';' :: text := by
    rcases hcomment with rfl | ⟨text, rfl⟩
    · exact .inl (by rw [Placeholder.expand])
    · exact .inr ⟨_, Placeholder.expand_cons_of_ne (by decide)⟩
  obtain ⟨l, r, htail, hl, hr⟩ := Text.exists_trim tail
  dsimp only [argsOf] at hplain hsingle ⊢
  by_cases hempty : (Text.trim tail).isEmpty = true
  · rw [if_pos hempty]
    rw [List.isEmpty_iff] at hempty
    have hexpand : Placeholder.expand args (tail ++ comment) =
        tail ++ Placeholder.expand args comment := by
      rw [htail, hempty, List.nil_append]
      refine Placeholder.expand_blanks fun c hc => ?_
      exact (List.mem_append.1 hc).elim (hl c) (hr c)
    obtain ⟨l', rest', tokens, rfl, hl', -, htokens, hnone⟩ :=
      behind_eq (hexpand.symm.trans hexp) hcomment' hblanks
    rw [hempty, List.nil_append, Lexer.tokensFrom_blanks hl', htokens] at hrest
    cases hrest
    exact hnone
  · rw [if_neg hempty] at hplain hsingle ⊢
    rw [List.forall_mem_map] at hplain hsingle
    simp only [String.toList_ofList] at hplain
    have hexpand : Placeholder.expand args (tail ++ comment) =
        tail ++ Placeholder.expand args comment := by
      generalize Text.trim tail = list at htail hplain
      rw [htail, List.append_assoc, Placeholder.expand_blanks hl, List.append_assoc,
        Placeholder.expand_fields rfl hplain (endsArgument_append hr hends),
        Placeholder.expand_blanks hr]
      simp
    obtain ⟨l', rest', tokens, rfl, hl', hends', htokens, hnone⟩ :=
      behind_eq (hexpand.symm.trans hexp) hcomment' hblanks
    obtain ⟨list, hlist, htexts, hsplit⟩ := Lexer.tokensFrom_fields rfl hsingle hends'
    rw [Lexer.tokensFrom_blanks hl', hsplit, htokens] at hrest
    cases hrest
    have hboth : Reader.argumentsOf (list ++ tokens) =
        list.map Token.text ++ Reader.argumentsOf tokens := by
      rw [Reader.argumentsOf, List.takeWhile_append_of_pos hlist, List.map_append]
      rfl
    rw [hboth, hnone, List.append_nil, htexts]

end MacroCall

end Pep10
