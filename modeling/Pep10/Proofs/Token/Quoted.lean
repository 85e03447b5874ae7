import Pep10.Proofs.Text.QuotedUnit
import Pep10.Token.Lexer

/-!
# Quoted constants as the lexer reads them

The lexer takes the inside of a quoted constant unit by unit.  What it takes as one unit is a plain
character or an escape (`quotedUnit_eq_ok_iff`), so a string constant is read to its end exactly if
units and a closing quote are there (`stringRest_eq_ok_iff`).
-/

namespace Pep10.Lexer

open Text (Escape HexDigit QuotedUnit quoted)

variable {c quote : Char} {s rest : List Char} {t : Token}

/-! ### One unit -/

lemma isSimpleEscape_iff : isSimpleEscape c = true ↔ ∃ e : Escape, e.letter = c := by
  constructor
  · intro h
    simp only [isSimpleEscape, List.contains_eq_mem, decide_eq_true_eq, List.mem_cons, List.not_mem_nil,
      or_false] at h
    rcases h with rfl | rfl | rfl | rfl | rfl | rfl | rfl | rfl | rfl
    exacts [⟨.singleQuote, rfl⟩, ⟨.doubleQuote, rfl⟩, ⟨.backslash, rfl⟩, ⟨.backspace, rfl⟩,
      ⟨.formFeed, rfl⟩, ⟨.lineFeed, rfl⟩, ⟨.carriageReturn, rfl⟩, ⟨.tab, rfl⟩, ⟨.verticalTab, rfl⟩]
  · rintro ⟨e, rfl⟩
    cases e <;> decide

lemma hexPair_eq_ok_iff :
    hexPair s = .ok rest ↔ ∃ high low : HexDigit, s = high.char :: low.char :: rest := by
  constructor
  · intro h
    unfold hexPair at h
    split at h
    · cases h
    · cases h
    next a b s =>
      split at h
      · cases h
      next ha =>
        split at h
        · cases h
        next hb =>
          cases h
          obtain ⟨high, rfl⟩ := HexDigit.exists_char (c := a) (by simpa using ha)
          obtain ⟨low, rfl⟩ := HexDigit.exists_char (c := b) (by simpa using hb)
          exact ⟨high, low, rfl⟩
  · rintro ⟨high, low, rfl⟩
    simp [hexPair, high.isHexDigit_char, low.isHexDigit_char]

/-- What is taken as one unit: a character other than the backslash, a simple escape, or an escape
with two hexadecimal digits. -/
lemma quotedUnit_eq_ok_iff : quotedUnit s = .ok rest ↔
    (∃ c, c ≠ '\\' ∧ s = c :: rest) ∨ (∃ e : Escape, s = '\\' :: e.letter :: rest) ∨
      ∃ (upper : Bool) (high low : HexDigit),
        s = '\\' :: (if upper then 'X' else 'x') :: high.char :: low.char :: rest := by
  constructor
  · intro h
    unfold quotedUnit at h
    split at h
    · cases h
    · cases h
    next c s =>
      split at h
      next hsimple =>
        cases h
        obtain ⟨e, rfl⟩ := isSimpleEscape_iff.1 hsimple
        exact .inr (.inl ⟨e, rfl⟩)
      next =>
        split at h
        next hmark =>
          obtain ⟨high, low, rfl⟩ := hexPair_eq_ok_iff.1 h
          simp only [Bool.or_eq_true, beq_iff_eq] at hmark
          rcases hmark with rfl | rfl
          · exact .inr (.inr ⟨false, high, low, rfl⟩)
          · exact .inr (.inr ⟨true, high, low, rfl⟩)
        · cases h
    next c s hnil hcons =>
      cases h
      refine .inl ⟨c, ?_, rfl⟩
      rintro rfl
      cases rest with
      | nil => exact hnil rfl rfl
      | cons d rest => exact hcons d rest rfl rfl
  · rintro (⟨c, hc, rfl⟩ | ⟨e, rfl⟩ | ⟨upper, high, low, rfl⟩)
    · rw [quotedUnit]
      · exact fun heq => absurd heq hc
      · exact fun _ _ heq => absurd heq hc
    · simp [quotedUnit, isSimpleEscape_iff.2 ⟨e, rfl⟩]
    · have hpair : hexPair (high.char :: low.char :: rest) = .ok rest := hexPair_eq_ok_iff.2 ⟨high, low, rfl⟩
      cases upper
      · exact hpair
      · exact hpair

/-- A unit is taken as one, whatever follows it. -/
lemma quotedUnit_text_append (u : QuotedUnit quote) (s : List Char) : quotedUnit (u.text ++ s) = .ok s := by
  cases u with
  | plain c _ hc => exact quotedUnit_eq_ok_iff.2 (.inl ⟨c, hc, rfl⟩)
  | escape e => exact quotedUnit_eq_ok_iff.2 (.inr (.inl ⟨e, rfl⟩))
  | hex upper high low => exact quotedUnit_eq_ok_iff.2 (.inr (.inr ⟨upper, high, low, rfl⟩))

/-- What is taken as one unit is a unit, unless it is the quote. -/
lemma exists_unit_of_quotedUnit (quote : Char) (h : quotedUnit s = .ok rest)
    (hhead : s.head? ≠ some quote) : ∃ u : QuotedUnit quote, s = u.text ++ rest := by
  rcases quotedUnit_eq_ok_iff.1 h with ⟨c, hc, rfl⟩ | ⟨e, rfl⟩ | ⟨upper, high, low, rfl⟩
  · exact ⟨.plain c (fun heq => hhead (congrArg some heq)) hc, rfl⟩
  · exact ⟨.escape e, rfl⟩
  · exact ⟨.hex upper high low, rfl⟩

/-- A unit does not begin with the quote, if that is no backslash. -/
lemma exists_text_eq_cons (hquote : quote ≠ '\\') (u : QuotedUnit quote) :
    ∃ first v, u.text = first :: v ∧ first ≠ quote := by
  cases u with
  | plain c hc _ => exact ⟨c, [], rfl, hc⟩
  | escape e => exact ⟨'\\', [e.letter], rfl, hquote.symm⟩
  | hex upper high low => exact ⟨'\\', _, rfl, hquote.symm⟩

/-! ### The text left at a failure -/

lemma suffix_of_hexPair_error (h : hexPair s = .error rest) : rest <:+ s := by
  unfold hexPair at h
  split at h
  · cases h
    exact List.nil_suffix
  · cases h
    exact List.nil_suffix
  next a b s =>
    split at h
    · cases h
      exact List.suffix_cons ..
    · split at h
      · cases h
        exact List.suffix_append [a, b] _
      · cases h

lemma suffix_of_quotedUnit_error (h : quotedUnit s = .error rest) : rest <:+ s := by
  unfold quotedUnit at h
  split at h
  · cases h
    exact List.nil_suffix
  · cases h
    exact List.nil_suffix
  next c s =>
    have hs : s <:+ '\\' :: c :: s := List.suffix_append ['\\', c] s
    split at h
    · cases h
    · split at h
      · exact (suffix_of_hexPair_error h).trans hs
      · cases h
        exact hs
  · cases h

/-- A unit is cut off the front of the text. -/
lemma suffix_of_quotedUnit (h : quotedUnit s = .ok rest) : rest <:+ s := by
  rcases quotedUnit_eq_ok_iff.1 h with ⟨c, -, rfl⟩ | ⟨e, rfl⟩ | ⟨upper, high, low, rfl⟩
  · exact List.suffix_append [c] rest
  · exact List.suffix_append ['\\', e.letter] rest
  · exact List.suffix_append ['\\', _, high.char, low.char] rest

lemma suffix_of_stringRest_error (h : stringRest s = .error rest) : rest <:+ s := by
  fun_induction stringRest s with
  | case1 =>
    cases h
    exact List.nil_suffix
  | case2 => cases h
  | case3 c s _ rest' hunit =>
    cases h
    exact suffix_of_quotedUnit_error hunit
  | case4 c s _ rest' hunit _ ih => exact (ih h).trans (suffix_of_quotedUnit hunit)

lemma suffix_of_scanChar_error {e : LexicalError} (h : scanChar s = .error (e, rest)) : rest <:+ s := by
  unfold scanChar at h
  split at h
  · cases h
    exact List.suffix_refl s
  · split at h
    next hunit =>
      cases h
      exact suffix_of_quotedUnit_error hunit
    · cases h
      exact List.nil_suffix
    next c rest' hunit =>
      split at h
      · cases h
      · cases h
        exact (List.suffix_cons c rest).trans (suffix_of_quotedUnit hunit)

lemma suffix_of_scanString_error {e : LexicalError} (h : scanString s = .error (e, rest)) : rest <:+ s := by
  unfold scanString at h
  split at h
  · cases h
  next hrest =>
    cases h
    exact suffix_of_stringRest_error hrest

/-! ### Constants -/

/-- A string constant is read to its end exactly if units and a closing quote are there. -/
lemma stringRest_eq_ok_iff : stringRest s = .ok rest ↔
    ∃ units : List (QuotedUnit '"'), s = units.flatMap QuotedUnit.text ++ '"' :: rest := by
  constructor
  · intro h
    fun_induction stringRest s with
    | case1 => cases h
    | case2 c s hc =>
      cases h
      exact ⟨[], by rw [beq_iff_eq.1 hc]; rfl⟩
    | case3 => cases h
    | case4 c s hc rest' hunit _ ih =>
      obtain ⟨u, hu⟩ := exists_unit_of_quotedUnit '"' hunit (by simpa using hc)
      obtain ⟨units, rfl⟩ := ih h
      exact ⟨u :: units, by rw [hu, List.flatMap_cons, List.append_assoc]⟩
  · rintro ⟨units, rfl⟩
    induction units with
    | nil => simp [stringRest]
    | cons u units ih =>
      obtain ⟨first, v, hu, hfirst⟩ := exists_text_eq_cons (by decide) u
      have hunit := quotedUnit_text_append u (units.flatMap QuotedUnit.text ++ '"' :: rest)
      rw [List.flatMap_cons, List.append_assoc, hu, List.cons_append, stringRest,
        if_neg (by simpa using hfirst)]
      rw [hu, List.cons_append] at hunit
      split
      next heq =>
        rw [hunit] at heq
        cases heq
      next heq =>
        rw [hunit] at heq
        cases heq
        exact ih

/-- The text of a token that ends before `rest` is what lies in front of it. -/
lemma upTo_append_self (kind : Token.Kind) (c : Char) (v rest : List Char) :
    upTo kind c (v ++ rest) rest = (⟨kind, String.ofList (c :: v)⟩, rest) := by
  rw [upTo, List.length_append, Nat.add_sub_cancel, List.take_left]

/-- Behind the opening quote, a string constant is made of units up to the closing one. -/
lemma scanString_eq_ok_iff : scanString s = .ok (t, rest) ↔
    ∃ units : List (QuotedUnit '"'), s = units.flatMap QuotedUnit.text ++ '"' :: rest ∧
      t = ⟨.stringConstant, String.ofList (quoted units)⟩ := by
  have hupTo : ∀ (units : List (QuotedUnit '"')) (rest : List Char),
      upTo .stringConstant '"' (units.flatMap QuotedUnit.text ++ '"' :: rest) rest =
        (⟨.stringConstant, String.ofList (quoted units)⟩, rest) := by
    intro units rest
    rw [← List.singleton_append, ← List.append_assoc]
    exact upTo_append_self ..
  constructor
  · intro h
    unfold scanString at h
    split at h
    next rest' hrest =>
      obtain ⟨units, rfl⟩ := stringRest_eq_ok_iff.1 hrest
      rw [hupTo] at h
      cases h
      exact ⟨units, rfl, rfl⟩
    · cases h
  · rintro ⟨units, rfl, rfl⟩
    rw [scanString, stringRest_eq_ok_iff.2 ⟨units, rfl⟩]
    exact congrArg Except.ok (hupTo units rest)

/-- A unit stands for one byte exactly if it begins with an ASCII character. -/
lemma length_bytes_eq_one_iff {u : QuotedUnit quote} {first : Char} {v : List Char} (hu : u.text = first :: v) :
    u.bytes.length = 1 ↔ first.val < 0x80 := by
  have hslash : ('\\' : Char).val < 0x80 := by decide
  cases u with
  | plain c _ _ =>
    cases hu
    rw [QuotedUnit.bytes, String.length_utf8EncodeChar, Char.utf8Size_eq_one_iff]
    exact Nat.lt_succ_iff.symm
  | escape e =>
    cases hu
    exact iff_of_true rfl hslash
  | hex upper high low =>
    cases hu
    exact iff_of_true rfl hslash

/-- Behind the opening quote, a character constant is made of one unit, which stands for one byte,
and the closing quote. -/
lemma scanChar_eq_ok_iff : scanChar s = .ok (t, rest) ↔
    ∃ u : QuotedUnit '\'', u.bytes.length = 1 ∧ s = u.text ++ '\'' :: rest ∧
      t = ⟨.charConstant, String.ofList (quoted [u])⟩ := by
  have hupTo : ∀ (u : QuotedUnit '\'') (rest : List Char),
      upTo .charConstant '\'' (u.text ++ '\'' :: rest) rest =
        (⟨.charConstant, String.ofList (quoted [u])⟩, rest) := by
    intro u rest
    rw [quoted, List.flatMap_singleton, ← List.singleton_append, ← List.append_assoc]
    exact upTo_append_self ..
  constructor
  · intro h
    unfold scanChar at h
    split at h
    · cases h
    next hhead =>
      split at h
      · cases h
      · cases h
      next c rest' hunit =>
        split at h
        next hc =>
          obtain rfl := beq_iff_eq.1 hc
          obtain ⟨u, rfl⟩ := exists_unit_of_quotedUnit '\'' hunit fun hq => hhead (by simp [hq])
          rw [hupTo] at h
          cases h
          obtain ⟨first, v, hu, -⟩ := exists_text_eq_cons (by decide) u
          refine ⟨u, (length_bytes_eq_one_iff hu).2 ?_, rfl, rfl⟩
          rw [hu, List.cons_append, List.head?_cons, Option.any_some, Bool.or_eq_true, decide_eq_true_eq,
            not_or] at hhead
          exact Nat.lt_of_not_le hhead.2
        · cases h
  · rintro ⟨u, hbyte, rfl, rfl⟩
    obtain ⟨first, v, hu, hfirst⟩ := exists_text_eq_cons (by decide) u
    have hascii := (length_bytes_eq_one_iff hu).1 hbyte
    have hhead : ¬((u.text ++ '\'' :: rest).head?.any fun c => c == '\'' || c.val ≥ 0x80) = true := by
      rw [hu, List.cons_append, List.head?_cons, Option.any_some, Bool.or_eq_true, beq_iff_eq,
        decide_eq_true_eq, not_or]
      exact ⟨hfirst, Nat.not_le.2 hascii⟩
    rw [scanChar, if_neg hhead, quotedUnit_text_append]
    simp only [beq_self_eq_true, if_true, hupTo]

end Pep10.Lexer
