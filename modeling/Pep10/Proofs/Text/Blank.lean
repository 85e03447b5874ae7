import Mathlib.Data.List.DropRight
import Mathlib.Data.List.TakeWhile
import Mathlib.Tactic.Common
import Pep10.Text.Ascii
import Pep10.Text.Blank

/-!
# Blanks and names

Blanks, the characters of names and the marks of the source language have nothing in common.
Trimming takes blanks off both sides of a text and nothing else.  A text that does not end in a
blank is clean.
-/

namespace Pep10.Text

variable {c : Char} {s t : List Char}

/-! ### Classes of characters -/

/-- The characters of names are letters, digits and underscores. -/
lemma toNat_of_isNameRest (h : isNameRest c = true) :
    (48 ≤ c.toNat ∧ c.toNat ≤ 57) ∨ (65 ≤ c.toNat ∧ c.toNat ≤ 90) ∨ c.toNat = 95 ∨
      (97 ≤ c.toNat ∧ c.toNat ≤ 122) := by
  delta isNameRest Char.isAlphanum Char.isAlpha Char.isUpper Char.isLower Char.isDigit at h
  simp only [Bool.or_eq_true, Bool.and_eq_true, decide_eq_true_eq, beq_iff_eq, ge_iff_le,
    UInt32.le_iff_toNat_le] at h
  rcases h with ((⟨h1, h2⟩ | ⟨h1, h2⟩) | ⟨h1, h2⟩) | rfl
  · exact .inr (.inl ⟨h1, h2⟩)
  · exact .inr (.inr (.inr ⟨h1, h2⟩))
  · exact .inl ⟨h1, h2⟩
  · decide

/-- No character of a name is blank. -/
lemma isBlank_of_isNameRest (h : isNameRest c = true) : isBlank c = false := by
  have := toNat_of_isNameRest h
  simp only [isBlank, blankRanges, List.any_cons, List.any_nil, Bool.or_false, Bool.or_eq_false_iff,
    Bool.and_eq_false_iff, decide_eq_false_iff_not]
  omega

/-- A name goes on with the characters that it may start with. -/
lemma isNameRest_of_isNameStart (h : isNameStart c = true) : isNameRest c = true := by
  simp only [isNameStart, isNameRest, Char.isAlphanum, Bool.or_eq_true] at h ⊢
  exact h.imp_left .inl

/-- No digit begins a name. -/
lemma isDigit_of_isNameStart (h : isNameStart c = true) : c.isDigit = false := by
  delta isNameStart Char.isAlpha Char.isUpper Char.isLower at h
  delta Char.isDigit
  simp only [Bool.or_eq_true, Bool.and_eq_true, decide_eq_true_eq, beq_iff_eq, ge_iff_le,
    UInt32.le_iff_toNat_le] at h
  simp only [Bool.and_eq_false_iff, decide_eq_false_iff_not, ge_iff_le, UInt32.le_iff_toNat_le]
  rcases h with (⟨h1, -⟩ | ⟨h1, -⟩) | rfl
  · exact .inr fun h2 => absurd (Nat.le_trans h1 h2) (by decide)
  · exact .inr fun h2 => absurd (Nat.le_trans h1 h2) (by decide)
  · decide

/-- No letter becomes an at sign in lower case. -/
lemma toLower_ne_at (h : isNameStart c = true) : c.toLower ≠ '@' := by
  intro hc
  unfold Char.toLower at hc
  split at hc
  next hupper =>
    have hval : c.val + ('a'.val - 'A'.val) = 32 + ('a'.val - 'A'.val) := congrArg Char.val hc
    rw [(UInt32.add_left_inj _).1 hval] at hupper
    revert hupper
    decide
  next =>
    rw [hc] at h
    revert h
    decide

/-- An identifier consists of the characters of names. -/
lemma isNameRest_of_mem (h : isIdentifier s = true) : ∀ c ∈ s, isNameRest c = true := by
  cases s with
  | nil => cases h
  | cons c s =>
    simp only [isIdentifier, Bool.and_eq_true, List.all_eq_true] at h
    exact List.forall_mem_cons.2 ⟨isNameRest_of_isNameStart h.1, h.2⟩

lemma newline_not_mem_of_isNameRest (h : ∀ c ∈ s, isNameRest c = true) : '\n' ∉ s := by
  intro hmem
  have hname := h _ hmem
  revert hname
  decide

/-- Where an identifier ends can be seen from the text. -/
lemma takeWhile_identifier (h : isIdentifier s = true) (ht : t.head?.any isNameRest = false) :
    (s ++ t).takeWhile isNameRest = s := by
  rw [List.takeWhile_append_of_pos (isNameRest_of_mem h)]
  cases t with
  | nil => simp
  | cons c t =>
    rw [List.takeWhile_cons_of_neg (by simpa using ht), List.append_nil]

/-! ### Trimming -/

/-- Trimming takes off blanks. -/
lemma exists_trim (s : List Char) :
    ∃ l r, s = l ++ (trim s ++ r) ∧ (∀ c ∈ l, isBlank c = true) ∧ ∀ c ∈ r, isBlank c = true := by
  refine ⟨s.takeWhile isBlank, ((trimStart s).reverse.takeWhile isBlank).reverse, ?_, ?_, ?_⟩
  · have hend : trim s ++ ((trimStart s).reverse.takeWhile isBlank).reverse = trimStart s := by
      rw [trim, trimEnd, ← List.reverse_append, List.takeWhile_append_dropWhile, List.reverse_reverse]
    rw [hend, trimStart, List.takeWhile_append_dropWhile]
  · exact fun c hc => List.mem_takeWhile_imp hc
  · exact fun c hc => List.mem_takeWhile_imp (List.mem_reverse.1 hc)

lemma mem_of_mem_trim (h : c ∈ trim s) : c ∈ s := by
  obtain ⟨l, r, hs, -, -⟩ := exists_trim s
  rw [hs]
  simp [h]

/-- A text that is left by dropping leading characters does not begin with one of them. -/
lemma head?_dropWhile_eq_false {p : Char → Bool} (h : s.dropWhile p = c :: t) : p c = false := by
  have := List.head?_dropWhile_not p s
  rw [h] at this
  simpa using this

/-- A text that does not begin with a blank has no blanks to drop in front. -/
lemma trimStart_eq_self (h : s.head?.any isBlank = false) : trimStart s = s := by
  cases s with
  | nil => rfl
  | cons c s => exact List.dropWhile_cons_of_neg (by simpa using h)

/-- Blanks at the end do not matter to trimming. -/
lemma trim_append_blanks {blanks : List Char} (h : ∀ c ∈ blanks, isBlank c = true) :
    trim (s ++ blanks) = trim s := by
  have hend : ∀ w : List Char, trimEnd (w ++ blanks) = trimEnd w := by
    intro w
    rw [trimEnd, List.reverse_append, List.dropWhile_append_of_pos, trimEnd]
    exact fun c hc => h c (List.mem_reverse.1 hc)
  by_cases hs : ∀ c ∈ s, isBlank c = true
  · have hnil : trimStart (s ++ blanks) = trimStart blanks :=
      List.dropWhile_append_of_pos hs
    rw [trim, trim, hnil, trimStart, trimStart, List.dropWhile_eq_nil_iff.2 h,
      List.dropWhile_eq_nil_iff.2 hs]
  · have happend : trimStart (s ++ blanks) = trimStart s ++ blanks := by
      rw [trimStart, List.dropWhile_append, if_neg, trimStart]
      rw [List.isEmpty_iff, List.dropWhile_eq_nil_iff]
      exact hs
    rw [trim, trim, happend, hend]

/-! ### Texts without blanks at the end -/

/-- The last character of a text, if there is one, is not blank. -/
def Clean (s : List Char) : Prop := ∀ c ∈ s.getLast?, isBlank c = false

instance (s : List Char) : Decidable (Clean s) :=
  decidable_of_iff (s.getLast?.all fun c => !isBlank c) (by cases h : s.getLast? <;> simp [Clean, h])

lemma Clean.of_forall (h : ∀ c ∈ s, isBlank c = false) : Clean s :=
  fun c hc => h c (List.mem_of_getLast? hc)

lemma Clean.append (h : Clean t) (hne : t ≠ []) : Clean (s ++ t) := by
  intro c hc
  rw [List.getLast?_append_of_ne_nil _ hne] at hc
  exact h c hc

lemma Clean.suffix (h : Clean s) (hsuffix : t <:+ s) : Clean t := by
  obtain ⟨r, rfl⟩ := hsuffix
  intro c hc
  apply h c
  rw [List.getLast?_append, hc]
  rfl

lemma clean_trimEnd (s : List Char) : Clean (trimEnd s) := by
  intro c hc
  have hne : trimEnd s ≠ [] := by
    intro hnil
    rw [hnil] at hc
    cases hc
  rw [List.getLast?_eq_some_getLast hne] at hc
  cases hc
  exact Bool.eq_false_iff.2 (List.rdropWhile_last_not isBlank s hne)

/-- Trimming goes no further than to the last character that is not blank. -/
lemma Clean.trimEnd_append (h : Clean s) (hne : s ≠ []) : trimEnd (s ++ t) = s ++ trimEnd t := by
  obtain ⟨u, c, rfl⟩ : ∃ u c, s = u ++ [c] := ⟨_, _, (List.dropLast_concat_getLast hne).symm⟩
  have hblank := h c List.getLast?_concat
  rw [trimEnd, trimEnd, List.reverse_append, List.reverse_concat, List.dropWhile_append]
  split
  next hnil =>
    rw [List.isEmpty_iff] at hnil
    rw [List.dropWhile_cons_of_neg (by simp [hblank]), hnil]
    simp
  next => simp

lemma Clean.trimEnd_eq (h : Clean s) : trimEnd s = s := by
  cases s with
  | nil => rfl
  | cons c s => simpa [trimEnd] using h.trimEnd_append (t := []) (List.cons_ne_nil c s)

/-- Trimming takes off all of a blank text, and leaves the blanks in front of other text. -/
lemma trimEnd_blanks_append {blanks : List Char} (h : ∀ c ∈ blanks, isBlank c = true) :
    trimEnd (blanks ++ s) = if trimEnd s = [] then [] else blanks ++ trimEnd s := by
  rw [trimEnd, List.reverse_append, List.dropWhile_append]
  simp only [trimEnd, List.reverse_eq_nil_iff, List.isEmpty_iff]
  split
  next => exact List.reverse_eq_nil_iff.2 (List.dropWhile_eq_nil_iff.2 fun c hc => h c (List.mem_reverse.1 hc))
  next => rw [List.reverse_append, List.reverse_reverse]

lemma trimEnd_prefix (s : List Char) : trimEnd s <+: s := List.rdropWhile_prefix isBlank s

end Pep10.Text
