import Mathlib.Data.List.Induction
import Mathlib.Data.Nat.Digits.Defs
import Mathlib.Data.Set.List
import Mathlib.Tactic.Ring
import Pep10.Proofs.Text.Numeral

/-!
# Numerals as data

A decimal numeral consists of digits, perhaps behind a sign, and a hexadecimal one of digits of
either case behind a mark.  Its value is that of its digits in the base, however many there are.
Reading the text of a numeral gives its value, and every text of this form is that of a numeral.
-/

namespace Pep10.Text

variable {c : Char} {s : List Char}

/-- Reading digits one after the other gives their value in the base. -/
lemma valueOf_map {α : Type} {char : α → Char} {value : α → Nat} (h : ∀ a, digitValue (char a) = value a)
    (b : Nat) (digits : List α) :
    valueOf b (digits.map char) = Nat.ofDigits b (digits.reverse.map value) := by
  induction digits using List.reverseRecOn with
  | nil => rfl
  | append_singleton digits a ih =>
    rw [List.map_append, List.map_singleton, valueOf_concat, ih, h, List.reverse_append,
      List.reverse_singleton, List.singleton_append, List.map_cons, Nat.ofDigits_cons]
    ring

/-! ### Decimal numerals -/

/-- What stands in front of the digits of a decimal numeral. -/
inductive Sign where
  | absent
  | plus
  | minus
  deriving DecidableEq, Repr

namespace Sign

/-- The text of a sign. -/
def text : Sign → List Char
  | absent => []
  | plus => ['+']
  | minus => ['-']

/-- The number that a sign makes of the one behind it. -/
def apply (sign : Sign) (n : Nat) : Int :=
  match sign with
  | minus => -n
  | _ => n

end Sign

/-- A decimal numeral. -/
structure DecimalNumeral where
  sign : Sign
  digits : List (Fin 10)
  digits_ne_nil : digits ≠ []
  deriving DecidableEq, Repr

/-- The character of a decimal digit. -/
def decimalChar (d : Fin 10) : Char := Nat.digitChar d

lemma isDigit_decimalChar (d : Fin 10) : (decimalChar d).isDigit = true := by
  revert d
  decide

lemma digitValue_decimalChar (d : Fin 10) : digitValue (decimalChar d) = d := by
  revert d
  decide

lemma exists_decimalChar (h : c.isDigit = true) : ∃ d, decimalChar d = c := by
  have hrange : 48 ≤ c.toNat ∧ c.toNat ≤ 57 := by
    delta Char.isDigit at h
    simp only [Bool.and_eq_true, decide_eq_true_eq, ge_iff_le, UInt32.le_iff_toNat_le] at h
    exact h
  have hchars : ∀ d : Fin 10, decimalChar d = Char.ofNat (48 + d) := by decide
  refine ⟨⟨c.toNat - 48, by omega⟩, ?_⟩
  rw [hchars, Nat.add_sub_cancel' hrange.1, Char.ofNat_toNat]

namespace DecimalNumeral

/-- The text of a decimal numeral. -/
def text (n : DecimalNumeral) : List Char := n.sign.text ++ n.digits.map decimalChar

/-- The value of a decimal numeral. -/
def value (n : DecimalNumeral) : Int := n.sign.apply (Nat.ofDigits 10 (n.digits.reverse.map Fin.val))

lemma isDigit_of_mem (n : DecimalNumeral) (h : c ∈ n.digits.map decimalChar) : c.isDigit = true := by
  obtain ⟨d, -, rfl⟩ := List.mem_map.1 h
  exact isDigit_decimalChar d

/-- The text of a numeral is read as its value. -/
lemma signedValue_text (n : DecimalNumeral) : signedValue n.text = n.value := by
  have hdigits := valueOf_map digitValue_decimalChar 10 n.digits
  unfold text value
  cases n.sign with
  | absent => exact (signedValue_of_isDigit fun c => n.isDigit_of_mem).trans (congrArg Nat.cast hdigits)
  | plus => exact congrArg Nat.cast hdigits
  | minus => exact congrArg (fun m : Nat => -(m : Int)) hdigits

/-- Every sign with digits behind it is the text of a numeral. -/
lemma exists_text (sign : Sign) (hne : s ≠ []) (h : ∀ c ∈ s, c.isDigit = true) :
    ∃ n : DecimalNumeral, n.text = sign.text ++ s := by
  obtain ⟨digits, rfl⟩ : s ∈ Set.range (List.map decimalChar) := by
    rw [Set.range_list_map]
    exact fun c hc => exists_decimalChar (h c hc)
  exact ⟨⟨sign, digits, fun hnil => hne (List.map_eq_nil_iff.2 hnil)⟩, rfl⟩

end DecimalNumeral

/-! ### Hexadecimal numerals -/

/-- A hexadecimal digit; a letter can be written in either case. -/
inductive HexDigit where
  | digit (d : Fin 10)
  | letter (n : Fin 6) (upper : Bool)
  deriving DecidableEq, Repr

namespace HexDigit

/-- The character of a hexadecimal digit. -/
def char : HexDigit → Char
  | digit d => decimalChar d
  | letter n upper => Char.ofNat ((if upper then 'A' else 'a').toNat + n)

/-- The value of a hexadecimal digit. -/
def value : HexDigit → Nat
  | digit d => d
  | letter n _ => 10 + n

lemma digitValue_char (d : HexDigit) : digitValue d.char = d.value := by
  cases d with
  | digit d => exact digitValue_decimalChar d
  | letter n upper => revert n upper; decide

lemma isHexDigit_char (d : HexDigit) : isHexDigit d.char = true := by
  cases d with
  | digit d => exact Bool.or_eq_true_iff.2 (.inl (Bool.or_eq_true_iff.2 (.inl (isDigit_decimalChar d))))
  | letter n upper => revert n upper; decide

lemma exists_char (h : isHexDigit c = true) : ∃ d : HexDigit, d.char = c := by
  simp only [isHexDigit, Bool.or_eq_true, Bool.and_eq_true, decide_eq_true_eq] at h
  rcases h with (hdigit | ⟨hlow, hhigh⟩) | ⟨hlow, hhigh⟩
  · obtain ⟨d, rfl⟩ := exists_decimalChar hdigit
    exact ⟨.digit d, rfl⟩
  · have hlow : 97 ≤ c.toNat := hlow
    have hhigh : c.toNat ≤ 102 := hhigh
    refine ⟨.letter ⟨c.toNat - 97, by omega⟩ false, ?_⟩
    exact (congrArg Char.ofNat (Nat.add_sub_cancel' hlow)).trans c.ofNat_toNat
  · have hlow : 65 ≤ c.toNat := hlow
    have hhigh : c.toNat ≤ 70 := hhigh
    refine ⟨.letter ⟨c.toNat - 65, by omega⟩ true, ?_⟩
    exact (congrArg Char.ofNat (Nat.add_sub_cancel' hlow)).trans c.ofNat_toNat

end HexDigit

/-- A hexadecimal numeral. -/
structure HexNumeral where
  upperMark : Bool
  digits : List HexDigit
  digits_ne_nil : digits ≠ []
  deriving DecidableEq, Repr

namespace HexNumeral

/-- The letter between the zero and the digits. -/
def mark (n : HexNumeral) : Char := if n.upperMark then 'X' else 'x'

/-- The text of a hexadecimal numeral. -/
def text (n : HexNumeral) : List Char := '0' :: n.mark :: n.digits.map HexDigit.char

/-- The value of a hexadecimal numeral. -/
def value (n : HexNumeral) : Nat := Nat.ofDigits 16 (n.digits.reverse.map HexDigit.value)

lemma mark_eq (n : HexNumeral) : n.mark = 'x' ∨ n.mark = 'X' := by
  unfold mark
  cases n.upperMark
  · exact .inl rfl
  · exact .inr rfl

lemma isHexDigit_of_mem (n : HexNumeral) (h : c ∈ n.digits.map HexDigit.char) : isHexDigit c = true := by
  obtain ⟨d, -, rfl⟩ := List.mem_map.1 h
  exact d.isHexDigit_char

/-- The digits behind the mark are read as the value of the numeral. -/
lemma valueOf_text (n : HexNumeral) : valueOf 16 (n.text.drop 2) = n.value :=
  valueOf_map HexDigit.digitValue_char 16 n.digits

/-- Every mark with digits behind it is the text of a numeral. -/
lemma exists_text (hmark : c = 'x' ∨ c = 'X') (hne : s ≠ []) (h : ∀ d ∈ s, isHexDigit d = true) :
    ∃ n : HexNumeral, n.text = '0' :: c :: s := by
  obtain ⟨digits, rfl⟩ : s ∈ Set.range (List.map HexDigit.char) := by
    rw [Set.range_list_map]
    exact fun d hd => HexDigit.exists_char (h d hd)
  have hdigits : digits ≠ [] := fun hnil => hne (List.map_eq_nil_iff.2 hnil)
  rcases hmark with rfl | rfl
  · exact ⟨⟨false, digits, hdigits⟩, rfl⟩
  · exact ⟨⟨true, digits, hdigits⟩, rfl⟩

end HexNumeral

end Pep10.Text
