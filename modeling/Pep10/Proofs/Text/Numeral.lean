import Mathlib.Tactic.Common
import Pep10.Text.Numeral

/-!
# Numerals that are written and read back

The digits that a number is written with denote the number, in decimal with a sign where there is
one, and in hexadecimal with any number of leading zeros.
-/

namespace Pep10.Text

variable {b n : Nat} {c : Char} {s : List Char}

lemma valueOf_concat (b : Nat) (s : List Char) (c : Char) :
    valueOf b (s ++ [c]) = valueOf b s * b + digitValue c := by
  rw [valueOf, List.foldl_append]
  rfl

/-- What holds of each digit of a base holds of all digits of a number. -/
lemma forall_mem_toDigits {r : Char → Prop} (hb : 1 < b) (h : ∀ d < b, r (Nat.digitChar d)) :
    ∀ c ∈ Nat.toDigits b n, r c := by
  induction n using Nat.strongRecOn with
  | ind n ih =>
    rcases Nat.lt_or_ge n b with hlt | hge
    · rw [Nat.toDigits_of_lt_base hlt]
      exact List.forall_mem_singleton.2 (h n hlt)
    · rw [Nat.toDigits_of_base_le hb hge]
      intro c hc
      rcases List.mem_append.1 hc with hc | hc
      · exact ih (n / b) (Nat.div_lt_self (by omega) hb) c hc
      · rw [List.mem_singleton.1 hc]
        exact h _ (Nat.mod_lt _ (by omega))

/-- The digits of a number denote it, in whatever case they are written. -/
lemma valueOf_toDigits {f : Char → Char} (hb : 1 < b)
    (h : ∀ d < b, digitValue (f (Nat.digitChar d)) = d) (n : Nat) :
    valueOf b ((Nat.toDigits b n).map f) = n := by
  induction n using Nat.strongRecOn with
  | ind n ih =>
    rcases Nat.lt_or_ge n b with hlt | hge
    · rw [Nat.toDigits_of_lt_base hlt]
      simpa [valueOf] using h n hlt
    · rw [Nat.toDigits_of_base_le hb hge, List.map_append, List.map_singleton, valueOf_concat,
        ih (n / b) (Nat.div_lt_self (by omega) hb), h _ (Nat.mod_lt _ (by omega)), Nat.mul_comm]
      exact Nat.div_add_mod n b

/-! ### Decimal numerals -/

lemma valueOf_decimal (n : Nat) : valueOf 10 (Nat.toDigits 10 n) = n := by
  have h := valueOf_toDigits (f := id) (b := 10) (by decide) (by decide) n
  rwa [List.map_id] at h

lemma isDigit_of_mem_decimal (h : c ∈ Nat.toDigits 10 n) : c.isDigit = true :=
  Nat.isDigit_of_mem_toDigits (by decide) (by decide) h

/-- A numeral that begins with a digit has no sign. -/
lemma signedValue_of_isDigit (h : ∀ c ∈ s, c.isDigit = true) : signedValue s = valueOf 10 s := by
  unfold signedValue
  split
  next => exact absurd (h '-' List.mem_cons_self) (by decide)
  next => exact absurd (h '+' List.mem_cons_self) (by decide)
  next => rfl

/-- A number that is written in decimal is read back. -/
lemma signedValue_decimal (n : Nat) : signedValue (decimal n).toList = n := by
  rw [decimal, String.toList_ofList, signedValue_of_isDigit fun c => isDigit_of_mem_decimal,
    valueOf_decimal]

lemma signedValue_signedDecimal (a : Int) : signedValue (signedDecimal a).toList = a := by
  unfold signedDecimal
  split
  next hneg =>
    rw [String.toList_ofList, signedValue, valueOf_decimal]
    omega
  next hnonneg =>
    rw [signedValue_decimal]
    omega

/-! ### Hexadecimal numerals -/

lemma valueOf_replicate_zero (b k : Nat) (s : List Char) :
    valueOf b (List.replicate k '0' ++ s) = valueOf b s := by
  induction k with
  | zero => rfl
  | succ k ih =>
    rw [List.replicate_succ, List.cons_append, valueOf, List.foldl_cons]
    exact (congrArg (fun m => List.foldl _ m _) (Nat.zero_mul b)).trans ih

/-- A number that is written in hexadecimal is read back, however many digits it has been given. -/
lemma valueOf_hexDigits (width n : Nat) : valueOf 16 (hexDigits width n) = n := by
  rw [hexDigits, valueOf_replicate_zero]
  exact valueOf_toDigits (by decide) (by decide) n

lemma isHexDigit_of_mem_hexDigits {width : Nat} (h : c ∈ hexDigits width n) :
    isHexDigit c = true := by
  rcases List.mem_append.1 h with hc | hc
  · rw [(List.mem_replicate.1 hc).2]
    decide
  · obtain ⟨d, hd, rfl⟩ := List.mem_map.1 hc
    exact forall_mem_toDigits (r := fun c => isHexDigit c.toUpper = true) (by decide) (by decide) d hd

lemma hexDigits_ne_nil (width n : Nat) : hexDigits width n ≠ [] := by
  rw [hexDigits]
  intro h
  have hnil := List.map_eq_nil_iff.1 (List.append_eq_nil_iff.1 h).2
  exact Nat.toDigits_ne_nil hnil

end Pep10.Text
