import Mathlib.Tactic.Common
import Pep10.Text.Ascii

/-!
# Texts that differ in case

Texts and lists of texts agree up to ASCII case if they are the same in lower case.
-/

namespace Pep10.Text

variable {a b : String} {as bs cs : List String}

/-- A text in lower case, as a list of characters. -/
def lowered (s : String) : List Char := s.toList.map Char.toLower

lemma sameName_iff : sameName a b = true ↔ lowered a = lowered b := beq_iff_eq

/-- Lists of texts agree up to case if they are the same in lower case. -/
lemma sameNames_iff : sameNames as bs = true ↔ as.map lowered = bs.map lowered := by
  induction as generalizing bs with
  | nil => cases bs <;> simp [sameNames]
  | cons a as ih =>
    cases bs with
    | nil => simp [sameNames]
    | cons b bs => simp [sameNames, sameName_iff, ih]

lemma sameNames_refl (as : List String) : sameNames as as = true := sameNames_iff.2 rfl

lemma sameNames_symm (h : sameNames as bs = true) : sameNames bs as = true :=
  sameNames_iff.2 (sameNames_iff.1 h).symm

lemma sameNames_trans (h : sameNames as bs = true) (h' : sameNames bs cs = true) :
    sameNames as cs = true :=
  sameNames_iff.2 ((sameNames_iff.1 h).trans (sameNames_iff.1 h'))

/-- Lists that agree with each other up to case agree with the same lists. -/
lemma sameNames_congr (h : sameNames as bs = true) : sameNames cs as = sameNames cs bs := by
  rw [Bool.eq_iff_iff, sameNames_iff, sameNames_iff, sameNames_iff.1 h]

end Pep10.Text
