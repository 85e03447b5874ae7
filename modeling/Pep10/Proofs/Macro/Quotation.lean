import Mathlib.Tactic.Common
import Pep10.Macro.Call

/-!
# Marks outside quoted constants

The search for macro calls looks for marks that stand outside quoted constants.  `Hides` says that a
text, scanned from some state, shows no such mark; it tells what the fields of a text and the text
before a mark look like.  The arguments of a call hide all at signs, and so an at sign in an
argument has a quote before it.
-/

namespace Pep10.MacroCall

/-- The characters that begin and end quoted constants. -/
def IsQuote (c : Char) : Prop := c = '\'' ∨ c = '"'

variable {mark c : Char} {state : Quotation} {s a b field : List Char}

/-- The state behind a text. -/
def Quotation.after (state : Quotation) (s : List Char) : Quotation := s.foldl Quotation.next state

/-- No occurrence of `mark` in a text is exposed. -/
def Hides (mark : Char) : Quotation → List Char → Prop
  | _, [] => True
  | state, c :: s => ¬(state.exposes c = true ∧ c = mark) ∧ Hides mark (state.next c) s

/-! ### States -/

@[simp] lemma Quotation.after_nil : state.after [] = state := rfl

@[simp] lemma Quotation.after_cons : state.after (c :: s) = (state.next c).after s := rfl

lemma Quotation.after_append : state.after (a ++ b) = (state.after a).after b :=
  List.foldl_append

lemma Quotation.next_outside (h : ¬IsQuote c) : Quotation.outside.next c = .outside := by
  simpa [Quotation.next, IsQuote] using h

/-- A text without quotes does not lead into a quoted constant. -/
lemma Quotation.after_outside (h : ∀ c ∈ s, ¬IsQuote c) : Quotation.outside.after s = .outside := by
  induction s with
  | nil => rfl
  | cons c s ih =>
    rw [List.forall_mem_cons] at h
    rw [Quotation.after_cons, Quotation.next_outside h.1, ih h.2]

lemma Quotation.exposes_iff : state.exposes c = true ↔ state = .outside ∧ ¬IsQuote c := by
  simp [Quotation.exposes, IsQuote, and_assoc]

/-! ### Texts that hide a mark -/

lemma hides_append : Hides mark state (a ++ b) ↔
    Hides mark state a ∧ Hides mark (state.after a) b := by
  induction a generalizing state with
  | nil => simp [Hides]
  | cons c a ih => rw [List.cons_append, Hides, Hides, ih, and_assoc, Quotation.after_cons]

/-- A mark that does not occur is hidden. -/
lemma hides_of_not_mem (h : mark ∉ s) : Hides mark state s := by
  induction s generalizing state with
  | nil => trivial
  | cons c s ih =>
    rw [List.mem_cons, not_or] at h
    exact ⟨fun hc => h.1 hc.2.symm, ih h.2⟩

/-- A mark that is hidden has a quote before it. -/
lemma Hides.exists_quote (h : Hides mark .outside (a ++ mark :: b)) (hmark : ¬IsQuote mark) :
    ∃ c ∈ a, IsQuote c := by
  by_contra hnone
  push Not at hnone
  rw [hides_append, Quotation.after_outside hnone] at h
  exact h.2.1 ⟨Quotation.exposes_iff.2 ⟨rfl, hmark⟩, rfl⟩

/-! ### The text before a mark -/

lemma beforeMark_append (h : Hides mark state a) :
    beforeMark mark state (a ++ b) = a ++ beforeMark mark (state.after a) b := by
  induction a generalizing state with
  | nil => rfl
  | cons c a ih =>
    have hc : (state.exposes c && c == mark) = false := by
      rw [← Bool.not_eq_true]
      simpa using h.1
    rw [List.cons_append, beforeMark, hc, ih h.2]
    rfl

/-- The text before a mark is the whole text, or the mark follows it. -/
lemma exists_beforeMark (mark : Char) (state : Quotation) (s : List Char) :
    ∃ rest, s = beforeMark mark state s ++ rest ∧ (rest = [] ∨ ∃ behind, rest = mark :: behind) := by
  induction s generalizing state with
  | nil => exact ⟨[], rfl, .inl rfl⟩
  | cons c s ih =>
    rw [beforeMark]
    split
    next hc =>
      have hmark : c = mark := by
        simp only [Bool.and_eq_true, beq_iff_eq] at hc
        exact hc.2
      exact ⟨c :: s, rfl, .inr ⟨s, by rw [hmark]⟩⟩
    next =>
      obtain ⟨rest, hs, hrest⟩ := ih (state.next c)
      exact ⟨rest, by rw [List.cons_append, ← hs], hrest⟩

/-! ### Fields -/

lemma fieldsAt_ne_nil (mark : Char) (state : Quotation) (s : List Char) :
    fieldsAt mark state s ≠ [] := by
  cases s with
  | nil => simp [fieldsAt]
  | cons c s =>
    rw [fieldsAt]
    split
    · simp
    · split <;> simp

/-- A character that is no exposed mark belongs to the first field. -/
lemma fieldsAt_cons (h : ¬(state.exposes c = true ∧ c = mark)) :
    ∃ field rest, fieldsAt mark (state.next c) s = field :: rest ∧
      fieldsAt mark state (c :: s) = (c :: field) :: rest := by
  have hc : (state.exposes c && c == mark) = false := by
    rw [← Bool.not_eq_true]
    simpa using h
  rcases hf : fieldsAt mark (state.next c) s with _ | ⟨field, rest⟩
  · exact absurd hf (fieldsAt_ne_nil _ _ _)
  · refine ⟨field, rest, rfl, ?_⟩
    rw [fieldsAt, hc, hf]
    rfl

/-- An exposed mark begins a new field. -/
lemma fieldsAt_mark (h : state.exposes mark = true) :
    fieldsAt mark state (mark :: s) = [] :: fieldsAt mark .outside s := by
  simp [fieldsAt, h]

/-- A text that hides the mark belongs to the first field. -/
lemma fieldsAt_hides_append {fields : List (List Char)} (h : Hides mark state a)
    (hb : fieldsAt mark (state.after a) b = field :: fields) :
    fieldsAt mark state (a ++ b) = (a ++ field) :: fields := by
  induction a generalizing state with
  | nil => exact hb
  | cons c a ih =>
    obtain ⟨first, rest, hfirst, hcons⟩ := fieldsAt_cons (s := a ++ b) h.1
    rw [ih h.2 hb, List.cons.injEq] at hfirst
    rw [List.cons_append, hcons, ← hfirst.1, ← hfirst.2, List.cons_append]

/-- A text that hides the mark and the text behind the mark make up the fields. -/
lemma fieldsAt_append (h : Hides mark state a) (hstate : (state.after a).exposes mark = true) :
    fieldsAt mark state (a ++ mark :: b) = a :: fieldsAt mark .outside b := by
  rw [fieldsAt_hides_append h (fieldsAt_mark hstate), List.append_nil]

/-- The only field of a text is the text, which hides the mark. -/
lemma fieldsAt_eq_singleton (h : fieldsAt mark state s = [field]) : field = s ∧ Hides mark state s := by
  induction s generalizing state field with
  | nil =>
    cases h
    exact ⟨rfl, trivial⟩
  | cons c s ih =>
    by_cases hc : state.exposes c = true ∧ c = mark
    · rw [hc.2, fieldsAt_mark (by rw [← hc.2]; exact hc.1)] at h
      simp [fieldsAt_ne_nil] at h
    · obtain ⟨field', rest, hfield, hcons⟩ := fieldsAt_cons (s := s) hc
      rw [hcons] at h
      cases h
      obtain ⟨rfl, hhides⟩ := ih hfield
      exact ⟨rfl, hc, hhides⟩

/-- Two fields are the texts before and behind the only exposed mark. -/
lemma fieldsAt_eq_pair (h : fieldsAt mark state s = [a, b]) :
    s = a ++ mark :: b ∧ Hides mark .outside b := by
  induction s generalizing state a with
  | nil => cases h
  | cons c s ih =>
    by_cases hc : state.exposes c = true ∧ c = mark
    · rw [hc.2, fieldsAt_mark (by rw [← hc.2]; exact hc.1), List.cons.injEq] at h
      obtain ⟨rfl, h⟩ := h
      obtain ⟨rfl, hhides⟩ := fieldsAt_eq_singleton h
      exact ⟨by rw [hc.2]; rfl, hhides⟩
    · obtain ⟨field', rest, hfield, hcons⟩ := fieldsAt_cons (s := s) hc
      rw [hcons] at h
      cases h
      obtain ⟨rfl, hhides⟩ := ih hfield
      exact ⟨rfl, hhides⟩

/-- The first field is the whole text, or it ends before a mark and the others lie behind that. -/
lemma fieldsAt_eq_cons {fields : List (List Char)} (h : fieldsAt mark state s = field :: fields) :
    (s = field ∧ fields = []) ∨ ∃ rest, s = field ++ mark :: rest ∧
      fieldsAt mark .outside rest = fields := by
  induction s generalizing state field with
  | nil =>
    cases h
    exact .inl ⟨rfl, rfl⟩
  | cons c s ih =>
    by_cases hc : state.exposes c = true ∧ c = mark
    · rw [hc.2, fieldsAt_mark (by rw [← hc.2]; exact hc.1), List.cons.injEq] at h
      obtain ⟨rfl, h⟩ := h
      exact .inr ⟨s, by rw [hc.2]; rfl, h⟩
    · obtain ⟨first, others, hfields, hcons⟩ := fieldsAt_cons (s := s) hc
      rw [hcons] at h
      cases h
      rcases ih hfields with ⟨rfl, rfl⟩ | ⟨rest, rfl, hrest⟩
      · exact .inl ⟨rfl, rfl⟩
      · exact .inr ⟨rest, rfl, hrest⟩

/-- The fields at one mark hide what the text hides. -/
lemma hides_fieldsAt {hidden : Char} (h : Hides hidden state s) {rest : List (List Char)}
    (hf : fieldsAt mark state s = field :: rest) :
    Hides hidden state field ∧ ∀ f ∈ rest, Hides hidden .outside f := by
  induction s generalizing state field rest with
  | nil =>
    cases hf
    exact ⟨trivial, nofun⟩
  | cons c s ih =>
    by_cases hc : state.exposes c = true ∧ c = mark
    · obtain ⟨hexp, rfl⟩ := hc
      rw [fieldsAt_mark hexp, List.cons.injEq] at hf
      obtain ⟨rfl, rfl⟩ := hf
      rw [Quotation.exposes_iff] at hexp
      obtain ⟨rfl, hquote⟩ := hexp
      refine ⟨trivial, fun f hmem => ?_⟩
      have hs := h.2
      rw [Quotation.next_outside hquote] at hs
      rcases hfields : fieldsAt c .outside s with _ | ⟨field, rest⟩
      · exact absurd hfields (fieldsAt_ne_nil _ _ _)
      · obtain ⟨h1, h2⟩ := ih hs hfields
        rw [hfields, List.mem_cons] at hmem
        rcases hmem with rfl | hmem
        · exact h1
        · exact h2 f hmem
    · obtain ⟨field', rest', hfield, hcons⟩ := fieldsAt_cons (s := s) hc
      rw [hcons] at hf
      cases hf
      obtain ⟨h1, h2⟩ := ih h.2 hfield
      exact ⟨⟨h.1, h1⟩, h2⟩

/-- The fields are pieces of the text. -/
lemma mem_of_mem_fieldsAt (hf : field ∈ fieldsAt mark state s) (hc : c ∈ field) : c ∈ s := by
  induction s generalizing state field with
  | nil =>
    obtain rfl : field = [] := by simpa [fieldsAt] using hf
    cases hc
  | cons d s ih =>
    by_cases hd : state.exposes d = true ∧ d = mark
    · obtain ⟨hexp, rfl⟩ := hd
      rw [fieldsAt_mark hexp] at hf
      rcases List.mem_cons.1 hf with rfl | hf
      · cases hc
      · exact List.mem_cons_of_mem _ (ih hf hc)
    · obtain ⟨first, rest, hfields, hcons⟩ := fieldsAt_cons (s := s) hd
      rw [hcons] at hf
      rcases List.mem_cons.1 hf with rfl | hf
      · rcases List.mem_cons.1 hc with rfl | hc
        · exact List.mem_cons_self
        · exact List.mem_cons_of_mem _ (ih (by rw [hfields]; exact List.mem_cons_self) hc)
      · exact List.mem_cons_of_mem _ (ih (by rw [hfields]; exact List.mem_cons_of_mem _ hf) hc)

end Pep10.MacroCall
