import Mathlib.Tactic.Common
import Pep10.Proofs.Text.Blank
import Pep10.Text.Split

/-!
# The lines of a text

No line of a text holds a line feed, and a text that is put together from lines splits into these
lines again, up to carriage returns at their ends.
-/

namespace Pep10.Text

variable {p : Char → Bool} {s field line : List Char}

lemma fields_ne_nil (p : Char → Bool) (s : List Char) : fields p s ≠ [] := by
  cases s with
  | nil => simp [fields]
  | cons c s =>
    rw [fields]
    split
    · simp
    · split <;> simp

/-- A field holds no separator. -/
lemma not_of_mem_fields (h : field ∈ fields p s) : ∀ c ∈ field, p c = false := by
  induction s generalizing field with
  | nil =>
    obtain rfl : field = [] := by simpa [fields] using h
    exact nofun
  | cons c s ih =>
    rw [fields] at h
    split at h
    · rcases List.mem_cons.1 h with rfl | h
      · exact nofun
      · exact ih h
    next hc =>
      split at h
      next hnil => exact absurd hnil (fields_ne_nil p s)
      next first rest heq =>
        rw [heq] at ih
        rcases List.mem_cons.1 h with rfl | h
        · exact List.forall_mem_cons.2 ⟨by simpa using hc, ih List.mem_cons_self⟩
        · exact ih (List.mem_cons_of_mem _ h)

lemma mem_of_mem_dropReturn {c : Char} (h : c ∈ dropReturn line) : c ∈ line := by
  unfold dropReturn at h
  split at h
  · exact (List.dropLast_sublist line).subset h
  · exact h

/-- A line is a field, perhaps without a carriage return. -/
lemma exists_field_of_mem {fs : List (List Char)} (h : line ∈ linesOfFields fs) :
    ∃ field ∈ fs, ∀ c ∈ line, c ∈ field := by
  induction fs with
  | nil => cases h
  | cons field rest ih =>
    cases rest with
    | nil =>
      rw [linesOfFields] at h
      split at h
      · cases h
      · obtain rfl : line = field := by simpa using h
        exact ⟨line, List.mem_cons_self, fun c hc => hc⟩
    | cons second rest =>
      rw [linesOfFields] at h
      · rcases List.mem_cons.1 h with rfl | h
        · exact ⟨field, List.mem_cons_self, fun c hc => mem_of_mem_dropReturn hc⟩
        · obtain ⟨f, hf, hsub⟩ := ih h
          exact ⟨f, List.mem_cons_of_mem _ hf, hsub⟩
      · simp

/-- No line holds a line feed. -/
lemma newline_not_mem_lines {text line : String} (h : line ∈ lines text) :
    '\n' ∉ line.toList := by
  obtain ⟨chars, hchars, rfl⟩ := List.mem_map.1 h
  obtain ⟨field, hfield, hsub⟩ := exists_field_of_mem hchars
  rw [String.toList_ofList]
  intro hmem
  have := not_of_mem_fields hfield _ (hsub _ hmem)
  revert this
  decide

/-! ### Texts made of lines -/

/-- The text that consists of the given lines, each of them ended by a line feed. -/
def ofLines (lines : List String) : String :=
  String.ofList (lines.flatMap fun line => line.toList ++ ['\n'])

/-- A field ends before the first separator. -/
lemma fields_append {c : Char} (hs : ∀ d ∈ s, p d = false) (hc : p c = true) (t : List Char) :
    fields p (s ++ c :: t) = s :: fields p t := by
  induction s with
  | nil => rw [List.nil_append, fields, if_pos hc]
  | cons d s ih =>
    rw [List.forall_mem_cons] at hs
    rw [List.cons_append, fields, if_neg (by simp [hs.1]), ih hs.2]

/-- A text without separators is a single field. -/
lemma fields_eq_singleton (h : ∀ c ∈ s, p c = false) : fields p s = [s] := by
  induction s with
  | nil => rfl
  | cons c s ih =>
    rw [List.forall_mem_cons] at h
    rw [fields, if_neg (by simp [h.1]), ih h.2]

/-- A text that is made of lines splits into these lines, up to carriage returns at their ends. -/
theorem lines_ofLines {ls : List String} (h : ∀ line ∈ ls, '\n' ∉ line.toList) :
    lines (ofLines ls) = ls.map fun line => String.ofList (dropReturn line.toList) := by
  rw [lines, ofLines, String.toList_ofList]
  induction ls with
  | nil => rfl
  | cons line rest ih =>
    rw [List.forall_mem_cons] at h
    have hline : ∀ c ∈ line.toList, (c == '\n') = false := by
      intro c hc
      rw [beq_eq_false_iff_ne]
      rintro rfl
      exact h.1 hc
    rw [List.flatMap_cons, List.append_assoc, List.singleton_append,
      fields_append hline (by decide), linesOfFields, List.map_cons, ih h.2, List.map_cons]
    exact fields_ne_nil _ _

/-- Lines without blanks at their ends are found again as they are. -/
lemma lines_ofLines_of_clean {ls : List String}
    (h : ∀ line ∈ ls, '\n' ∉ line.toList ∧ Clean line.toList) : lines (ofLines ls) = ls := by
  have hsame : ∀ line ∈ ls, String.ofList (dropReturn line.toList) = line := by
    intro line hline
    have hreturn : line.toList.getLast? ≠ some '\r' := by
      intro hlast
      have hblank := (h line hline).2 '\r' hlast
      revert hblank
      decide
    rw [dropReturn, if_neg hreturn, String.ofList_toList]
  rw [lines_ofLines fun line hline => (h line hline).1, List.map_congr_left hsame, List.map_id']

end Pep10.Text
