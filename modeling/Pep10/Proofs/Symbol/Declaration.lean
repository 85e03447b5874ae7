import Mathlib.Tactic.Common
import Pep10.Proofs.Symbol.Lookup
import Pep10.Program.Assembly

/-!
# What a symbol table records

While the lines of a module are read they leave marks, and the marks are entered into the symbol
table of the module.  `SymbolTable.Records` tells which of the marks can be read off the table: what
is declared, what is declared twice, and which constants have been assigned.  Every mark of a line
can in turn be read off the line (`Line.marks`), so that the table of a module describes its lines.
-/

namespace Pep10

/-! ### Entering marks -/

/-- The symbol table after a mark. -/
def SymbolTable.enter (t : SymbolTable) : Mark → SymbolTable
  | .declare name => t.declare name
  | .mention name => t.mention name
  | .assign name value => t.assign name (.numeric value)
  | .publish name => t.publish name
  | .offer _ _ => t

@[simp] lemma Draft.table_enter (d : Draft) (mark : Mark) :
    (d.enter mark).table = d.table.enter mark := by
  cases mark <;> rfl

lemma Draft.table_foldl_enter (d : Draft) (marks : List Mark) :
    (marks.foldl Draft.enter d).table = marks.foldl SymbolTable.enter d.table := by
  induction marks generalizing d with
  | nil => rfl
  | cons mark marks ih => rw [List.foldl_cons, List.foldl_cons, ih, table_enter]

/-! ### One name -/

/-- The marks about a name can be read off its symbol, if it has one. -/
def Knows (name : String) (marks : List Mark) : Option Symbol → Prop
  | none => .declare name ∉ marks ∧ .mention name ∉ marks ∧ ∀ v, .assign name v ∉ marks
  | some s =>
    (s.defined = true ↔ .declare name ∈ marks) ∧
    (s.multiplyDefined = true ↔ 1 < marks.count (.declare name)) ∧
    ((s.value = .empty ∧ ∀ v, .assign name v ∉ marks) ∨
      ∃ v, s.value = .numeric v ∧ .assign name v ∈ marks)

/-- The name that is declared, mentioned or assigned by a mark. -/
def Mark.subject? : Mark → Option String
  | declare name => some name
  | mention name => some name
  | assign name _ => some name
  | publish _ => none
  | offer _ _ => none

namespace Knows

variable {name : String} {marks : List Mark} {o : Option Symbol}

/-- Marks about other names do not matter. -/
lemma other {mark : Mark} (h : Knows name marks o) (hm : mark.subject? ≠ some name) :
    Knows name (marks ++ [mark]) o := by
  have hd : Mark.declare name ≠ mark := fun e => hm (by rw [← e]; rfl)
  have hme : Mark.mention name ≠ mark := fun e => hm (by rw [← e]; rfl)
  have ha : ∀ v, Mark.assign name v ≠ mark := fun v e => hm (by rw [← e]; rfl)
  have hcount : (marks ++ [mark]).count (.declare name) = marks.count (.declare name) := by
    rw [List.count_append, List.count_singleton, if_neg (by simpa using hd.symm), Nat.add_zero]
  cases o with
  | none => simpa [Knows, hd, hme, ha] using h
  | some s =>
    simp only [Knows, hcount, List.mem_append, List.mem_singleton, hd, ha, or_false]
    exact h

lemma declare (h : Knows name marks o) :
    Knows name (marks ++ [Mark.declare name]) (some (o.getD { name }).declared) := by
  have hcount : 1 < (marks ++ [Mark.declare name]).count (.declare name) ↔
      Mark.declare name ∈ marks := by
    rw [List.count_append, List.count_singleton_self, Nat.lt_add_left_iff_pos, List.count_pos_iff]
  simp only [Knows, hcount]
  refine ⟨by simp [Symbol.declared], ?_, ?_⟩
  · cases o with
    | none => simpa [Symbol.declared] using h.1
    | some s =>
      have htwice : s.multiplyDefined = true → s.defined = true := fun hs =>
        h.1.2 (List.count_pos_iff.1 (Nat.zero_lt_of_lt (h.2.1.1 hs)))
      simpa [Symbol.declared, ← h.1] using htwice
  · cases o with
    | none => exact .inl ⟨rfl, by simpa using h.2.2⟩
    | some s => simpa [Symbol.declared] using h.2.2

lemma mention (h : Knows name marks o) :
    Knows name (marks ++ [Mark.mention name]) (some (o.getD { name })) := by
  have hcount : (marks ++ [Mark.mention name]).count (.declare name)
      = marks.count (.declare name) := by
    rw [List.count_append, List.count_singleton, if_neg (by simp), Nat.add_zero]
  simp only [Knows, hcount]
  cases o with
  | none =>
    obtain ⟨hd, -, ha⟩ := h
    refine ⟨by simp [hd], ?_, .inl ⟨rfl, by simpa using ha⟩⟩
    simp [List.count_eq_zero_of_not_mem hd]
  | some s => simpa [Knows] using h

/-- A value is assigned to a name that has a symbol. -/
lemma assign {s : Symbol} (h : Knows name marks (some s)) (v : UInt16) :
    Knows name (marks ++ [Mark.assign name v]) (some { s with value := .numeric v }) := by
  have hcount : (marks ++ [Mark.assign name v]).count (.declare name)
      = marks.count (.declare name) := by
    rw [List.count_append, List.count_singleton, if_neg (by simp), Nat.add_zero]
  simp only [Knows, hcount]
  refine ⟨by simpa using h.1, h.2.1, .inr ⟨v, rfl, by simp⟩⟩

end Knows

/-! ### All names -/

namespace SymbolTable

variable {t : SymbolTable} {marks : List Mark}

/-- The marks can be read off the table. -/
def Records (t : SymbolTable) (marks : List Mark) : Prop :=
  ∀ name, Knows name marks (t.find? name)

/-- An empty table records no marks. -/
lemma records_nil : Records {} [] := by
  intro name
  simp [Knows, find?]

/-- A mark that has been entered is recorded.  Values are assigned only to names that have a
symbol. -/
lemma Records.enter (h : t.Records marks) (mark : Mark)
    (hassign : ∀ name v, mark = .assign name v → ∃ s, t.find? name = some s) :
    (t.enter mark).Records (marks ++ [mark]) := by
  intro other
  have hother := h other
  cases mark with
  | declare name =>
    by_cases ho : other = name
    · subst ho
      simpa only [SymbolTable.enter, find?_declare_self] using hother.declare
    · rw [SymbolTable.enter, find?_declare_ne ho]
      exact hother.other (by simpa [Mark.subject?] using Ne.symm ho)
  | mention name =>
    by_cases ho : other = name
    · subst ho
      simpa only [SymbolTable.enter, find?_mention_self] using hother.mention
    · rw [SymbolTable.enter, find?_mention_ne ho]
      exact hother.other (by simpa [Mark.subject?] using Ne.symm ho)
  | assign name v =>
    by_cases ho : other = name
    · subst ho
      obtain ⟨s, hs⟩ := hassign other v rfl
      rw [hs] at hother
      rw [SymbolTable.enter, find?_assign_self, hs]
      exact hother.assign v
    · rw [SymbolTable.enter, find?_assign_ne _ ho]
      exact hother.other (by simpa [Mark.subject?] using Ne.symm ho)
  | publish name =>
    have hpublish : Knows other (marks ++ [Mark.publish name]) (t.find? other) :=
      hother.other (by simp [Mark.subject?])
    rw [SymbolTable.enter, find?_publish]
    split
    · cases hs : t.find? other with
      | none => rwa [hs] at hpublish
      | some s => rwa [hs] at hpublish
    · exact hpublish
  | offer call name => exact hother.other (by simp [Mark.subject?])

namespace Records

variable {name : String} {s : Symbol}

lemma found (h : t.Records marks) (hm : .declare name ∈ marks ∨ .mention name ∈ marks) :
    ∃ s, t.find? name = some s := by
  have hk := h name
  cases hs : t.find? name with
  | none =>
    rw [hs] at hk
    exact absurd hm (by simp [hk.1, hk.2.1])
  | some s => exact ⟨s, rfl⟩

lemma defined_iff (h : t.Records marks) (hs : t.find? name = some s) :
    s.defined = true ↔ .declare name ∈ marks := by
  have hk := h name
  rw [hs] at hk
  exact hk.1

lemma twice_iff (h : t.Records marks) (hs : t.find? name = some s) :
    s.multiplyDefined = true ↔ 1 < marks.count (.declare name) := by
  have hk := h name
  rw [hs] at hk
  exact hk.2.1

lemma value (h : t.Records marks) (hs : t.find? name = some s) :
    (s.value = .empty ∧ ∀ v, .assign name v ∉ marks) ∨
      ∃ v, s.value = .numeric v ∧ .assign name v ∈ marks := by
  have hk := h name
  rw [hs] at hk
  exact hk.2.2

/-- Values are assigned only to names that have been declared. -/
lemma foldl_enter {more : List Mark} (h : t.Records marks)
    (hassign : ∀ name v, .assign name v ∈ more → .declare name ∈ marks) :
    (more.foldl SymbolTable.enter t).Records (marks ++ more) := by
  induction more generalizing t marks with
  | nil => simpa using h
  | cons mark more ih =>
    have hstep : (t.enter mark).Records (marks ++ [mark]) := by
      refine h.enter mark fun name v hv => h.found (.inl (hassign name v ?_))
      rw [hv]
      exact List.mem_cons_self
    have hrest := ih hstep fun name v hv =>
      List.mem_append_left _ (hassign name v (List.mem_cons_of_mem _ hv))
    simpa using hrest

end Records

end SymbolTable

/-! ### The marks of a line -/

namespace Statement

/-- The name of the symbol that is the operand of a statement. -/
def symbol? (s : Statement) : Option String := s.operand?.bind Operand.symbol?

/-- The marks that a statement leaves besides mentioning its operand. -/
def directiveMarks (label : Option String) : Statement → List Mark
  | directive .equate operand => label.toList.map fun name => .assign name operand.constant
  | directive .publish (.symbol name) => [.publish name]
  | directive .scall (.symbol name) => [.publish name, .offer .nonunary name]
  | directive .uscall (.symbol name) => [.publish name, .offer .unary name]
  | _ => []

end Statement

namespace Line

/-- The marks that reading a line leaves. -/
def marks (line : Line) : List Mark :=
  line.label.toList.map .declare ++ (line.statement.symbol?.toList.map .mention ++
    line.statement.directiveMarks line.label)

variable {line : Line} {lines : List Line} {name : String} {v : UInt16}

lemma declare_mem_marks : .declare name ∈ line.marks ↔ line.label = some name := by
  have hdir : Mark.declare name ∉ line.statement.directiveMarks line.label := by
    unfold Statement.directiveMarks
    split <;> simp
  simp [marks, hdir]

/-- A label is declared once by its line. -/
lemma count_declare_marks :
    line.marks.count (.declare name) = line.label.toList.count name := by
  have hdir : (line.statement.directiveMarks line.label).count (.declare name) = 0 := by
    refine List.count_eq_zero_of_not_mem ?_
    unfold Statement.directiveMarks
    split <;> simp
  have hmention : (line.statement.symbol?.toList.map Mark.mention).count (.declare name) = 0 :=
    List.count_eq_zero_of_not_mem (by simp)
  rw [marks, List.count_append, List.count_append, hdir, hmention]
  cases line.label with
  | none => rfl
  | some label => by_cases h : label = name <;> simp [h]

/-- Values are assigned by `.EQUATE` lines to their labels. -/
lemma assign_mem_marks :
    .assign name v ∈ line.marks ↔ line.label = some name ∧
      ∃ operand, line.statement = .directive .equate operand ∧ v = operand.constant := by
  have h : .assign name v ∈ line.statement.directiveMarks line.label ↔ line.label = some name ∧
      ∃ operand, line.statement = .directive .equate operand ∧ v = operand.constant := by
    unfold Statement.directiveMarks
    split
    next operand heq =>
      simp only [List.mem_map, Option.mem_toList, Mark.assign.injEq]
      constructor
      · rintro ⟨label, hlabel, rfl, rfl⟩
        exact ⟨hlabel, operand, heq, rfl⟩
      · rintro ⟨hlabel, operand', heq', rfl⟩
        rw [heq] at heq'
        cases heq'
        exact ⟨name, hlabel, rfl, rfl⟩
    all_goals simp_all
  simpa [marks] using h

lemma mention_mem_marks (h : line.statement.symbol? = some name) : .mention name ∈ line.marks := by
  simp [marks, h]

/-- The marks of a line are recorded once they have been entered. -/
lemma records_marks {t : SymbolTable} {before : List Mark} (h : t.Records before) (line : Line) :
    (line.marks.foldl SymbolTable.enter t).Records (before ++ line.marks) := by
  have hlabel : ((line.label.toList.map Mark.declare).foldl SymbolTable.enter t).Records
      (before ++ line.label.toList.map .declare) :=
    h.foldl_enter (by simp)
  rw [marks, List.foldl_append, ← List.append_assoc]
  refine hlabel.foldl_enter fun name v hv => ?_
  have hv' : .assign name v ∈ line.marks := List.mem_append_right _ hv
  rw [assign_mem_marks] at hv'
  simp [hv'.1]

/-- The table of some lines records their marks. -/
lemma records_lines {t : SymbolTable} {before : List Mark} (h : t.Records before)
    (lines : List Line) :
    ((lines.flatMap marks).foldl SymbolTable.enter t).Records (before ++ lines.flatMap marks) := by
  induction lines generalizing t before with
  | nil => simpa using h
  | cons line lines ih =>
    rw [List.flatMap_cons, List.foldl_append, ← List.append_assoc]
    exact ih (records_marks h line)

lemma declare_mem_flatMap :
    .declare name ∈ lines.flatMap marks ↔ ∃ line ∈ lines, line.label = some name := by
  simp [declare_mem_marks]

lemma count_declare_flatMap :
    (lines.flatMap marks).count (.declare name) = (lines.filterMap label).count name := by
  induction lines with
  | nil => rfl
  | cons line lines ih =>
    rw [List.flatMap_cons, List.count_append, ih, count_declare_marks, List.filterMap_cons]
    cases line.label with
    | none => simp
    | some label => simp [List.count_cons, Nat.add_comm]

end Line

end Pep10
