import Mathlib.Data.List.Nodup
import Pep10.Proofs.Line.Layout
import Pep10.Proofs.Symbol.Declaration
import Pep10.Proofs.Symbol.Evolution

/-!
# Lines whose symbols are bound

A line is bound when its label has the value that the line gives to it, and the symbol that it uses
is declared by the table of its instance or stands for a symbol that the root declares.  `Prepared`
is what the assembler leaves in the table of an instance: every label is declared once, and the
constants of `.EQUATE` lines are known.  Binding the lines of an instance one after the other leads
from the one to the other, since a bound line stays bound as long as its label is not bound again.
-/

namespace Pep10

@[simp] lemma Statement.symbol?_startingAt {s : Statement} (a : Int) :
    (s.startingAt a).symbol? = s.symbol? := by
  rw [symbol?, symbol?, operand?_startingAt]

/-! ### The values that lines give -/

namespace Line

/-- The line gives the value to its label: an `.EQUATE` its constant, any other line its address. -/
def Gives (line : Line) (v : UInt16) : Prop :=
  match line.statement with
  | .directive .equate operand => v = operand.constant
  | _ => ∀ a, line.address = some a → v = a

/-- The label of a line that stands for the address of the line. -/
def addressLabel? (line : Line) : Option String :=
  if line.statement.isEquate then none else line.label

variable {line : Line} {lines : List Line} {name : String} {v : UInt16}

lemma gives_of_isEquate {operand : Operand} (h : line.statement = .directive .equate operand) :
    line.Gives v ↔ v = operand.constant := by
  simp [Gives, h]

lemma gives_of_not_isEquate (h : line.statement.isEquate = false) :
    line.Gives v ↔ ∀ a, line.address = some a → v = a := by
  unfold Gives
  split
  next heq =>
    rw [heq] at h
    cases h
  next => rfl

lemma exists_of_isEquate (h : line.statement.isEquate = true) :
    ∃ operand, line.statement = .directive .equate operand := by
  unfold Statement.isEquate at h
  split at h
  next operand heq => exact ⟨operand, heq⟩
  next => cases h

lemma label_of_addressLabel? (h : line.addressLabel? = some name) : line.label = some name := by
  unfold addressLabel? at h
  split at h
  · cases h
  · exact h

@[simp] lemma addressLabel?_startingAt (a : Int) :
    (line.startingAt a).addressLabel? = line.addressLabel? := by
  simp [addressLabel?]

/-- Among lines with different labels, a label belongs to one line. -/
lemma eq_of_label_eq {line' : Line} (h : (lines.filterMap label).Nodup) (hline : line ∈ lines)
    (hline' : line' ∈ lines) (hname : line.label = some name) (hname' : line'.label = some name) :
    line = line' := by
  induction lines with
  | nil => cases hline
  | cons first rest ih =>
    rw [List.filterMap_cons] at h
    have hrest : (rest.filterMap label).Nodup := by
      split at h
      · exact h
      · exact h.of_cons
    have hfirst : first.label = some name → ∀ other ∈ rest, other.label ≠ some name := by
      intro hf other hother ho
      rw [hf] at h
      exact (List.nodup_cons.1 h).1 (List.mem_filterMap.2 ⟨other, hother, ho⟩)
    rcases List.mem_cons.1 hline with rfl | hmem <;> rcases List.mem_cons.1 hline' with rfl | hmem'
    · rfl
    · exact absurd hname' (hfirst hname line' hmem')
    · exact absurd hname (hfirst hname' line hmem)
    · exact ih hrest hmem hmem'

end Line

/-- Lines of the same shapes have the same labels. -/
lemma labels_of_shapes {lines lines' : List Line}
    (h : lines'.map Line.shape = lines.map Line.shape) :
    lines'.filterMap Line.label = lines.filterMap Line.label := by
  have hlabel : ∀ lines : List Line,
      lines.filterMap Line.label = (lines.map Line.shape).filterMap Line.label := by
    intro lines
    rw [List.filterMap_map]
    rfl
  rw [hlabel lines', h, ← hlabel]

/-- The labels of some lines that stand for the addresses of the lines. -/
def addressLabels (lines : List Line) : List String :=
  lines.flatMap fun line => line.addressLabel?.toList

lemma addressLabels_cons (line : Line) (rest : List Line) :
    addressLabels (line :: rest) = line.addressLabel?.toList ++ addressLabels rest :=
  List.flatMap_cons

lemma mem_labels_of_mem_addressLabels {lines : List Line} {name : String}
    (h : name ∈ addressLabels lines) : name ∈ lines.filterMap Line.label := by
  obtain ⟨line, hline, hname⟩ := List.mem_flatMap.1 h
  exact List.mem_filterMap.2 ⟨line, hline, Line.label_of_addressLabel? (Option.mem_toList.1 hname)⟩

/-- The value is the given word, as a number or as an address. -/
def SymbolValue.IsWord (value : SymbolValue) (v : UInt16) : Prop :=
  value = .numeric v ∨ value = .location v 0

/-! ### Before binding -/

/-- What the assembler leaves in the table of an instance with the given lines. -/
structure Prepared (t : SymbolTable) (lines : List Line) : Prop where
  label : ∀ line ∈ lines, ∀ name, line.label = some name → ∃ x, t.find? name = some x ∧
    x.defined = true ∧
    ∀ operand, line.statement = .directive .equate operand → x.value = .numeric operand.constant
  operand : ∀ line ∈ lines, ∀ name, line.statement.symbol? = some name →
    ∃ x, t.find? name = some x
  nodup : (lines.filterMap Line.label).Nodup

namespace SymbolTable.Records

variable {t : SymbolTable} {lines : List Line}

/-- Labels that are not declared twice are different. -/
lemma nodup_labels (h : t.Records (lines.flatMap Line.marks))
    (hsingle : ∀ line ∈ lines, ∀ name x, line.label = some name → t.find? name = some x →
      x.multiplyDefined = false) :
    (lines.filterMap Line.label).Nodup := by
  rw [List.nodup_iff_count_le_one]
  intro name
  rw [← Line.count_declare_flatMap]
  by_cases hname : .declare name ∈ lines.flatMap Line.marks
  · obtain ⟨x, hx⟩ := h.found (.inl hname)
    obtain ⟨line, hline, hlabel⟩ := Line.declare_mem_flatMap.1 hname
    have htwice := h.twice_iff hx
    rw [hsingle line hline name x hlabel hx] at htwice
    simpa using htwice
  · rw [List.count_eq_zero_of_not_mem hname]
    exact Nat.zero_le 1

/-- A table that records the marks of some lines is prepared for them, unless it knows of a label
that is declared twice. -/
lemma prepared (h : t.Records (lines.flatMap Line.marks))
    (hsingle : ∀ line ∈ lines, ∀ name x, line.label = some name → t.find? name = some x →
      x.multiplyDefined = false) :
    Prepared t lines := by
  have hnodup := h.nodup_labels hsingle
  refine ⟨fun line hline name hname => ?_, fun line hline name hname => ?_, hnodup⟩
  · have hdeclare : .declare name ∈ lines.flatMap Line.marks :=
      Line.declare_mem_flatMap.2 ⟨line, hline, hname⟩
    obtain ⟨x, hx⟩ := h.found (.inl hdeclare)
    refine ⟨x, hx, (h.defined_iff hx).2 hdeclare, fun operand hst => ?_⟩
    have hassign : .assign name operand.constant ∈ lines.flatMap Line.marks :=
      List.mem_flatMap.2 ⟨line, hline, Line.assign_mem_marks.2 ⟨hname, operand, hst, rfl⟩⟩
    rcases h.value hx with ⟨-, hno⟩ | ⟨v, hv, hmem⟩
    · exact absurd hassign (hno _)
    · -- The value comes from a line with the same label, which is the same line.
      obtain ⟨line', hline', hmark⟩ := List.mem_flatMap.1 hmem
      obtain ⟨hname', operand', hst', rfl⟩ := Line.assign_mem_marks.1 hmark
      obtain rfl := Line.eq_of_label_eq hnodup hline hline' hname hname'
      rw [hst] at hst'
      cases hst'
      exact hv
  · exact h.found (.inr (List.mem_flatMap.2 ⟨line, hline, Line.mention_mem_marks hname⟩))

end SymbolTable.Records

/-! ### After binding -/

/-- The label of the line has the value that the line gives, and its operand is declared where it is
used or, failing that, by the root. -/
structure Bound (root : Nat) (s : SymbolStore) (table : Nat) (line : Line) : Prop where
  label : ∀ name, line.label = some name → ∃ x v, (s.table table).find? name = some x ∧
    x.defined = true ∧ x.value.IsWord v ∧ line.Gives v
  operand : ∀ name, line.statement.symbol? = some name → ∃ x,
    (s.table table).find? name = some x ∧
      (x.defined = true ∨
        (x.defined = false ∧ table ≠ root ∧ s.Refers root name x.value))

variable {root table : Nat} {names : List String} {s s' : SymbolStore} {line : Line}
  {rest : List Line}

open SymbolStore (Later)

/-- Binding a line leaves the table prepared for the lines behind it. -/
lemma Prepared.later (h : Prepared (s.table table) (line :: rest))
    (hl : Later root table names s s') (hnames : ∀ name ∈ names, line.label = some name) :
    Prepared (s'.table table) rest := by
  have hnodup := h.nodup
  rw [List.filterMap_cons] at hnodup
  refine ⟨fun other hother name hname => ?_, fun other hother name hname => ?_, ?_⟩
  · obtain ⟨x, hx, hdef, hval⟩ := h.label other (List.mem_cons_of_mem _ hother) name hname
    obtain ⟨x', hx', -, hv⟩ := hl.symbol hx
    refine ⟨x', hx', (hv hdef).1, fun operand hst => ?_⟩
    rcases (hv hdef).2 with hsame | hn
    · rw [hsame]
      exact hval operand hst
    · rw [hnames name hn] at hnodup
      exact absurd (List.mem_filterMap.2 ⟨other, hother, hname⟩) (List.nodup_cons.1 hnodup).1
  · obtain ⟨x, hx⟩ := h.operand other (List.mem_cons_of_mem _ hother) name hname
    obtain ⟨x', hx', -⟩ := hl.symbol hx
    exact ⟨x', hx'⟩
  · split at hnodup
    · exact hnodup
    · exact hnodup.of_cons

namespace Bound

/-- A bound line stays bound if neither its label nor its operand is bound again. -/
lemma later (h : Bound root s table line) (hl : Later root table names s s')
    (hlabel : ∀ name, line.label = some name → name ∉ names)
    (hoperand : ∀ name x, line.statement.symbol? = some name →
      (s.table table).find? name = some x → x.defined = false → name ∉ names) :
    Bound root s' table line := by
  refine ⟨fun name hname => ?_, fun name hname => ?_⟩
  · obtain ⟨x, v, hx, hdef, hword, hgives⟩ := h.label name hname
    obtain ⟨x', hx', -, hv⟩ := hl.symbol hx
    obtain ⟨hdef', hval | hn⟩ := hv hdef
    · exact ⟨x', v, hx', hdef', by rwa [hval], hgives⟩
    · exact absurd hn (hlabel name hname)
  · obtain ⟨x, hx, hdef | ⟨hundef, hne, href⟩⟩ := h.operand name hname
    · obtain ⟨x', hx', -, hv⟩ := hl.symbol hx
      exact ⟨x', hx', .inl (hv hdef).1⟩
    · obtain ⟨x', hx', hundef', href'⟩ :=
        hl.refers hne hx hundef href (hoperand name x hname hx hundef)
      exact ⟨x', hx', .inr ⟨hundef', hne, href'⟩⟩

/-- A bound line stays bound while the lines of another instance are bound. -/
lemma later_other {other : Nat} (h : Bound root s other line) (hl : Later root table names s s')
    (heq : s'.table other = s.table other) : Bound root s' other line := by
  refine ⟨fun name hname => ?_, fun name hname => ?_⟩
  · rw [heq]
    exact h.label name hname
  · rw [heq]
    obtain ⟨x, hx, hdef | ⟨hundef, hne, href⟩⟩ := h.operand name hname
    · exact ⟨x, hx, .inl hdef⟩
    · exact ⟨x, hx, .inr ⟨hundef, hne, href.later hl⟩⟩

/-- Being bound depends on the label, the operand and the address of a line. -/
lemma congr {line' : Line} (h : Bound root s table line) (hlabel : line'.label = line.label)
    (hoperand : line'.statement.symbol? = line.statement.symbol?)
    (hgives : ∀ v, line.Gives v → line'.Gives v) : Bound root s table line' := by
  refine ⟨fun name hname => ?_, fun name hname => ?_⟩
  · rw [hlabel] at hname
    obtain ⟨x, v, hx, hdef, hword, hv⟩ := h.label name hname
    exact ⟨x, v, hx, hdef, hword, hgives v hv⟩
  · rw [hoperand] at hname
    exact h.operand name hname

end Bound

end Pep10
