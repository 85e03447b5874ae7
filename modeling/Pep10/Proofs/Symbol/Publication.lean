import Pep10.Proofs.Line.Layout
import Pep10.Proofs.Symbol.Declaration

/-!
# What a symbol table exports

Some directives name a symbol of the module that they stand in: `.EXPORT` lets the table of the
module export it, and `.SCALL` and `.USCALL` offer it as a system call besides.  The names that a
table exports (`SymbolTable.published`) are those that its lines name in this way
(`Line.mem_published_lines`).  No operation on tables but `SymbolTable.publish` changes them.
-/

namespace Pep10

/-! ### Directives -/

namespace Statement

variable {s s' : Statement} {name : String} {call : SystemCall}

/-- The symbol that a statement exports. -/
def published? : Statement → Option String
  | directive .publish (.symbol name) => some name
  | directive .scall (.symbol name) => some name
  | directive .uscall (.symbol name) => some name
  | _ => none

/-- The system call that a statement offers. -/
def offered? : Statement → Option (SystemCall × String)
  | directive .scall (.symbol name) => some (.nonunary, name)
  | directive .uscall (.symbol name) => some (.unary, name)
  | _ => none

/-- What is offered as a system call is exported. -/
lemma published?_of_offered? (h : s.offered? = some (call, name)) : s.published? = some name := by
  unfold offered? at h
  split at h <;> cases h <;> rfl

lemma published?_of_shape (h : s'.shape = s.shape) : s'.published? = s.published? := by
  cases s <;> cases s' <;> simp_all [shape, published?]

lemma offered?_of_shape (h : s'.shape = s.shape) : s'.offered? = s.offered? := by
  cases s <;> cases s' <;> simp_all [shape, offered?]

/-- A statement that exports a symbol has it as its operand. -/
lemma symbol?_of_published? (h : s.published? = some name) : s.symbol? = some name := by
  unfold published? at h
  split at h <;> cases h <;> rfl

lemma offer_mem_directiveMarks {label : Option String} :
    .offer call name ∈ s.directiveMarks label ↔ s.offered? = some (call, name) := by
  unfold directiveMarks
  split <;> simp [offered?, eq_comm]

lemma publish_mem_directiveMarks {label : Option String} :
    .publish name ∈ s.directiveMarks label ↔ s.published? = some name := by
  unfold directiveMarks
  split <;> simp [published?, eq_comm]

end Statement

namespace SymbolTable

variable {t : SymbolTable} {name other : String} {f : Symbol → Symbol} {x : Symbol}

/-! ### Exported names -/

/-- The names of the symbols that a table exports. -/
def published (t : SymbolTable) : List String := (t.symbols.filter Symbol.exported).map Symbol.name

lemma mem_published : name ∈ t.published ↔ ∃ s ∈ t.symbols, s.exported = true ∧ s.name = name := by
  simp [published, and_assoc]

/-- A change that keeps names and does not export or hide symbols keeps what is exported. -/
lemma published_update (hf : ∀ s, (f s).name = s.name ∧ (f s).exported = s.exported) :
    (t.update name f).published = t.published := by
  have hname : (Symbol.name ∘ fun s => if s.name == name then f s else s) = Symbol.name := by
    funext s
    by_cases h : s.name = name <;> simp [h, hf]
  have hexported : (Symbol.exported ∘ fun s => if s.name == name then f s else s) = Symbol.exported := by
    funext s
    by_cases h : s.name = name <;> simp [h, hf]
  rw [published, update, List.filter_map, List.map_map, hname, hexported, published]

@[simp] lemma published_assign (v : SymbolValue) : (t.assign name v).published = t.published :=
  published_update fun _ => ⟨rfl, rfl⟩

@[simp] lemma published_mention : (t.mention name).published = t.published := by
  unfold mention
  split
  · rfl
  · simp [published]

@[simp] lemma published_declare : (t.declare name).published = t.published := by
  have hdeclared : ∀ s : Symbol, s.declared.name = s.name ∧ s.declared.exported = s.exported :=
    fun _ => ⟨rfl, rfl⟩
  rw [declare, published_update hdeclared, published_mention]

/-- A name that has a symbol can be exported. -/
lemma mem_published_publish (h : t.find? name = some x) :
    other ∈ (t.publish name).published ↔ other ∈ t.published ∨ other = name := by
  have hx : x ∈ t.symbols := List.mem_of_find?_eq_some h
  have hname : x.name = name := name_of_find? h
  simp only [mem_published, publish, update, List.mem_map]
  constructor
  · rintro ⟨s, ⟨s, hs, rfl⟩, hexported, rfl⟩
    by_cases hsn : s.name = name
    · exact .inr (by simp [hsn])
    · rw [if_neg (by simpa using hsn)] at hexported ⊢
      exact .inl ⟨s, hs, hexported, rfl⟩
  · rintro (⟨s, hs, hexported, rfl⟩ | rfl)
    · refine ⟨_, ⟨s, hs, rfl⟩, ?_, ?_⟩ <;> split <;> first | rfl | exact hexported
    · exact ⟨_, ⟨x, hx, rfl⟩, by simp [hname]⟩

/-- Marks that export nothing leave alone what a table exports. -/
lemma published_foldl_enter {marks : List Mark} (h : ∀ name, .publish name ∉ marks) :
    (marks.foldl SymbolTable.enter t).published = t.published := by
  induction marks generalizing t with
  | nil => rfl
  | cons mark marks ih =>
    rw [List.foldl_cons, ih fun name hname => h name (List.mem_cons_of_mem _ hname)]
    cases mark with
    | publish name => exact absurd List.mem_cons_self (h name)
    | _ => simp [SymbolTable.enter]

end SymbolTable

namespace Line

variable {line : Line} {lines : List Line} {name : String} {call : SystemCall} {t : SymbolTable}

lemma offer_mem_marks : .offer call name ∈ line.marks ↔ line.statement.offered? = some (call, name) := by
  simp [marks, Statement.offer_mem_directiveMarks]

/-- What a table exports when a line has been read. -/
lemma mem_published_marks :
    name ∈ (line.marks.foldl SymbolTable.enter t).published ↔
      name ∈ t.published ∨ line.statement.published? = some name := by
  rw [marks, List.foldl_append]
  have hlabel : ((line.label.toList.map Mark.declare).foldl SymbolTable.enter t).published = t.published :=
    SymbolTable.published_foldl_enter (by simp)
  rw [← hlabel]
  generalize (line.label.toList.map Mark.declare).foldl SymbolTable.enter t = t
  cases hpub : line.statement.published? with
  | none =>
    rw [SymbolTable.published_foldl_enter (by simp [Statement.publish_mem_directiveMarks, hpub])]
    simp
  | some other =>
    -- The symbol is mentioned before it is exported.
    obtain ⟨x, hfind⟩ : ∃ x, (t.mention other).find? other = some x := ⟨_, SymbolTable.find?_mention_self⟩
    have hmarks : ((line.statement.symbol?.toList.map Mark.mention ++
        line.statement.directiveMarks line.label).foldl SymbolTable.enter t) =
        (t.mention other).publish other := by
      rw [Statement.symbol?_of_published? hpub]
      unfold Statement.published? at hpub
      split at hpub <;> cases hpub <;> rename_i hst <;> rw [hst] <;> rfl
    rw [hmarks, SymbolTable.mem_published_publish hfind, SymbolTable.published_mention, Option.some.injEq,
      eq_comm (a := name)]

/-- What the table of some lines exports. -/
theorem mem_published_lines :
    name ∈ ((lines.flatMap marks).foldl SymbolTable.enter t).published ↔
      name ∈ t.published ∨ ∃ line ∈ lines, line.statement.published? = some name := by
  induction lines generalizing t with
  | nil => simp
  | cons line lines ih =>
    rw [List.flatMap_cons, List.foldl_append, ih, mem_published_marks, or_assoc]
    simp

end Line

/-! ### Stores -/

/-- Changing a table in a way that keeps what it exports. -/
lemma SymbolStore.published_modify {s : SymbolStore} {i : Nat} {f : SymbolTable → SymbolTable}
    (hf : ∀ t, (f t).published = t.published) (j : Nat) :
    ((s.modify i f).table j).published = (s.table j).published := by
  by_cases hj : j = i
  · subst hj
    rcases Nat.lt_or_ge j s.size with hlt | hge
    · rw [table_modify_self hlt, hf]
    · have hlt' : ¬j < (s.modify j f).tables.size := by
        rw [← size, size_modify]
        omega
      rw [table, table, Array.getD, Array.getD, dif_neg hlt', dif_neg (by rw [← size]; omega)]
  · rw [table_modify_ne hj]

end Pep10
