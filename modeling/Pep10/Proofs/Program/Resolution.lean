import Pep10.Proofs.Program.Exports

/-!
# Where the value of a symbol comes from

A symbol is looked up in three places in turn: among the labels of the instance that uses it, among
the labels of the root, and among the exports of the operating system.  `Denotes` states this rule
in terms of lines.  `Resolved` is what linking establishes of tables and lines, and it is enough for
the value of every operand to follow the rule.
-/

namespace Pep10

/-! ### The rule -/

/-- Some lines declare the name, and every declaration of it gives it the value. -/
def DeclaredAs (lines : List Line) (name : String) (v : UInt16) : Prop :=
  (∃ line ∈ lines, line.label = some name) ∧
    ∀ line ∈ lines, line.label = some name → line.Gives v

/-- No line declares the name. -/
def Undeclared (lines : List Line) (name : String) : Prop := ∀ line ∈ lines, line.label ≠ some name

/-- The value of a name in an instance: that of its own declaration, or else of the declaration in
the root, or else of the export. -/
def Denotes (own root : List Line) (exports : List ExportedSymbol) (name : String) (v : UInt16) : Prop :=
  DeclaredAs own name v ∨
    (Undeclared own name ∧ DeclaredAs root name v) ∨
    (Undeclared own name ∧ Undeclared root name ∧ exportedValue? exports name = some v)

section Tables

variable {root table : Nat} {s : SymbolStore} {lines : List Line} {name : String} {x : Symbol}

/-- Lines that are bound and one of which declares a name give it the value in the table. -/
lemma declaredAs_of_bound (hbound : ∀ line ∈ lines, Bound root s table line)
    (hlabel : ∃ line ∈ lines, line.label = some name) (hx : (s.table table).find? name = some x) :
    ∃ v, x.value.IsWord v ∧ DeclaredAs lines name v := by
  obtain ⟨line, hline, hname⟩ := hlabel
  obtain ⟨y, v, hy, -, hword, -⟩ := (hbound line hline).label name hname
  rw [hx] at hy
  cases hy
  refine ⟨v, hword, ⟨line, hline, hname⟩, fun other hother hname' => ?_⟩
  obtain ⟨z, w, hz, -, hword', hgives⟩ := (hbound other hother).label name hname'
  rw [hx] at hz
  cases hz
  have heq : w = v := by
    rcases hword with h | h <;> rcases hword' with h' | h' <;> rw [h] at h' <;> cases h' <;> rfl
  rwa [← heq]

/-- A symbol that is a reference, or is not declared, is not the label of a bound line. -/
lemma undeclared_of_bound (hbound : ∀ line ∈ lines, Bound root s table line)
    (hx : (s.table table).find? name = some x)
    (hno : x.defined = false ∨ ∃ ref, x.value = .external ref) : Undeclared lines name := by
  intro line hline hname
  obtain ⟨y, v, hy, hdef, hword, -⟩ := (hbound line hline).label name hname
  rw [hx] at hy
  cases hy
  rcases hno with hundef | ⟨ref, href⟩
  · rw [hundef] at hdef
    cases hdef
  · rw [href] at hword
    rcases hword with h | h <;> cases h

/-- The value of a word is found in one step. -/
lemma follow_word {k n : Nat} {v : UInt16} (hk : (s.table table).indexOf? name = some k)
    (hx : (s.table table).find? name = some x) (hv : x.value.IsWord v) :
    s.follow (n + 1) ⟨table, k⟩ = some v := by
  rcases hv with hv | hv
  · exact SymbolStore.follow_numeric hk hx hv
  · exact SymbolStore.follow_location hk hx hv

end Tables

section Code

variable {s s' : SymbolStore} {table table' : Nat} {line : Line}

lemma Operand.value_congr {operand : Operand}
    (h : ∀ name, operand.symbol? = some name → s.value? table name = s'.value? table' name) :
    operand.value s table = operand.value s' table' := by
  cases operand with
  | symbol name => exact congrArg (·.getD 0) (h name rfl)
  | _ => rfl

/-- The code of a line depends on the value of its operand only. -/
lemma Line.code_congr
    (h : ∀ name, line.statement.symbol? = some name → s.value? table name = s'.value? table' name) :
    line.code s table = line.code s' table' := by
  have hvalue : ∀ operand, line.statement.operand? = some operand →
      operand.value s table = operand.value s' table' := by
    intro operand hoperand
    refine Operand.value_congr fun name hname => h name ?_
    rw [Statement.symbol?, hoperand]
    exact hname
  have hbytes : line.statement.bytes s table = line.statement.bytes s' table' := by
    unfold Statement.bytes
    split <;> first | rfl | (rename_i hst; rw [hvalue _ (by rw [hst]; rfl)])
  rw [Line.code, Line.code, hbytes]

end Code

namespace Program

open Linker (Links Closed)

/-- What linking establishes of symbols.  The instances from `lo` on are copies; the root declares
its labels and imports. -/
structure Resolved (q : Program) (lo : Nat) (exports : List ExportedSymbol) : Prop where
  root_table : q.rootTable = root
  root_lt : root < q.symbols.size
  root_bound : ∀ line ∈ (q.inst root).lines, Bound root q.symbols root line
  root_nodup : ((q.inst root).lines.filterMap Line.label).Nodup
  root_declares : ∀ name x, (q.symbols.table root).find? name = some x → x.defined = true →
    (∃ line ∈ (q.inst root).lines, line.label = some name) ∨
      ∃ ref v, x.value = .external ref ∧ exportedValue? exports name = some v ∧
        ∀ n, q.symbols.follow (n + 1) ref = some v
  closed : ∀ j, lo ≤ j → j < q.instances.size → Closed root q.symbols (q.inst j)
  table_lt : ∀ j, lo ≤ j → j < q.instances.size →
    root < (q.inst j).table ∧ (q.inst j).table < q.symbols.size
  table_inj : ∀ j j', lo ≤ j → j < q.instances.size → lo ≤ j' → j' < q.instances.size →
    (q.inst j).table = (q.inst j').table → j = j'

namespace Resolved

variable {q : Program} {lo : Nat} {exports : List ExportedSymbol} {name : String} {x : Symbol}

/-- What the root declares has a value that is found in two steps. -/
lemma follow_root (h : Resolved q lo exports) {k n : Nat}
    (hk : (q.symbols.table root).indexOf? name = some k)
    (hx : (q.symbols.table root).find? name = some x) (hdef : x.defined = true) :
    ∃ v, q.symbols.follow (n + 2) ⟨root, k⟩ = some v ∧
      (DeclaredAs (q.inst root).lines name v ∨
        (Undeclared (q.inst root).lines name ∧ exportedValue? exports name = some v)) := by
  rcases h.root_declares name x hx hdef with hlabel | ⟨ref, v, href, hexport, hfollow⟩
  · obtain ⟨v, hword, hdecl⟩ := declaredAs_of_bound h.root_bound hlabel hx
    exact ⟨v, follow_word hk hx hword, .inl hdecl⟩
  · refine ⟨v, ?_, .inr ⟨undeclared_of_bound h.root_bound hx (.inr ⟨ref, href⟩), hexport⟩⟩
    rw [SymbolStore.follow_external hk hx href, hfollow]

/-- An operand of the root has the value that the rule gives it. -/
lemma denotes_root (h : Resolved q lo exports) {line : Line}
    (hline : line ∈ (q.inst root).lines) (hname : line.statement.symbol? = some name) :
    ∃ v, q.symbols.value? (q.inst root).table name = some v ∧
      Denotes (q.inst root).lines (q.inst root).lines exports name v := by
  obtain ⟨x, hx, hdef | ⟨-, hne, -⟩⟩ := (h.root_bound line hline).operand name hname
  · obtain ⟨k, hk⟩ := SymbolTable.exists_indexOf? hx
    obtain ⟨m, hm⟩ : ∃ m, q.symbols.size + 1 = m + 2 :=
      ⟨q.symbols.size - 1, by have := h.root_lt; omega⟩
    obtain ⟨v, hv, hroot⟩ := h.follow_root (n := m) hk hx hdef
    refine ⟨v, ?_, ?_⟩
    · have htable : (q.inst root).table = root := h.root_table
      rw [htable, SymbolStore.value?_of_indexOf? hk, hm, hv]
    · rcases hroot with hdecl | ⟨hundecl, hexport⟩
      · exact .inl hdecl
      · exact .inr (.inr ⟨hundecl, hundecl, hexport⟩)
  · exact absurd rfl hne

/-- An operand of a copy has the value that the rule gives it. -/
lemma denotes_copy (h : Resolved q lo exports) {j : Nat} (hlo : lo ≤ j) (hj : j < q.instances.size)
    {line : Line} (hline : line ∈ (q.inst j).lines) (hname : line.statement.symbol? = some name) :
    ∃ v, q.symbols.value? (q.inst j).table name = some v ∧
      Denotes (q.inst j).lines (q.inst root).lines exports name v := by
  have hclosed := h.closed j hlo hj
  obtain ⟨x, hx, hdef | ⟨hundef, -, i, y, hi, hy, hdef, hval⟩⟩ :=
    (hclosed.bound line hline).operand name hname
  · obtain ⟨k, hk⟩ := SymbolTable.exists_indexOf? hx
    obtain ⟨v, hword, hdecl⟩ :=
      declaredAs_of_bound hclosed.bound (hclosed.declared name x hx hdef) hx
    exact ⟨v, by rw [SymbolStore.value?_of_indexOf? hk, follow_word hk hx hword], .inl hdecl⟩
  · obtain ⟨k, hk⟩ := SymbolTable.exists_indexOf? hx
    have hown := undeclared_of_bound hclosed.bound hx (.inl hundef)
    -- The chain leads to the root, and from there at most to the exports.
    obtain ⟨m, hm⟩ : ∃ m, q.symbols.size + 1 = (m + 2) + 1 := by
      have := h.table_lt j hlo hj
      exact ⟨q.symbols.size - 2, by omega⟩
    obtain ⟨v, hv, hroot⟩ := h.follow_root (n := m) hi hy hdef
    refine ⟨v, ?_, ?_⟩
    · rw [SymbolStore.value?_of_indexOf? hk, hm, SymbolStore.follow_external hk hx hval, hv]
    · rcases hroot with hdecl | ⟨hundecl, hexport⟩
      · exact .inr (.inl ⟨hown, hdecl⟩)
      · exact .inr (.inr ⟨hown, hundecl, hexport⟩)

lemma denotes (h : Resolved q lo exports) {j : Nat} (hj : j = root ∨ lo ≤ j ∧ j < q.instances.size)
    {line : Line} (hline : line ∈ (q.inst j).lines) (hname : line.statement.symbol? = some name) :
    ∃ v, q.symbols.value? (q.inst j).table name = some v ∧
      Denotes (q.inst j).lines (q.inst root).lines exports name v := by
  rcases hj with rfl | ⟨hlo, hhi⟩
  · exact h.denotes_root hline hname
  · exact h.denotes_copy hlo hhi hline hname

end Resolved

/-- The first pass resolves all symbols. -/
theorem Ready.resolved {p : Program} {lib : MacroLibrary} {text : String} {kind : ModuleKind}
    {exports : Option (List ExportedSymbol)} {l : Linker} {lines : List Line}
    (h : Ready text kind lib p)
    (hlinks : Links (Linker.start p exports).program root root (Linker.start p exports)
      (p.inst root).lines l lines) :
    Resolved (l.store root lines).program p.instances.size (availableExports kind exports) := by
  have hholds := hlinks.holds'
  have hrootTable := h.rootTable_start exports
  have hprep := (h.prepared_root hlinks.single).1
  have hinst := inst_root_store hlinks
  have hcopy : ∀ j, p.instances.size ≤ j →
      (l.store root lines).program.inst j = l.program.inst j := by
    intro j hj
    exact Linker.inst_store_ne (Nat.ne_of_gt (Nat.lt_of_lt_of_le h.root_lt hj))
  have hnumbered : ∀ j, p.instances.size ≤ j → j < l.program.instances.size →
      (l.program.inst j).table + p.instances.size =
        j + (Linker.start p exports).program.symbols.size := by
    intro j hj hj'
    have hnum := hholds.numbered j (by rwa [instances_start]) hj'
    rwa [instances_start] at hnum
  have hbound := hlinks.bound hprep
  have hdeclares := hlinks.rootDeclares (h.importsFrom exports)
    (fun _ line hline name hname => List.mem_filterMap.2 ⟨line, hline, hname⟩)
    (h.rootDeclares_start exports)
  have hlabels := labels_of_shapes hlinks.shapes
  rw [hrootTable] at hbound hdeclares
  exact {
    root_table := by
      rw [rootTable, hinst]
      exact h.table_eq root h.root_lt
    root_lt := by
      rw [Linker.symbols_store]
      refine Nat.lt_of_lt_of_le ?_ hholds.size_symbols_le
      rw [← hrootTable]
      exact hholds.rootTable_lt
    root_bound := by
      rw [hinst]
      exact hbound
    root_nodup := by
      rw [hinst]
      change (lines.filterMap Line.label).Nodup
      rw [hlabels]
      exact hprep.nodup
    root_declares name x hx hdef := by
      rw [hinst]
      rcases hdeclares name x hx hdef with hname | ⟨ref, href, hval⟩
      · rw [← hlabels] at hname
        exact .inl (List.mem_filterMap.1 hname)
      · obtain ⟨v, hexport, hfollow⟩ := h.rooted.follow_imported href fun t ht =>
          hholds.table_eq t (h.importsFrom exports t ht).1 (h.importsFrom exports t ht).2
        exact .inr ⟨ref, v, hval, hexport, hfollow⟩
    closed j hj hj' := by
      rw [Linker.size_store] at hj'
      rw [hcopy j hj]
      have hclosed := hlinks.closed (h.recorded exports) (by rwa [instances_start]) hj'
      rwa [hrootTable] at hclosed
    table_lt j hj hj' := by
      rw [Linker.size_store] at hj'
      rw [hcopy j hj, Linker.symbols_store]
      have hnum := hnumbered j hj hj'
      have hsizes := hholds.sizes
      have hsym : p.symbols.size ≤ (Linker.start p exports).program.symbols.size := size_symbols_start
      have hroot := h.root_lt
      rw [instances_start] at hsizes
      rw [h.sizes] at hsym
      omega
    table_inj j j' hj hlt hj' hlt' htable := by
      rw [Linker.size_store] at hlt hlt'
      rw [hcopy j hj, hcopy j' hj'] at htable
      have hnum := hnumbered j hj hlt
      have hnum' := hnumbered j' hj' hlt'
      omega }

end Program

end Pep10
