import Pep10.Proofs.Program.Relinking

/-!
# Linking a program again

A program that has been linked is ready to be linked once more.  What the first pass of linking
finds there is what it has left behind (`Remains`), possibly in another place, if the program has
been relocated in between.  Of that it makes the same as the first time (`Mirrors`): the root has
the same lines and symbols, and for every copy that was made the first time there is another one
that has the same lines and symbols.
-/

namespace Pep10

/-! ### Names of the root -/

lemma Linker.names_importInto (imports : Nat) (imported t : SymbolTable) :
    (importInto imports imported t).names = t.names := by
  rw [SymbolTable.names, SymbolTable.names, importInto, List.map_map]
  refine List.map_congr_left fun s _ => ?_
  rw [Function.comp_apply]
  split <;> rfl

namespace Program

open Linker (Links Holds Leftover InStep Retraceable importedFrom importTable)

variable {p q : Program} {lib : MacroLibrary} {text : String} {kind : ModuleKind} {lo c d : Nat} {l m : Linker}
  {lines made : List Line} {R : Line → Line → Prop} {name : String} {exported : List ExportedSymbol}
  {exports : Option (List ExportedSymbol)}

/-! ### The start -/

namespace Rooted

/-- Linking starts with the names of the root as they are. -/
lemma names_start (h : p.Rooted kind) (exports : Option (List ExportedSymbol)) :
    ((Linker.start p exports).program.symbols.table root).names = (p.symbols.table root).names := by
  rcases h.start_cases exports with ⟨-, hp, -⟩ | ⟨-, hsym⟩
  · rw [hp]
  · have hlt : root < (p.symbols.push (importTable (availableExports kind exports))).size := by
      rw [SymbolStore.size_push]
      exact Nat.lt_succ_of_lt h.table_lt
    rw [hsym, SymbolStore.table_modify_self hlt, Linker.names_importInto,
      SymbolStore.table_push_of_lt _ h.table_lt]

/-- The names that can be imported are those that are exported. -/
lemma importedFrom_eq_none (h : p.Rooted kind) (exports : Option (List ExportedSymbol)) (name : String) :
    importedFrom (Linker.start p exports).program (Linker.start p exports).imports name = none ↔
      exportedValue? (availableExports kind exports) name = none := by
  constructor
  · intro hnone
    rcases h.start_cases exports with ⟨-, -, hexports⟩ | ⟨himports, -⟩
    · rw [hexports]
      rfl
    · rw [importedFrom, himports, Option.bind_some, (h.table_imports himports).2.2, Option.map_eq_none_iff] at hnone
      exact Linker.exportedValue?_of_indexOf? hnone
  · intro hnone
    by_contra hsome
    obtain ⟨ref, href⟩ := Option.ne_none_iff_exists'.1 hsome
    obtain ⟨v, hv, -⟩ := h.follow_imported href fun _ _ => rfl
    rw [hnone] at hv
    cases hv

/-- A symbol of the root that is not exported is the same at the start. -/
lemma find?_start (h : p.Rooted kind) (hname : exportedValue? (availableExports kind exports) name = none) :
    ((Linker.start p exports).program.symbols.table root).find? name = (p.symbols.table root).find? name := by
  obtain ⟨f, hf⟩ := h.find?_start_root exports
  rw [(hf name).1]
  cases hx : (p.symbols.table root).find? name with
  | none => rfl
  | some x =>
    rcases (hf name).2 x hx with ⟨hsame, -⟩ | ⟨ref, -, href⟩
    · rw [Option.map_some, hsame]
    · rw [(h.importedFrom_eq_none exports name).2 hname] at href
      cases href

/-- A symbol of the root that is exported stands for the import from the start. -/
lemma imports_start (h : p.Rooted kind) {ref : SymbolRef} {x : Symbol}
    (href : importedFrom (Linker.start p exports).program (Linker.start p exports).imports name = some ref)
    (hx : ((Linker.start p exports).program.symbols.table root).find? name = some x) :
    x.defined = true ∧ x.value = .external ref := by
  obtain ⟨f, hf⟩ := h.find?_start_root exports
  rw [(hf name).1] at hx
  obtain ⟨y, hy, rfl⟩ := Option.map_eq_some_iff.1 hx
  rcases (hf name).2 y hy with ⟨-, hnone⟩ | ⟨ref', hf', href'⟩
  · rw [(h.importedFrom_eq_none exports name).2 hnone] at href
    cases href
  · rw [href] at href'
    cases href'
    rw [hf']
    exact ⟨rfl, rfl⟩

/-- The root keeps its place when it is linked. -/
lemma store (h : p.Rooted kind) (hlinks : Links (Linker.start p exports).program root root
      (Linker.start p exports) (p.inst root).lines l lines) : (l.store root lines).program.Rooted kind := by
  have hholds := hlinks.holds'
  refine ⟨?_, ?_, ?_, ?_⟩
  · rw [Linker.size_store]
    exact Nat.lt_of_lt_of_le hholds.root_lt hholds.size_le
  · rw [rootTable, inst_root_store hlinks]
    exact h.root_table
  · rw [Linker.symbols_store]
    refine Nat.lt_of_lt_of_le ?_ hholds.size_symbols_le
    rw [← h.rootTable_start exports]
    exact hholds.rootTable_lt
  · change (l.program.module root).kind = kind
    rw [hholds.kind_eq, Program.module, modules_start]
    exact h.root_kind

end Rooted

/-! ### What linking leaves, and what it makes of that -/

/-- The program `q` is what has become of the program `p`, in which the copies are the instances
from `lo` on: lines have been moved, and labels with them. -/
structure Remains (exported : List ExportedSymbol) (lo c : Nat) (p q : Program) : Prop where
  root_lines : List.Forall₂ (Line.MovedBy c) (p.inst root).lines (q.inst root).lines
  root_symbols : ∀ name, exportedValue? exported name = none →
    (p.symbols.table root).AlikeAt (Unbound (p.inst root).lines) name (q.symbols.table root)
  names_eq : (q.symbols.table root).names = (p.symbols.table root).names
  copies : ∀ j, lo ≤ j → j < p.instances.size → Leftover c q p.symbols (p.inst j) (j + c)

/-- The program `q` has the lines of the program `p`, up to the given relation, and its symbols, up
to where imports are.  The copies are the instances from `lo` on, and they are found further on in
`q`. -/
structure Mirrors (R : Line → Line → Prop) (exported : List ExportedSymbol) (lo d : Nat) (p q : Program) :
    Prop where
  size_eq : q.instances.size = p.instances.size + d
  root_lines : List.Forall₂ R (p.inst root).lines (q.inst root).lines
  root_symbols : ∀ name, exportedValue? exported name = none →
    (q.symbols.table root).find? name = (p.symbols.table root).find? name
  imports : ∀ name v x, exportedValue? exported name = some v → (q.symbols.table root).find? name = some x →
    x.defined = true ∧ ∃ ref, x.value = .external ref ∧ ∀ n, q.symbols.follow (n + 1) ref = some v
  names_eq : (q.symbols.table root).names = (p.symbols.table root).names
  lines : ∀ j, lo ≤ j → j < p.instances.size → List.Forall₂ R (p.inst j).lines (q.inst (j + d)).lines
  symbols : ∀ j, lo ≤ j → j < p.instances.size → ∀ name,
    (q.symbols.table (q.inst (j + d)).table).find? name = (p.symbols.table (p.inst j).table).find? name
  table_lt : ∀ j, lo ≤ j → j < p.instances.size →
    root < (q.inst (j + d)).table ∧ (q.inst (j + d)).table < q.symbols.size
  table_inj : ∀ j j', lo ≤ j → j < p.instances.size → lo ≤ j' → j' < p.instances.size →
    (q.inst (j + d)).table = (q.inst (j' + d)).table → j = j'

/-! ### The first pass, again -/

/-- What is left of an instance is there when linking starts. -/
lemma leftover_start (hq : q.Rooted kind) (exports : Option (List ExportedSymbol)) {s : SymbolStore}
    {i : Instance} {j : Nat} (h : Leftover c q s i j) : Leftover c (Linker.start q exports).program s i j := by
  have hne : (q.inst j).table ≠ root := by
    rw [← hq.root_table]
    exact h.table_ne
  refine ⟨by rw [instances_start]; exact h.lt_size, ?_, ?_, by rw [inst_start]; exact h.lines, fun name => ?_⟩
  · rw [inst_start]
    exact Nat.lt_of_lt_of_le h.table_lt size_symbols_start
  · rwa [inst_start, hq.rootTable_start]
  · rw [inst_start, hq.table_start exports h.table_lt hne]
    exact h.symbols name

/-- Linking starts again with the names that the root had behind the first pass. -/
lemma Rooted.names_again (hq : q.Rooted kind)
    (hremains : Remains (availableExports kind exports) lo c (l.store root lines).program q) :
    ((Linker.start q exports).program.symbols.table root).names =
      (l.program.symbols.table root).names := by
  rw [hq.names_start, hremains.names_eq, Linker.symbols_store]

section Again

variable (h : Ready text kind lib p) (hlinks : Links (Linker.start p exports).program root root
  (Linker.start p exports) (p.inst root).lines l lines) (hq : q.Rooted kind)
  (hremains : Remains (availableExports kind exports) p.instances.size c (l.store root lines).program q)

include h hlinks hq hremains

/-- Linking what has been linked starts in step with the first time. -/
lemma Ready.inStep_start (outer : String → Bool → Prop) :
    InStep (Linker.start p exports).program (Linker.start q exports).program
      (importedFrom (Linker.start p exports).program (Linker.start p exports).imports)
      (importedFrom (Linker.start q exports).program (Linker.start q exports).imports) root root
      (Unbound (p.inst root).lines) outer (Linker.start p exports) (Linker.start q exports) := by
  have hp := h.rooted
  have hholds := hp.holds exports
  refine ⟨by rw [next_start, next_start], Nat.add_comm .., fun name hname => ?_, fun hne => ?_,
    fun name ref x href hx => ?_, rfl⟩
  · have hnone : importedFrom (Linker.start p exports).program (Linker.start p exports).imports name = none :=
      hname (hp.rootTable_start exports).symm
    have hexported := (hp.importedFrom_eq_none exports name).1 hnone
    -- The first run has changed nothing but values that it has assigned.
    have hfirst := hlinks.alikeAt (h.importsFrom exports) name hholds.table_lt fun _ => hnone
    have hsecond := hremains.root_symbols name hexported
    rw [inst_root_store hlinks, Linker.symbols_store] at hsecond
    have hlast : (q.symbols.table root).AlikeAt (Unbound (p.inst root).lines) name
        ((Linker.start q exports).program.symbols.table root) := .of_find?_eq (hq.find?_start hexported)
    exact ((hfirst.mono fun _ _ hs => hs.2).trans
      (hsecond.mono fun _ _ hs => unbound_of_shapes hlinks.shapes.symm hs)).trans hlast
  · exact absurd (hp.rootTable_start exports).symm hne
  · rw [hq.rootTable_start] at hx
    exact hq.imports_start href hx

/-- The second pass finds what it relies on. -/
lemma Ready.retraceable_start :
    Retraceable (importedFrom (Linker.start p exports).program (Linker.start p exports).imports) c
      (Linker.start p exports).program (Linker.start q exports).program root (Linker.start p exports)
      (p.inst root).lines l where
  regular _ hline := h.regular h.root_lt hline
  importsFrom := h.importsFrom exports
  imported_eq := rfl
  unimported _ line hline name hname := (h.rooted.importedFrom_eq_none exports name).2
    ((h.prepared_root hlinks.single).2 line hline name hname)
  index name k hk := by
    rw [h.rooted.rootTable_start] at hk
    rwa [hq.rootTable_start, SymbolTable.indexOf?_of_names (hq.names_again hremains)]
  copies j hlo hhi := by
    rw [instances_start] at hlo
    have hleft := hremains.copies j hlo (by rwa [Linker.size_store])
    rw [Linker.inst_store_ne (Nat.ne_of_gt (Nat.lt_of_lt_of_le h.root_lt hlo))] at hleft
    exact leftover_start hq exports hleft

/-- The second pass goes along with the first one, and what it makes echoes what the first one
made. -/
lemma Ready.exists_echo_again (hd : q.instances.size = p.instances.size + d) :
    ∃ m made, Links (Linker.start q exports).program root root (Linker.start q exports) (q.inst root).lines
        m made ∧
      InStep (Linker.start p exports).program (Linker.start q exports).program
        (importedFrom (Linker.start p exports).program (Linker.start p exports).imports)
        (importedFrom (Linker.start q exports).program (Linker.start q exports).imports) root root
        (Unbound []) (fun _ _ => True) l m ∧
      List.Forall₂ (Line.Echoes d) lines made ∧
      ∀ j, p.instances.size ≤ j → j < l.program.instances.size →
        Linker.Echoes d l.program.symbols m.program.symbols (l.program.inst j) (m.program.inst (j + d)) := by
  have hp := h.rooted
  have hlines := hremains.root_lines
  rw [inst_root_store hlinks] at hlines
  obtain ⟨m, made, hlinks', hstep, hmade, hcopies⟩ := hlinks.exists_echo (d := d)
    (by rw [instances_start, instances_start, hd])
    (by rw [hq.rootTable_start, hp.rootTable_start])
    (fun name => (hq.importedFrom_eq_none exports name).trans (hp.importedFrom_eq_none exports name).symm)
    (fun j hj line hline => h.regular (by rwa [instances_start] at hj) (by rwa [inst_start] at hline))
    (h.retraceable_start hlinks hq hremains) (hq.holds exports) Iff.rfl
    (h.inStep_start hlinks hq hremains fun _ _ => True) hlines
  exact ⟨m, made, hlinks', hstep, hmade, fun j hj => hcopies j (by rwa [instances_start])⟩

end Again

/-- In a linked program a symbol of the root that is exported has the exported value. -/
lemma Rooted.follow_export (hq : q.Rooted kind)
    (hlinks : Links (Linker.start q exports).program root root (Linker.start q exports) (q.inst root).lines m made)
    (himports : ∀ name ref x,
      importedFrom (Linker.start q exports).program (Linker.start q exports).imports name = some ref →
      (m.program.symbols.table root).find? name = some x → x.defined = true ∧ x.value = .external ref)
    {v : UInt16} {x : Symbol} (hname : exportedValue? (availableExports kind exports) name = some v)
    (hx : (m.program.symbols.table root).find? name = some x) :
    x.defined = true ∧ ∃ ref, x.value = .external ref ∧ ∀ n, m.program.symbols.follow (n + 1) ref = some v := by
  obtain ⟨ref, href⟩ : ∃ ref, importedFrom (Linker.start q exports).program
      (Linker.start q exports).imports name = some ref := by
    refine Option.ne_none_iff_exists'.1 fun hnone => ?_
    rw [(hq.importedFrom_eq_none exports name).1 hnone] at hname
    cases hname
  obtain ⟨hdef, hvalue⟩ := himports name ref x href hx
  obtain ⟨w, hw, hfollow⟩ := hq.follow_imported (s := m.program.symbols) href fun t ht =>
    hlinks.holds'.table_eq t (hq.importsFrom exports t ht).1 (hq.importsFrom exports t ht).2
  rw [hname] at hw
  cases hw
  exact ⟨hdef, ref, hvalue, hfollow⟩

/-- What has been linked can be linked again, and that comes to the same. -/
theorem Ready.exists_links_again (h : Ready text kind lib p)
    (hlinks : Links (Linker.start p exports).program root root (Linker.start p exports) (p.inst root).lines l
      lines) (hq : q.Rooted kind)
    (hremains : Remains (availableExports kind exports) p.instances.size c (l.store root lines).program q)
    (hd : q.instances.size = p.instances.size + d) :
    ∃ m made, Links (Linker.start q exports).program root root (Linker.start q exports) (q.inst root).lines
        m made ∧
      m.next = l.next ∧
      Mirrors (Line.Echoes d) (availableExports kind exports) p.instances.size d
        (l.store root lines).program (m.store root made).program := by
  obtain ⟨m, made, hlinks', hstep, hmade, hcopies⟩ := h.exists_echo_again hlinks hq hremains hd
  have hlt := h.root_lt
  have hroot : root < (Linker.start q exports).program.symbols.size :=
    Nat.lt_of_lt_of_le hq.table_lt size_symbols_start
  have hsize := hstep.size_eq
  have hsizes := hlinks'.holds'.sizes
  rw [instances_start, instances_start] at hsize
  rw [instances_start] at hsizes
  have hinst : ∀ j, p.instances.size ≤ j → (l.store root lines).program.inst j = l.program.inst j ∧
      (m.store root made).program.inst (j + d) = m.program.inst (j + d) := fun j hj =>
    ⟨Linker.inst_store_ne (by omega), Linker.inst_store_ne (by omega)⟩
  -- The copies have tables of their own, in the order of the copies.
  have hnumbered : ∀ j, p.instances.size ≤ j → j < l.program.instances.size →
      (m.program.inst (j + d)).table + p.instances.size =
        j + (Linker.start q exports).program.symbols.size := by
    intro j hlo hhi
    have := hlinks'.holds'.numbered (j + d) (by rw [instances_start]; omega) (by omega)
    rw [instances_start] at this
    omega
  refine ⟨m, made, hlinks', hstep.next_eq, ?_, ?_, fun name hname => ?_, fun name v x hname hx => ?_, ?_,
    fun j hlo hhi => ?_, fun j hlo hhi name => ?_, fun j hlo hhi => ?_, fun j j' hlo hhi hlo' hhi' => ?_⟩
  · rw [Linker.size_store, Linker.size_store]
    omega
  · rw [inst_root_store hlinks, inst_root_store hlinks']
    exact hmade
  · rw [Linker.symbols_store, Linker.symbols_store]
    exact (hstep.own name fun _ => (h.rooted.importedFrom_eq_none exports name).2 hname).find?_eq
      fun _ => not_unbound_nil
  · rw [Linker.symbols_store] at hx ⊢
    refine hq.follow_export hlinks' (fun name ref x href hx => ?_) hname hx
    exact hstep.imports name ref x href (by rwa [hq.rootTable_start])
  · have hnames := hstep.names_eq
    rw [hq.rootTable_start] at hnames
    rw [Linker.symbols_store, Linker.symbols_store, hnames, hq.names_again hremains]
  · rw [Linker.size_store] at hhi
    rw [(hinst j hlo).1, (hinst j hlo).2]
    exact (hcopies j hlo hhi).lines
  · rw [Linker.size_store] at hhi
    rw [(hinst j hlo).1, (hinst j hlo).2, Linker.symbols_store, Linker.symbols_store]
    exact (hcopies j hlo hhi).symbols name
  · rw [Linker.size_store] at hhi
    rw [(hinst j hlo).2, Linker.symbols_store]
    have hnum := hnumbered j hlo hhi
    omega
  · rw [Linker.size_store] at hhi hhi'
    rw [(hinst j hlo).2, (hinst j' hlo').2]
    have hnum := hnumbered j hlo hhi
    have hnum' := hnumbered j' hlo' hhi'
    omega

end Program

end Pep10
