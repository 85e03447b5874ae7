import Pep10.Proofs.Program.Binding
import Pep10.Proofs.Program.FirstPass

/-!
# The exports of an operating system

A user program can be linked against the symbols that an operating system exports.  They make up a
table of their own, which is never changed, and the symbols of the root that have the name of an
export stand for it from the start.  A label of the root that is also exported is declared twice by
this, so that it is found out when the label is bound.
-/

namespace Pep10

/-- The value under which a name is exported; the last export of a name counts. -/
def exportedValue? (exports : List ExportedSymbol) (name : String) : Option UInt16 :=
  (exports.reverse.find? fun e => e.name == name).map ExportedSymbol.value

/-- The exports that a program of the given kind is linked against.  An operating system is linked
against none. -/
def availableExports (kind : ModuleKind) (exports : Option (List ExportedSymbol)) :
    List ExportedSymbol :=
  match kind with
  | .operatingSystem => []
  | _ => exports.getD []

namespace Linker

variable {exports : List ExportedSymbol} {name : String} {imports : Nat}
  {imported t : SymbolTable} {x : Symbol}

/-! ### The table of exports -/

/-- The table of exports holds the value of every export. -/
lemma value_importTable (exports : List ExportedSymbol) (name : String) :
    ((importTable exports).find? name).map Symbol.value =
      (exportedValue? exports name).map .numeric := by
  induction exports using List.reverseRecOn with
  | nil => rfl
  | append_singleton exports e ih =>
    have htable : importTable (exports ++ [e]) =
        ((importTable exports).declare e.name).assign e.name (.numeric e.value) := by
      rw [importTable, List.foldl_append]
      rfl
    rw [htable, exportedValue?, List.reverse_concat]
    by_cases hname : e.name = name
    · subst hname
      simp [SymbolTable.find?_assign_self, SymbolTable.find?_declare_self]
    · rw [SymbolTable.find?_assign_ne _ (Ne.symm hname),
        SymbolTable.find?_declare_ne (Ne.symm hname), ih, exportedValue?,
        List.find?_cons_of_neg (by simpa using hname)]

/-- A name without a number in the table of exports is not exported. -/
lemma exportedValue?_of_indexOf? (h : (importTable exports).indexOf? name = none) :
    exportedValue? exports name = none := by
  have hfind : (importTable exports).find? name = none := by
    rw [← Option.not_isSome_iff_eq_none, ← SymbolTable.isSome_indexOf?, h]
    exact Bool.false_ne_true
  have hvalue := value_importTable exports name
  rw [hfind, Option.map_none] at hvalue
  exact Option.map_eq_none_iff.1 hvalue.symm

/-- A name with a number in the table of exports is exported, and its value is found there. -/
lemma follow_importTable {s : SymbolStore} {k : Nat} (hs : s.table imports = importTable exports)
    (hk : (importTable exports).indexOf? name = some k) :
    ∃ v, exportedValue? exports name = some v ∧
      ∀ n, s.follow (n + 1) ⟨imports, k⟩ = some v := by
  obtain ⟨x, hx⟩ := SymbolTable.exists_find? hk
  have hvalue := value_importTable exports name
  rw [hx, Option.map_some] at hvalue
  obtain ⟨v, hv, hnum⟩ := Option.map_eq_some_iff.1 hvalue.symm
  rw [← hs] at hk hx
  exact ⟨v, hv, fun n => SymbolStore.follow_numeric hk hx hnum.symm⟩

/-! ### The root at the start -/

/-- A symbol of the root at the start: one with an imported name has been declared once more. -/
def asImport (imports : Nat) (imported : SymbolTable) (x : Symbol) : Symbol :=
  match imported.indexOf? x.name with
  | some i => { x.declared with value := .external ⟨imports, i⟩ }
  | none => x

lemma find?_importInto :
    (importInto imports imported t).find? name = (t.find? name).map (asImport imports imported) := by
  have hname : ((fun x : Symbol => x.name == name) ∘ asImport imports imported) =
      fun x => x.name == name := by
    funext x
    simp only [Function.comp, asImport]
    split <;> rfl
  change (t.symbols.map (asImport imports imported)).find? _ = _
  rw [List.find?_map, hname]
  rfl

end Linker

namespace Program

open Linker (Links Recorded RootDeclares ImportsFrom importedFrom importTable importInto)

variable {p : Program} {lib : MacroLibrary} {text : String} {kind : ModuleKind}
  {exports : Option (List ExportedSymbol)}

/-- Linking starts from the program as it is, or with a table of imports. -/
lemma Rooted.start_cases (h : p.Rooted kind) (exports : Option (List ExportedSymbol)) :
    ((Linker.start p exports).imports = none ∧ (Linker.start p exports).program = p ∧
        availableExports kind exports = []) ∨
      ((Linker.start p exports).imports = some p.symbols.size ∧
        (Linker.start p exports).program.symbols =
          (p.symbols.push (importTable (availableExports kind exports))).modify root
            (importInto p.symbols.size (importTable (availableExports kind exports)))) := by
  unfold Linker.start
  split
  · exact .inl ⟨rfl, rfl, by cases kind <;> rfl⟩
  next es =>
    split
    next hsystem =>
      rw [isSystem, h.root_kind, beq_iff_eq] at hsystem
      exact .inl ⟨rfl, rfl, by rw [hsystem]; rfl⟩
    next hsystem =>
      have hkind : availableExports kind (some es) = es := by
        rw [isSystem, h.root_kind] at hsystem
        cases kind with
        | operatingSystem => exact absurd rfl hsystem
        | _ => rfl
      have hroot : rootTable { p with symbols := p.symbols.push (importTable es) } = root := h.root_table
      rw [hkind]
      refine .inr ⟨rfl, ?_⟩
      dsimp only
      rw [hroot]
      rfl

/-- At the start all tables but that of the root are as they were. -/
lemma Rooted.table_start (h : p.Rooted kind) (exports : Option (List ExportedSymbol)) {t : Nat}
    (ht : t < p.symbols.size) (hne : t ≠ root) :
    (Linker.start p exports).program.symbols.table t = p.symbols.table t := by
  rcases h.start_cases exports with ⟨-, hp, -⟩ | ⟨-, hsym⟩
  · rw [hp]
  · rw [hsym, SymbolStore.table_modify_ne hne, SymbolStore.table_push_of_lt _ ht]

/-- The table of imports holds the exports that are available. -/
lemma Rooted.table_imports (h : p.Rooted kind) {t : Nat} (ht : (Linker.start p exports).imports = some t) :
    t = p.symbols.size ∧ t < (Linker.start p exports).program.symbols.size ∧
      (Linker.start p exports).program.symbols.table t =
        importTable (availableExports kind exports) := by
  rcases h.start_cases exports with ⟨hnone, -⟩ | ⟨hsome, hsym⟩
  · rw [hnone] at ht
    cases ht
  · rw [hsome] at ht
    cases ht
    rw [hsym, SymbolStore.size_modify, SymbolStore.size_push,
      SymbolStore.table_modify_ne (Nat.ne_of_gt h.table_lt), SymbolStore.table_push_size]
    exact ⟨rfl, Nat.lt_succ_self _, rfl⟩

lemma Rooted.importsFrom (h : p.Rooted kind) (exports : Option (List ExportedSymbol)) :
    ImportsFrom (Linker.start p exports).program (Linker.start p exports).imports := by
  intro t ht
  obtain ⟨rfl, hlt, -⟩ := h.table_imports ht
  rw [h.rootTable_start]
  exact ⟨hlt, Nat.ne_of_gt h.table_lt⟩

/-- A symbol that is imported has the value of the export, as long as the table of imports is
kept. -/
lemma Rooted.follow_imported (h : p.Rooted kind) {s : SymbolStore} {name : String} {ref : SymbolRef}
    (href : importedFrom (Linker.start p exports).program (Linker.start p exports).imports name =
      some ref)
    (hs : ∀ t, (Linker.start p exports).imports = some t →
      s.table t = (Linker.start p exports).program.symbols.table t) :
    ∃ v, exportedValue? (availableExports kind exports) name = some v ∧
      ∀ n, s.follow (n + 1) ref = some v := by
  obtain ⟨t, ht, hsome⟩ := Option.bind_eq_some_iff.1 href
  obtain ⟨k, hk, rfl⟩ := Option.map_eq_some_iff.1 hsome
  obtain ⟨-, -, htable⟩ := h.table_imports ht
  rw [htable] at hk
  exact Linker.follow_importTable ((hs t ht).trans htable) hk

/-- The symbols of the root at the start are its own, each of them as it was or, if its name is
exported, standing for an import. -/
lemma Rooted.find?_start_root (h : p.Rooted kind) (exports : Option (List ExportedSymbol)) :
    ∃ f : Symbol → Symbol, ∀ name,
      ((Linker.start p exports).program.symbols.table root).find? name =
          ((p.symbols.table root).find? name).map f ∧
        ∀ x, (p.symbols.table root).find? name = some x →
          (f x = x ∧ exportedValue? (availableExports kind exports) name = none) ∨
          ∃ ref, f x = { x.declared with value := .external ref } ∧
            importedFrom (Linker.start p exports).program (Linker.start p exports).imports name =
              some ref := by
  rcases h.start_cases exports with ⟨-, hp, hnone⟩ | ⟨himports, hsym⟩
  · rw [hp, hnone]
    exact ⟨id, fun name => ⟨(Option.map_id_apply ..).symm, fun x _ => .inl ⟨rfl, rfl⟩⟩⟩
  · have hroot : root < (p.symbols.push (importTable (availableExports kind exports))).size := by
      rw [SymbolStore.size_push]
      exact Nat.lt_succ_of_lt h.table_lt
    have htable : (Linker.start p exports).program.symbols.table root =
        importInto p.symbols.size (importTable (availableExports kind exports))
          (p.symbols.table root) := by
      rw [hsym, SymbolStore.table_modify_self hroot, SymbolStore.table_push_of_lt _ h.table_lt]
    refine ⟨_, fun name => ⟨by rw [htable, Linker.find?_importInto], fun x hx => ?_⟩⟩
    unfold Linker.asImport
    rw [SymbolTable.name_of_find? hx]
    split
    next i hi =>
      refine .inr ⟨⟨p.symbols.size, i⟩, rfl, ?_⟩
      rw [importedFrom, himports, Option.bind_some, (h.table_imports himports).2.2, hi]
      rfl
    next hi => exact .inl ⟨rfl, Linker.exportedValue?_of_indexOf? hi⟩

lemma Ready.rootTable_start (h : Ready text kind lib p) (exports : Option (List ExportedSymbol)) :
    (Linker.start p exports).program.rootTable = root :=
  h.rooted.rootTable_start exports

lemma Ready.table_start (h : Ready text kind lib p) (exports : Option (List ExportedSymbol)) {t : Nat}
    (ht : t < p.instances.size) (hne : t ≠ root) :
    (Linker.start p exports).program.symbols.table t = p.symbols.table t :=
  h.rooted.table_start exports (by rwa [h.sizes]) hne

lemma Ready.importsFrom (h : Ready text kind lib p) (exports : Option (List ExportedSymbol)) :
    ImportsFrom (Linker.start p exports).program (Linker.start p exports).imports :=
  h.rooted.importsFrom exports

/-- At the start every table but that of the root records the marks of its instance. -/
lemma Ready.recorded (h : Ready text kind lib p) (exports : Option (List ExportedSymbol)) :
    Recorded (Linker.start p exports).program := by
  intro t ht hne
  rw [instances_start] at ht
  rw [h.rootTable_start, inst_start, h.table_eq t ht, h.table_start exports ht hne]
  refine ⟨?_, hne, h.records t ht⟩
  exact Nat.lt_of_lt_of_le (by rwa [h.sizes]) size_symbols_start

/-- A symbol of the root is the same at the start if its name is not exported, and is declared if it
is. -/
lemma Ready.exists_find?_start (h : Ready text kind lib p) (exports : Option (List ExportedSymbol))
    {name : String} {x : Symbol} (hx : (p.symbols.table root).find? name = some x) :
    ∃ x', ((Linker.start p exports).program.symbols.table root).find? name = some x' ∧
      ((x' = x ∧ exportedValue? (availableExports kind exports) name = none) ∨
        (x'.defined = true ∧ ∃ v, exportedValue? (availableExports kind exports) name = some v)) := by
  obtain ⟨f, hf⟩ := h.rooted.find?_start_root exports
  refine ⟨f x, by rw [(hf name).1, hx, Option.map_some], ?_⟩
  rcases (hf name).2 x hx with ⟨hsame, hnone⟩ | ⟨ref, himport, href⟩
  · exact .inl ⟨hsame, hnone⟩
  · obtain ⟨v, hv, -⟩ := h.rooted.follow_imported href fun _ _ => rfl
    exact .inr ⟨by rw [himport]; rfl, v, hv⟩

/-- At the start the root declares its labels and imports. -/
lemma Ready.rootDeclares_start (h : Ready text kind lib p) (exports : Option (List ExportedSymbol)) :
    RootDeclares (Linker.start p exports).program.rootTable
      ((p.inst root).lines.filterMap Line.label)
      (importedFrom (Linker.start p exports).program (Linker.start p exports).imports)
      (Linker.start p exports).program.symbols := by
  rw [h.rootTable_start]
  obtain ⟨f, hf⟩ := h.rooted.find?_start_root exports
  intro name x' hx' hdef
  rw [(hf name).1] at hx'
  obtain ⟨x, hx, rfl⟩ := Option.map_eq_some_iff.1 hx'
  rcases (hf name).2 x hx with ⟨hsame, -⟩ | ⟨ref, himport, href⟩
  · rw [hsame, (h.records root h.root_lt).defined_iff hx, Line.declare_mem_flatMap,
      ← List.mem_filterMap] at hdef
    exact .inl hdef
  · rw [himport]
    exact .inr ⟨ref, href, rfl⟩

/-- If no label of the root turns out to be declared twice, then none is exported, and the table of
the root is prepared for its lines. -/
lemma Ready.prepared_root (h : Ready text kind lib p)
    (hsingle : ∀ line ∈ (p.inst root).lines, ∀ name x, line.label = some name →
      ((Linker.start p exports).program.symbols.table root).find? name = some x →
      x.multiplyDefined = false) :
    Prepared ((Linker.start p exports).program.symbols.table root) (p.inst root).lines ∧
      ∀ line ∈ (p.inst root).lines, ∀ name, line.label = some name →
        exportedValue? (availableExports kind exports) name = none := by
  obtain ⟨f, hf⟩ := h.rooted.find?_start_root exports
  have hrec := h.records root h.root_lt
  have hlabel : ∀ line ∈ (p.inst root).lines, ∀ name x, line.label = some name →
      (p.symbols.table root).find? name = some x → f x = x ∧ x.multiplyDefined = false ∧
        exportedValue? (availableExports kind exports) name = none := by
    intro line hline name x hname hx
    have hf' := hsingle line hline name (f x) hname (by rw [(hf name).1, hx, Option.map_some])
    rcases (hf name).2 x hx with ⟨hsame, hnone⟩ | ⟨ref, himport, -⟩
    · rw [hsame] at hf'
      exact ⟨hsame, hf', hnone⟩
    · have hdef := (hrec.defined_iff hx).2 (Line.declare_mem_flatMap.2 ⟨line, hline, hname⟩)
      rw [himport] at hf'
      simp [Symbol.declared, hdef] at hf'
  have hprep := hrec.prepared fun line hline name x hname hx => (hlabel line hline name x hname hx).2.1
  refine ⟨⟨fun line hline name hname => ?_, fun line hline name hname => ?_, hprep.nodup⟩,
    fun line hline name hname => ?_⟩
  · obtain ⟨x, hx, hdef, hconst⟩ := hprep.label line hline name hname
    refine ⟨x, ?_, hdef, hconst⟩
    rw [(hf name).1, hx, Option.map_some, (hlabel line hline name x hname hx).1]
  · obtain ⟨x, hx⟩ := hprep.operand line hline name hname
    exact ⟨f x, by rw [(hf name).1, hx, Option.map_some]⟩
  · obtain ⟨x, hx, -⟩ := hprep.label line hline name hname
    exact (hlabel line hline name x hname hx).2.2

end Program

end Pep10
