import Pep10.Proofs.Program.Copies
import Pep10.Proofs.Program.Linkable

/-!
# Exports and system calls of a linked operating system

While an operating system is assembled, its directives enter names into two places: the names that
are exported go to the symbol table of the instance at hand, and the macros of system calls go to
the library.  Linking leaves the exported names of every table alone, and copies the lines of all
instances that can be reached.  So the names that the root exports are those of its own directives
(`mem_published_of_assemble`), whereas a system call can be offered anywhere in the expansion
(`offered_of_assemble`, `Ready.exists_copy_of_reaches`).
-/

namespace Pep10

/-! ### Linking keeps what is exported -/

namespace Linker

variable {p : Program} {id table : Nat} {l l' : Linker} {line : Line} {lines lines' : List Line}

lemma published_modifyTable {f : SymbolTable → SymbolTable} (hf : ∀ t, (f t).published = t.published)
    (j : Nat) :
    ((l.modifyTable table f).program.symbols.table j).published =
      (l.program.symbols.table j).published :=
  SymbolStore.published_modify hf j

/-- Binding a line gives values to symbols, and may import one. -/
lemma Binds.published_eq (h : Binds id table l line l') (j : Nat) :
    (l'.program.symbols.table j).published = (l.program.symbols.table j).published := by
  obtain ⟨l₁, hlabel, hoperand⟩ := h
  have hfirst : (l₁.program.symbols.table j).published = (l.program.symbols.table j).published := by
    rcases bindLabel_eq_ok hlabel with ⟨-, rfl⟩ | ⟨name, -, ⟨-, rfl⟩ | ⟨_, -, -, rfl⟩⟩
    · rfl
    · rfl
    · split
      · rfl
      · exact published_modifyTable (fun _ => SymbolTable.published_assign _) j
  have hrefer : ∀ (l : Linker) (name : String),
      ((l.referToRoot table name).program.symbols.table j).published =
        (l.program.symbols.table j).published := by
    intro l name
    unfold referToRoot
    split
    · rfl
    · exact published_modifyTable (fun _ => SymbolTable.published_assign _) j
  rw [← hfirst]
  rcases bindOperand_eq_ok hoperand with ⟨-, rfl⟩ | ⟨name, -, hresolve⟩
  · rfl
  · rcases resolve_eq_some hresolve with ⟨-, rfl⟩ | ⟨-, -, l₂, rfl, ⟨-, rfl⟩ | ⟨-, himport⟩⟩
    · rfl
    · exact hrefer _ name
    · obtain ⟨ref, -, rfl⟩ := importToRoot_eq_some himport
      rw [hrefer]
      refine published_modifyTable (fun t => ?_) j
      refine Eq.trans (SymbolTable.published_update ?_) SymbolTable.published_mention
      exact fun _ => ⟨rfl, rfl⟩

/-- Linking lines leaves alone what the root exports. -/
lemma Links.published_root (h : Links p id table l lines l' lines') :
    (l'.program.symbols.table p.rootTable).published =
      (l.program.symbols.table p.rootTable).published := by
  induction h with
  | nil => rfl
  | plain _ _ hbind _ _ ih => exact ih.trans (hbind.published_eq _)
  | call hholds _ _ _ hbind _ _ ihbody ihrest =>
    have hholds₁ := hholds.binds hbind
    have hlt := Nat.lt_of_lt_of_le hholds₁.rootTable_lt hholds₁.size_symbols_le
    rw [symbols_copyFor, SymbolStore.table_push_of_lt _ hlt] at ihbody
    rw [ihrest, symbols_store, ihbody, hbind.published_eq]

end Linker

namespace Program

open Linker (Links)

variable {p p' q : Program} {lib lib' : MacroLibrary} {text : String} {kind : ModuleKind}
  {exports : Option (List ExportedSymbol)} {options : Options} {emits : Bool} {lo hi table : Nat}
  {a a' b : Int} {line : Line} {lines lines' : List Line} {name : String}

/-! ### Relocation keeps what is exported -/

lemma published_moveLabel (line : Line) (a : Int) (j : Nat) :
    ((p.moveLabel table line a).symbols.table j).published = (p.symbols.table j).published := by
  unfold moveLabel
  split
  · rfl
  · split
    · rfl
    · exact SymbolStore.published_modify (fun _ => SymbolTable.published_assign _) j

lemma Lays.published_eq (h : Lays emits lo hi table p a lines p' a' lines') (j : Nat) :
    (p'.symbols.table j).published = (p.symbols.table j).published := by
  induction h with
  | nil => rfl
  | plain _ _ ih => rw [ih, published_moveLabel]
  | call _ _ _ _ ihbody ihrest => exact ihrest.trans (ihbody.trans (published_moveLabel _ _ j))

lemma LaysBefore.published_eq (h : LaysBefore lo hi table p b lines p' a lines') (j : Nat) :
    (p'.symbols.table j).published = (p.symbols.table j).published := by
  induction h with
  | nil => rfl
  | plain _ _ _ _ ih => rw [published_moveLabel, ih]
  | call _ _ _ _ _ hbody ih =>
    exact (hbody.published_eq j).trans ((published_moveLabel _ _ j).trans ih)

lemma Relocates.published_eq {start below : Int} (h : Relocates p q lo start below) (j : Nat) :
    (q.symbols.table j).published = (p.symbols.table j).published := by
  obtain ⟨_, _, _, _, _, _, hlays, hbefore, -, -, -, hsymbols, -⟩ := h.layout
  rw [hsymbols, hbefore.published_eq, hlays.published_eq]

/-! ### Assembled programs -/

section Assembled

variable {p₁ : Program} (hfind : (ofSource text kind).findIncludes lib = (p₁, []))
  (hassemble : p₁.assemble lib = (p, lib', []))

include hfind hassemble

/-- The root of an assembled program exports what its own lines export. -/
lemma mem_published_of_assemble :
    name ∈ (p.symbols.table root).published ↔
      ∃ line ∈ (p.inst root).lines, line.statement.published? = some name := by
  obtain ⟨hp, -, -, s, rfl, -, h⟩ := assembling_of_assemble hfind hassemble
  have hroot : (s.program.inst root).assembled = true := h.root_done.resolve_right List.not_mem_nil
  rw [(h.done root hp.root_lt hroot).table_eq, Line.mem_published_lines]
  exact or_iff_right List.not_mem_nil

/-- A macro that the assembly adds to the library is offered by a line of an instance that can be
reached. -/
lemma offered_of_assemble {m : Macro} (hm : m ∈ lib'.macros) :
    m ∈ lib.macros ∨ ∃ id, p.Reaches root id ∧ ∃ line ∈ (p.inst id).lines, line.statement.Offers m := by
  obtain ⟨-, -, -, s, rfl, rfl, h⟩ := assembling_of_assemble hfind hassemble
  refine (h.offered m hm).imp_right ?_
  rintro ⟨id, hid, hdone, hline⟩
  exact ⟨id, h.reached id hid (.inl hdone), hline⟩

end Assembled

/-! ### Linked operating systems -/

/-- The same calls reach the same instances. -/
lemma SameCalls.reachable_eq (h : SameCalls p q) (id : Nat) : q.reachable id = p.reachable id := by
  have hlevels : ∀ (n : Nat) (ids : List Nat), q.levels n ids = p.levels n ids := by
    intro n
    induction n with
    | zero => exact fun _ => rfl
    | succ n ih =>
      intro ids
      rw [levels, levels, ih, funext h.callsOf_eq]
  rw [reachable, reachable, h.size_eq, hlevels]

/-- An operating system imports nothing. -/
lemma Ready.start_system (h : Ready text .operatingSystem lib p) (exports : Option (List ExportedSymbol)) :
    Linker.start p exports = { program := p } := by
  have hsystem : p.isSystem = true := by
    rw [isSystem, h.root_kind]
    rfl
  unfold Linker.start
  split
  · rfl
  · rw [if_pos hsystem]

section Linked

variable (h : Ready text .operatingSystem lib p) (hlink : p.link exports options = (q, []))

include h hlink

/-- The root of a linked operating system exports what it did before. -/
lemma Ready.published_linked :
    (q.symbols.table q.rootTable).published = (p.symbols.table root).published := by
  obtain ⟨l, lines, hlinks, hfinish⟩ := h.exists_links hlink
  obtain ⟨-, below, hrelocates⟩ := h.relocates hlinks hfinish
  have hroot := hlinks.published_root
  rw [h.rootTable_start, h.start_system] at hroot
  rw [(h.linked hlink).2.root_table, hrelocates.published_eq]
  exact hroot

/-- The root of a linked operating system has its lines, up to addresses. -/
lemma Ready.shapes_linked_root :
    (q.inst root).lines.map Line.shape = (p.inst root).lines.map Line.shape := by
  obtain ⟨l, lines, hlinks, hfinish⟩ := h.exists_links hlink
  obtain ⟨-, below, hrelocates⟩ := h.relocates hlinks hfinish
  rw [(hrelocates.shapes root).1, inst_root_store hlinks]
  exact hlinks.shapes

/-- The root of a linked operating system exports what its lines export. -/
lemma Ready.mem_published_of_link {p₁ : Program}
    (hfind : (ofSource text .operatingSystem).findIncludes lib = (p₁, []))
    (hassemble : p₁.assemble lib = (p, lib', [])) :
    name ∈ (q.symbols.table q.rootTable).published ↔
      ∃ line ∈ (q.inst root).lines, line.statement.published? = some name := by
  have hshapes := h.shapes_linked_root hlink
  rw [h.published_linked hlink, mem_published_of_assemble hfind hassemble]
  constructor
  · rintro ⟨line, hline, hname⟩
    obtain ⟨linked, hlinked, hshape⟩ := exists_shape_eq hshapes.symm hline
    exact ⟨linked, hlinked, by rwa [Statement.published?_of_shape (congrArg Line.statement hshape)]⟩
  · rintro ⟨line, hline, hname⟩
    obtain ⟨before, hbefore, hshape⟩ := exists_shape_eq hshapes hline
    exact ⟨before, hbefore, by rwa [Statement.published?_of_shape (congrArg Line.statement hshape)]⟩

/-- Every instance that can be reached is in the expansion of the linked operating system, up to
addresses. -/
lemma Ready.exists_copy_of_reaches {id : Nat} (hreach : p.Reaches root id) :
    ∃ j ∈ q.reachable root, (q.inst j).lines.map Line.shape = (p.inst id).lines.map Line.shape := by
  have hspans := (h.linked hlink).1
  rcases hreach.cases_head with rfl | ⟨t, hcalls, hreach⟩
  · exact ⟨root, (hspans.mem_reachable_iff h.root_lt).2 (.inl rfl), h.shapes_linked_root hlink⟩
  · obtain ⟨l, lines, hlinks, hfinish⟩ := h.exists_links hlink
    obtain ⟨-, below, hrelocates⟩ := h.relocates hlinks hfinish
    obtain ⟨line, hline, ht⟩ := List.mem_filterMap.1 hcalls
    obtain ⟨j, hlo, hhi, hcopy⟩ := hlinks.exists_copy hline ht (by rwa [reaches_start])
    rw [instances_start] at hlo
    have hsize : j < q.instances.size := by rwa [hrelocates.size_eq, Linker.size_store]
    refine ⟨j, (hspans.mem_reachable_iff h.root_lt).2 (.inr ⟨hlo, hsize⟩), ?_⟩
    rw [(hrelocates.shapes j).1,
      Linker.inst_store_ne (Nat.ne_of_gt (Nat.lt_of_lt_of_le h.root_lt hlo)), hcopy.shapes, inst_start]

end Linked

end Program

end Pep10
