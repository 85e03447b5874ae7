import Pep10.Proofs.Program.Assembly
import Pep10.Proofs.Program.Placement
import Pep10.Program.Relocation

/-!
# The first pass of linking

`Linked` says that a source text goes through all phases without a report.  For user programs
linking is over with the first pass; operating systems are relocated behind it.  `FirstPass`
collects what is known of the lines in between: which instances there are, that lines have kept
their shapes, and that the lines of the expansion stand one behind the other from zero on.
-/

namespace Pep10.Program

open Linker (Links Holds)

variable {p q : Program} {lib : MacroLibrary} {text : String} {kind : ModuleKind}
  {exports : Option (List ExportedSymbol)} {options : Options}

/-- The program that a source text becomes when all phases succeed. -/
def Linked (text : String) (kind : ModuleKind) (lib : MacroLibrary)
    (exports : Option (List ExportedSymbol)) (options : Options) (q : Program) : Prop :=
  ∃ p₁ p₂ lib', (ofSource text kind).findIncludes lib = (p₁, []) ∧
    p₁.assemble lib = (p₂, lib', []) ∧ p₂.link exports options = (q, [])

/-- All phases one after the other, whatever they report. -/
def throughPhases (text : String) (kind : ModuleKind) (lib : MacroLibrary)
    (exports : Option (List ExportedSymbol)) (options : Options) : Program × List Report :=
  let found := (ofSource text kind).findIncludes lib
  let assembled := found.1.assemble lib
  let linked := assembled.1.link exports options
  (linked.1, found.2 ++ assembled.2.2 ++ linked.2)

/-- A program is linked if no phase has anything to report. -/
lemma linked_of_throughPhases (h : (throughPhases text kind lib exports options).2 = []) :
    Linked text kind lib exports options (throughPhases text kind lib exports options).1 := by
  unfold throughPhases at h ⊢
  dsimp only at h ⊢
  rw [List.append_eq_nil_iff, List.append_eq_nil_iff] at h
  rcases hfind : (ofSource text kind).findIncludes lib with ⟨p₁, found⟩
  rw [hfind] at h
  rcases hassemble : p₁.assemble lib with ⟨p₂, lib', assembled⟩
  rw [hassemble] at h
  rcases hlink : p₂.link exports options with ⟨q, linked⟩
  rw [hlink] at h
  obtain ⟨⟨rfl, rfl⟩, rfl⟩ := h
  exact ⟨p₁, p₂, lib', hfind, hassemble, hlink⟩

/-! ### The start -/

lemma instances_start : (Linker.start p exports).program.instances = p.instances := by
  unfold Linker.start
  split
  · rfl
  · split <;> rfl

lemma modules_start : (Linker.start p exports).program.modules = p.modules := by
  unfold Linker.start
  split
  · rfl
  · split <;> rfl

lemma inst_start (id : Nat) : (Linker.start p exports).program.inst id = p.inst id := by
  rw [inst, inst, instances_start]

lemma next_start : (Linker.start p exports).next = 0 := by
  unfold Linker.start
  split
  · rfl
  · split <;> rfl

lemma size_symbols_start :
    p.symbols.size ≤ (Linker.start p exports).program.symbols.size := by
  unfold Linker.start
  split
  · exact Nat.le_refl _
  · split
    · exact Nat.le_refl _
    · simp

lemma overflowed_start : (Linker.start p exports).overflowed = false := by
  unfold Linker.start
  split
  · rfl
  · split <;> rfl

/-- What linking needs to know of the root: the first instance, table and module are its own. -/
structure Rooted (p : Program) (kind : ModuleKind) : Prop where
  root_lt : root < p.instances.size
  root_table : p.rootTable = root
  table_lt : root < p.symbols.size
  root_kind : (p.module root).kind = kind

lemma Ready.rooted (h : Ready text kind lib p) : p.Rooted kind where
  root_lt := h.root_lt
  root_table := h.table_eq root h.root_lt
  table_lt := by
    rw [h.sizes]
    exact h.root_lt
  root_kind := h.root_kind

lemma Rooted.rootTable_start (h : p.Rooted kind) (exports : Option (List ExportedSymbol)) :
    (Linker.start p exports).program.rootTable = root := by
  rw [rootTable, inst_start]
  exact h.root_table

/-- The invariant of linking holds at the start. -/
lemma Rooted.holds (h : p.Rooted kind) (exports : Option (List ExportedSymbol)) :
    Holds (Linker.start p exports).program root root (Linker.start p exports) := by
  have hroot := h.rootTable_start exports
  have hlt : root < (Linker.start p exports).program.instances.size := by
    rw [instances_start]
    exact h.root_lt
  refine ⟨Nat.le_refl _, rfl, fun _ _ => rfl, fun _ _ _ => rfl, ?_, fun _ => rfl,
    fun _ => rfl, .inl ⟨rfl, hroot.symm⟩, hlt, ?_, overflowed_start⟩
  · intro j hj hj'
    omega
  · rw [hroot]
    exact Nat.lt_of_lt_of_le h.table_lt size_symbols_start

lemma Ready.holds (h : Ready text kind lib p) (exports : Option (List ExportedSymbol)) :
    Holds (Linker.start p exports).program root root (Linker.start p exports) :=
  h.rooted.holds exports

/-- Linking the root of a program that is ready is linking in the sense of the relation. -/
lemma Ready.links (h : Ready text kind lib p) {l : Linker}
    (hlink : Linker.linkInstance p.instances.size (Linker.start p exports) root = (l, [])) :
    ∃ l₁ lines, Links (Linker.start p exports).program root root (Linker.start p exports)
      (p.inst root).lines l₁ lines ∧ l = l₁.store root lines := by
  obtain ⟨rank, hrank⟩ := h.ranked
  have hbelow : ∀ j < (Linker.start p exports).program.instances.size,
      (Linker.start p exports).program.CallsBelow rank (rank j)
        ((Linker.start p exports).program.inst j).lines := by
    intro j hj
    rw [instances_start] at hj
    rw [inst_start]
    intro line hline target ht
    rw [instances_start]
    exact (hrank j hj).2 line hline target ht
  have hroot : root < (Linker.start p exports).program.instances.size := by
    rw [instances_start]
    exact h.root_lt
  obtain ⟨l₁, lines, hlinks, hstore⟩ := Linker.childLinks_linkInstance hbelow p.instances.size hroot
    (hrank root h.root_lt).1 (h.holds exports) rfl (by rw [inst_start, h.table_eq root h.root_lt])
    hlink
  rw [inst_start] at hlinks
  exact ⟨l₁, lines, hlinks, hstore⟩

/-- Linking succeeds if the first pass does, and what comes behind it. -/
lemma link_eq_nil (h : p.link exports options = (q, [])) :
    ∃ l, Linker.linkInstance p.instances.size (Linker.start p exports) root = (l, []) ∧
      l.program.finishLink l.next options = (q, []) := by
  unfold link at h
  rcases hlink : Linker.linkInstance p.instances.size (Linker.start p exports) root
    with ⟨l, faults⟩
  rw [hlink] at h
  cases faults with
  | cons fault faults =>
    simp only [List.isEmpty_cons, Bool.false_eq_true, if_false, Prod.mk.injEq,
      List.map_cons] at h
    cases h.2
  | nil =>
    simp only [List.isEmpty_nil, if_true, Prod.mk.injEq, List.map_eq_nil_iff] at h
    refine ⟨l, rfl, Prod.ext ?_ h.2⟩
    rw [← h.1, h.2]
    rfl

/-! ### Behind the first pass -/

/-- What the first pass makes of the lines of a program `p`, the root being linked to the end and
`next` bytes having been placed. -/
structure FirstPass (p q : Program) (next : Nat) : Prop where
  size_le : p.instances.size ≤ q.instances.size
  spans : q.Spans p.instances.size (q.inst root).lines q.instances.size
  root_shapes : (q.inst root).lines.map Line.shape = (p.inst root).lines.map Line.shape
  copies : ∀ j, p.instances.size ≤ j → j < q.instances.size →
    ∃ t, (p.inst t).assembled = true ∧ Links.CopyOf p t (q.inst j)
  placed : ∃ e, q.Expands (q.inst root).lines e ∧ Contiguous 0 e ∧ next = room e
  next_le : next ≤ 0xFFFF

/-- Every line of a program that is ready has a size that does not depend on the symbols. -/
lemma Ready.regular (h : Ready text kind lib p) {id : Nat} (hid : id < p.instances.size) {line : Line}
    (hline : line ∈ (p.inst id).lines) : line.statement.Regular := by
  obtain ⟨lib', n, hyields⟩ := h.yields hid hline
  exact hyields.regular

/-- The root behind the first pass. -/
lemma inst_root_store {l : Linker} {lines lines' : List Line}
    (hlinks : Links (Linker.start p exports).program root root (Linker.start p exports)
      lines l lines') :
    (l.store root lines').program.inst root = Linker.withLines lines' (p.inst root) := by
  have hholds := hlinks.holds'
  rw [Linker.inst_store_self (Nat.lt_of_lt_of_le hholds.root_lt hholds.size_le),
    hholds.inst_eq root hholds.root_lt, inst_start]

/-- The instances that the first pass adds are those that the root calls, directly or not. -/
lemma Rooted.spans_store (h : p.Rooted kind) {l : Linker} {lines : List Line}
    (hlinks : Links (Linker.start p exports).program root root (Linker.start p exports)
      (p.inst root).lines l lines) :
    Spans (l.store root lines).program p.instances.size ((l.store root lines).program.inst root).lines
      (l.store root lines).program.instances.size := by
  have hspans := hlinks.spans
  rw [instances_start] at hspans
  rw [Linker.size_store, inst_root_store hlinks]
  refine hspans.congr fun j hj _ => ?_
  rw [Linker.inst_store_ne (Nat.ne_of_gt (Nat.lt_of_lt_of_le h.root_lt hj))]

/-- The first pass, when it succeeds. -/
theorem Ready.firstPass (h : Ready text kind lib p) {l₁ : Linker} {lines : List Line}
    (hlinks : Links (Linker.start p exports).program root root (Linker.start p exports)
      (p.inst root).lines l₁ lines) :
    FirstPass p (l₁.store root lines).program (l₁.store root lines).next := by
  have hsize := hlinks.size_le
  have hspans := hlinks.spans
  rw [instances_start] at hsize hspans
  have hother : ∀ j, p.instances.size ≤ j →
      (l₁.store root lines).program.inst j = l₁.program.inst j := by
    intro j hj
    exact Linker.inst_store_ne (Nat.ne_of_gt (Nat.lt_of_lt_of_le h.root_lt hj))
  have hself : ((l₁.store root lines).program.inst root).lines = lines := by
    rw [inst_root_store hlinks]
    rfl
  have hnext : (Linker.start p exports).next ≤ 0xFFFF := by
    rw [next_start]
    exact Nat.zero_le _
  obtain ⟨e, hexp, hcont, hend⟩ := hlinks.contiguous hnext
    (fun line hline => h.regular h.root_lt hline) fun j hj line hline => by
      rw [instances_start] at hj
      rw [inst_start] at hline
      exact h.regular hj hline
  rw [next_start] at hcont hend
  refine ⟨?_, h.rooted.spans_store hlinks, ?_, ?_, ⟨e, ?_, hcont, by simpa using hend⟩, hlinks.next_le hnext⟩
  · rw [Linker.size_store]
    exact hsize
  · rw [hself, hlinks.shapes]
  · intro j hj hj'
    rw [Linker.size_store] at hj'
    obtain ⟨t, hdone, ht⟩ := hlinks.copies
      (by simpa only [inst_start] using h.target_assembled root h.root_lt)
      (by simpa only [inst_start, instances_start] using h.target_assembled) (by rwa [instances_start]) hj'
    rw [hother j hj]
    exact ⟨t, by simpa only [inst_start] using hdone, ht.ne_root, by simpa only [instances_start] using ht.lt_size,
      by simpa only [inst_start] using ht.moduleId_eq, by simpa only [inst_start] using ht.args_eq,
      by simpa only [inst_start] using ht.shapes⟩
  · rw [hself]
    exact hspans.expands_congr (fun j hj _ => by rw [hother j hj]) hexp

namespace FirstPass

variable {next : Nat}

/-- The lines at the sites are the expansion of the root. -/
lemma expands_sites (h : FirstPass p q next) (hroot : root < p.instances.size) :
    q.Expands (q.inst root).lines ((q.sites root).map Site.line) := by
  obtain ⟨depth, hdepth, hsites⟩ := h.spans.sites_eq hroot
  rw [hsites]
  exact h.spans.expands_sites hdepth

/-- A line at a site has the shape of a line that was there before. -/
lemma exists_shape (h : FirstPass p q next) (hroot : root < p.instances.size) {site : Site}
    (hsite : site ∈ q.sites root) :
    ∃ t < p.instances.size, ∃ line ∈ (p.inst t).lines, line.shape = site.line.shape := by
  obtain ⟨depth, hdepth, hsites⟩ := h.spans.sites_eq hroot
  rw [hsites] at hsite
  rcases h.spans.mem_sites hdepth hsite with ⟨-, hmem⟩ | ⟨hlo, hhi, hmem⟩
  · exact ⟨root, hroot, exists_shape_eq h.root_shapes hmem⟩
  · obtain ⟨t, -, ht⟩ := h.copies _ hlo hhi
    exact ⟨t, ht.lt_size, exists_shape_eq ht.shapes hmem⟩

end FirstPass

/-- Lines that have been linked have sizes that do not depend on the symbols. -/
lemma Ready.regular_of_shape (h : Ready text kind lib p) {t : Nat} (ht : t < p.instances.size)
    {line line' : Line} (hline : line ∈ (p.inst t).lines) (hshape : line.shape = line'.shape) :
    line'.statement.Regular := by
  have hst : line.statement.shape = line'.statement.shape := congrArg Line.statement hshape
  rw [← Statement.regular_shape, ← hst, Statement.regular_shape]
  exact h.regular ht hline

/-- All lines behind the first pass have sizes that do not depend on the symbols. -/
lemma Ready.regular_pass {next : Nat} (h : Ready text kind lib p) (hpass : FirstPass p q next)
    {j : Nat} (hj : j = root ∨ (p.instances.size ≤ j ∧ j < q.instances.size)) {line : Line}
    (hline : line ∈ (q.inst j).lines) : line.statement.Regular := by
  rcases hj with rfl | ⟨hlo, hhi⟩
  · exact regular_of_shapes (fun line hline => h.regular h.root_lt hline) hpass.root_shapes line hline
  · obtain ⟨t, -, ht⟩ := hpass.copies j hlo hhi
    exact regular_of_shapes (fun line hline => h.regular ht.lt_size hline) ht.shapes line hline

/-- The instances behind the first pass are the root and copies: each has the lines of an assembled
instance, up to addresses, and its source. -/
lemma Ready.exists_origin (h : Ready text kind lib p) {l : Linker} {lines : List Line}
    (hlinks : Links (Linker.start p exports).program root root (Linker.start p exports)
      (p.inst root).lines l lines) {j : Nat}
    (hj : j = root ∨ (p.instances.size ≤ j ∧ j < (l.store root lines).program.instances.size)) :
    ∃ t < p.instances.size, (p.inst t).assembled = true ∧
      ((l.store root lines).program.inst j).lines.map Line.shape = (p.inst t).lines.map Line.shape ∧
      (l.store root lines).program.sourceOf j = p.sourceOf t := by
  have hpass := h.firstPass hlinks
  have hsource : ∀ m, ((l.store root lines).program.module m).lines = (p.module m).lines := by
    intro m
    change (l.program.module m).lines = _
    rw [hlinks.holds'.source_eq, Program.module, Program.module, modules_start]
  rcases hj with rfl | ⟨hlo, hhi⟩
  · refine ⟨root, h.root_lt, h.root_assembled, hpass.root_shapes, ?_⟩
    rw [sourceOf, sourceOf, hsource, inst_root_store hlinks]
    rfl
  · obtain ⟨t, hdone, ht⟩ := hpass.copies j hlo hhi
    refine ⟨t, ht.lt_size, hdone, ht.shapes, ?_⟩
    rw [sourceOf, sourceOf, hsource, ht.moduleId_eq, ht.args_eq]

/-- All lines emit code before linking. -/
lemma Ready.emits (h : Ready text kind lib p) {id : Nat} (hid : id < p.instances.size) :
    ∀ line ∈ (p.inst id).lines, line.emits = true := by
  intro line hline
  obtain ⟨lib', n, hyields⟩ := h.yields hid hline
  exact hyields.emits_eq

/-- All lines behind the first pass emit code. -/
lemma Ready.emits_pass (h : Ready text kind lib p) {l : Linker} {lines : List Line}
    (hlinks : Links (Linker.start p exports).program root root (Linker.start p exports)
      (p.inst root).lines l lines) {j : Nat}
    (hj : j = root ∨ (p.instances.size ≤ j ∧ j < l.program.instances.size)) :
    ∀ line ∈ ((l.store root lines).program.inst j).lines, line.emits = true := by
  obtain ⟨hroot, hcopies⟩ := hlinks.emits (h.emits h.root_lt) fun j hj => by
    rw [instances_start] at hj
    rw [inst_start]
    exact h.emits hj
  rw [instances_start] at hcopies
  rcases hj with rfl | ⟨hlo, hhi⟩
  · rw [inst_root_store hlinks]
    exact hroot
  · rw [Linker.inst_store_ne (Nat.ne_of_gt (Nat.lt_of_lt_of_le h.root_lt hlo))]
    exact hcopies j hlo hhi

/-! ### All phases -/

/-- Linking keeps the kind of a program. -/
lemma isSystem_of_holds {id table : Nat} {l : Linker}
    (h : Holds (Linker.start p exports).program id table l) : l.program.isSystem = p.isSystem := by
  rw [isSystem, isSystem, h.kind_eq, Program.module, Program.module, modules_start]

/-- If a program that is ready is linked, then its root is linked, and what comes behind that
succeeds. -/
lemma Ready.exists_links (h : Ready text kind lib p) (hlink : p.link exports options = (q, [])) :
    ∃ l lines, Links (Linker.start p exports).program root root (Linker.start p exports)
        (p.inst root).lines l lines ∧
      (l.store root lines).program.finishLink l.next options = (q, []) := by
  obtain ⟨l, hpass, hfinish⟩ := link_eq_nil hlink
  obtain ⟨l₁, lines, hlinks, rfl⟩ := h.links hpass
  exact ⟨l₁, lines, hlinks, hfinish⟩

/-- A source text that goes through all phases gives a program that is ready, and whose root is then
linked. -/
theorem Linked.exists_links (h : Linked text kind lib exports options q) :
    ∃ p l lines, Ready text kind lib p ∧
      Links (Linker.start p exports).program root root (Linker.start p exports)
        (p.inst root).lines l lines ∧
      (l.store root lines).program.finishLink l.next options = (q, []) := by
  obtain ⟨p₁, p, lib', hfind, hassemble, hlink⟩ := h
  have hready := ready_of_assemble hfind hassemble
  obtain ⟨l, lines, hlinks, hfinish⟩ := hready.exists_links hlink
  exact ⟨p, l, lines, hready, hlinks, hfinish⟩

/-- A program that is no operating system is none when its root has been linked. -/
lemma Ready.isSystem_store (h : Ready text kind lib p) (hkind : kind ≠ .operatingSystem) {l : Linker}
    {lines : List Line}
    (hlinks : Links (Linker.start p exports).program root root (Linker.start p exports)
      (p.inst root).lines l lines) : (l.store root lines).program.isSystem = false := by
  change l.program.isSystem = false
  rw [isSystem_of_holds hlinks.holds', isSystem, h.root_kind]
  simpa using hkind

/-- For a program that is no operating system nothing comes behind the first pass. -/
lemma Ready.eq_of_finishLink (h : Ready text kind lib p) (hkind : kind ≠ .operatingSystem) {l : Linker}
    {lines : List Line}
    (hlinks : Links (Linker.start p exports).program root root (Linker.start p exports)
      (p.inst root).lines l lines)
    (hfinish : (l.store root lines).program.finishLink l.next options = (q, [])) :
    q = (l.store root lines).program := by
  rw [finishLink, h.isSystem_store hkind hlinks] at hfinish
  exact (congrArg Prod.fst hfinish).symm

/-- A program that is no operating system has been linked when the first pass is over. -/
theorem Linked.exists_links_user (h : Linked text kind lib exports options q)
    (hkind : kind ≠ .operatingSystem) :
    ∃ p l lines, Ready text kind lib p ∧
      Links (Linker.start p exports).program root root (Linker.start p exports)
        (p.inst root).lines l lines ∧ q = (l.store root lines).program := by
  obtain ⟨p, l, lines, hready, hlinks, hfinish⟩ := h.exists_links
  exact ⟨p, l, lines, hready, hlinks, hready.eq_of_finishLink hkind hlinks hfinish⟩

end Pep10.Program
