import Pep10.Proofs.Line.CallFree
import Pep10.Proofs.Program.Linkable
import Pep10.Proofs.Symbol.Relabeling

/-!
# Programs without calls

A user program without calls consists of its root alone.  `LaidOut` says of some lines that they are
what linking can make of such a program: they stand one behind the other from zero on, their labels
are different and not exported, and their operands are labels or exports.  A source text that is
read as lines of these shapes goes through all phases, and its lines become the given ones
(`LaidOut.linked`).
-/

namespace Pep10

/-! ### Numbers -/

/-- The lines with numbers in ascending order. -/
def numberedFrom : Nat → List Line → List Line
  | _, [] => []
  | n, line :: rest => { line with number := n } :: numberedFrom (n + 1) rest

section Numbers

variable {n : Nat} {a : Int} {line : Line} {lines : List Line}

lemma Contiguous.numberedFrom (h : Contiguous a lines) : Contiguous a (numberedFrom n lines) := by
  induction lines generalizing n a with
  | nil => trivial
  | cons line lines ih =>
    refine ⟨?_, ih h.2⟩
    exact congrArg (fun line : Line => { line with number := n }) h.1

lemma room_numberedFrom : room (numberedFrom n lines) = room lines := by
  induction lines generalizing n with
  | nil => rfl
  | cons line lines ih => rw [numberedFrom, room_cons, room_cons, ih]

lemma labels_numberedFrom : (numberedFrom n lines).filterMap Line.label = lines.filterMap Line.label := by
  induction lines generalizing n with
  | nil => rfl
  | cons line lines ih => rw [numberedFrom, List.filterMap_cons, List.filterMap_cons, ih]

lemma exists_mem_numberedFrom (h : line ∈ lines) :
    ∃ m, { line with number := m } ∈ numberedFrom n lines := by
  induction lines generalizing n with
  | nil => cases h
  | cons first lines ih =>
    rcases List.mem_cons.1 h with rfl | h
    · exact ⟨n, List.mem_cons_self⟩
    · obtain ⟨m, hm⟩ := ih h (n := n + 1)
      exact ⟨m, List.mem_cons_of_mem _ hm⟩

lemma exists_of_mem_numberedFrom (h : line ∈ numberedFrom n lines) :
    ∃ m, ∃ other ∈ lines, line = { other with number := m } := by
  induction lines generalizing n with
  | nil => cases h
  | cons first lines ih =>
    rcases List.mem_cons.1 h with rfl | h
    · exact ⟨n, first, List.mem_cons_self, rfl⟩
    · obtain ⟨m, other, hother, heq⟩ := ih h
      exact ⟨m, other, List.mem_cons_of_mem _ hother, heq⟩

lemma code_numberedFrom (symbols : SymbolStore) (table : Nat) :
    (numberedFrom n lines).flatMap (Line.code symbols table) =
      lines.flatMap (Line.code symbols table) := by
  induction lines generalizing n with
  | nil => rfl
  | cons line lines ih =>
    rw [numberedFrom, List.flatMap_cons, List.flatMap_cons, ih]
    rfl

/-- What lines declare does not depend on their numbers. -/
lemma DeclaredAs.of_numberedFrom {name : String} {v : UInt16}
    (h : DeclaredAs (numberedFrom n lines) name v) : DeclaredAs lines name v := by
  obtain ⟨⟨line, hline, hname⟩, hgives⟩ := h
  obtain ⟨m, other, hother, rfl⟩ := exists_of_mem_numberedFrom hline
  refine ⟨⟨other, hother, hname⟩, fun line hline hname => ?_⟩
  obtain ⟨m, hm⟩ := exists_mem_numberedFrom (n := n) hline
  exact hgives { line with number := m } hm hname

lemma Undeclared.of_numberedFrom {name : String} (h : Undeclared (Pep10.numberedFrom n lines) name) :
    Undeclared lines name := by
  intro line hline hname
  obtain ⟨m, hm⟩ := exists_mem_numberedFrom (n := n) hline
  exact h { line with number := m } hm hname

end Numbers

namespace Program

variable {p q : Program} {lib : MacroLibrary} {text : String} {kind : ModuleKind} {number : Nat}
  {exports : Option (List ExportedSymbol)} {options : Options} {sources : List String}
  {lines before : List Line} {line last : Line}

/-! ### Finding no calls -/

lemma searchLines_of_ofLine? {m : Nat} (h : ∀ source ∈ sources, MacroCall.ofLine? source = .ok none) :
    searchLines lib m number sources p = (p, none) := by
  induction sources generalizing number with
  | nil => rfl
  | cons source sources ih =>
    rw [List.forall_mem_cons] at h
    have hline : p.searchLine lib m number source = .ok p := by rw [searchLine, h.1]
    rw [searchLines, hline]
    exact ih h.2

/-- A text without calls includes nothing. -/
lemma findIncludes_of_ofLine?
    (h : ∀ source ∈ Text.lines text, MacroCall.ofLine? source = .ok none) :
    (ofSource text kind).findIncludes lib = (ofSource text kind, []) := by
  have hprune : (ofSource text kind).includes.prune.isEmpty = true := rfl
  have hsearch : searchModules lib ((ofSource text kind).modules.size + lib.macros.length) 0
      (ofSource text kind) = (ofSource text kind, none) := by
    have hlines : searchLines lib 0 0 ((ofSource text kind).module 0).lines (ofSource text kind) =
        (ofSource text kind, none) := searchLines_of_ofLine? h
    rw [show (ofSource text kind).modules.size + lib.macros.length = lib.macros.length + 1 from
      Nat.add_comm .., searchModules, if_pos (by exact Nat.one_pos), hlines]
    cases lib.macros.length with
    | zero => rfl
    | succ n => rfl
  rw [findIncludes, hsearch]
  simp only [hprune, if_true]

/-! ### Reading -/

/-- In every user program the source line is read as a line of the given shape, which is no call. -/
def ReadsAs (source : String) (line : Line) : Prop :=
  ∃ read : Line, read.shape = line.shape ∧ read.statement.target? = none ∧
    ∀ (ctx : ReadContext) (number : Nat), ctx.isSystem = false →
      ∃ marks, Reader.line ctx number (tokenize source) = ⟨marks, .ok { read with number }⟩

lemma ReadsAs.target? {source : String} (h : ReadsAs source line) : line.statement.target? = none := by
  obtain ⟨read, hshape, htarget, -⟩ := h
  exact Line.target?_of_shape hshape htarget

lemma ReadsAs.ofLine? {source : String} (h : ReadsAs source line) :
    MacroCall.ofLine? source = .ok none := by
  obtain ⟨read, -, htarget, hread⟩ := h
  obtain ⟨marks, hline⟩ := hread ⟨false, ⟨[]⟩, fun _ _ => none⟩ 0 rfl
  exact ofLine?_of_line hline htarget

/-- Source lines that are read as lines of certain shapes, the last of which ends the module, are
read as such. -/
lemma readLines_of_readsAs (hsystem : p.isSystem = false) (number : Nat) (draft : Draft)
    (h : List.Forall₂ ReadsAs sources (before ++ [last]))
    (hbefore : ∀ line ∈ before, line.statement ≠ .endMark) (hlast : last.statement = .endMark) :
    ∃ draft' read, p.readLines number sources draft = (draft', .ok read) ∧
      read.map Line.shape = (numberedFrom number (before ++ [last])).map Line.shape := by
  have hctx : ∀ lib, (p.readContext lib).isSystem = false := fun _ => hsystem
  induction before generalizing sources number draft with
  | nil =>
    cases h with
    | cons hline hrest =>
      cases hrest
      obtain ⟨read, hshape, -, hread⟩ := hline
      obtain ⟨marks, hread⟩ := hread _ number (hctx draft.library)
      refine ⟨marks.foldl Draft.enter draft, [{ read with number }], ?_, ?_⟩
      · rw [readLines, hread]
        exact if_pos (by simpa using (Line.endMark_iff_of_shape hshape).2 hlast)
      · exact congrArg (fun line : Line => [{ line with number }]) hshape
  | cons line before ih =>
    rw [List.forall_mem_cons] at hbefore
    cases h with
    | cons hline hrest =>
      obtain ⟨read, hshape, -, hread⟩ := hline
      obtain ⟨marks, hread⟩ := hread _ number (hctx draft.library)
      obtain ⟨draft', rest, hrest, hshapes⟩ :=
        ih (number + 1) (marks.foldl Draft.enter draft) hrest hbefore.2
      refine ⟨draft', { read with number } :: rest, ?_, ?_⟩
      · have hne : ¬(read.statement == .endMark) = true := by
          simpa using fun heq => hbefore.1 ((Line.endMark_iff_of_shape hshape).1 heq)
        rw [readLines, hread]
        simp only [hrest]
        exact if_neg hne
      · rw [List.cons_append, numberedFrom, List.map_cons, List.map_cons, hshapes]
        exact congrArg (fun line : Line => { line with number } :: _) hshape

/-- A text without calls is assembled when its lines have been read. -/
lemma assemble_of_readLines {draft : Draft}
    (h : (ofSource text kind).readLines 0 (Text.lines text) ⟨{}, lib⟩ = (draft, .ok lines))
    (htarget : ∀ line ∈ lines, line.statement.target? = none) :
    ∃ p', (ofSource text kind).assemble lib = (p', draft.library, []) ∧ (p'.inst root).lines = lines ∧
      p'.symbols.table root = draft.table ∧ p'.instances.size = 1 := by
  have hsource : (ofSource text kind).sourceOf root = Text.lines text :=
    (collected_ofSource text kind lib).sourceOf_root
  have hcalled : lines.filterMap (fun line => line.statement.target?) = [] := by
    rw [List.filterMap_eq_nil_iff]
    exact htarget
  have hroot : [root].foldl Progress.visit { program := ofSource text kind, library := lib } =
      { program := ((ofSource text kind).modifyTable root fun _ => draft.table).modifyInstance root
          fun i => { i with lines, burn := Burn.ofLines lines, assembled := true }
        library := draft.library } := by
    change Progress.assembleInstance { program := ofSource text kind, library := lib } root = _
    unfold Progress.assembleInstance
    dsimp only
    rw [hsource, show (ofSource text kind).symbols.table ((ofSource text kind).inst root).table = {}
      from (collected_ofSource text kind lib).tables root, h]
    dsimp only
    rw [hcalled]
    rfl
  -- One level is enough, since the root calls nothing.
  have hrun : Progress.run 2 [root] { program := ofSource text kind, library := lib } =
      [root].foldl Progress.visit { program := ofSource text kind, library := lib } := by
    rw [Progress.run]
    dsimp only
    rw [if_pos (by rw [hroot]; rfl)]
  rw [hroot] at hrun
  have hassemble : (ofSource text kind).assemble lib =
      (((ofSource text kind).modifyTable root fun _ => draft.table).modifyInstance root
        fun i => { i with lines, burn := Burn.ofLines lines, assembled := true },
        draft.library, []) := by
    unfold assemble
    rw [show (ofSource text kind).instances.size + 1 = 2 from rfl, hrun]
    rfl
  refine ⟨_, hassemble, congrArg Instance.lines (inst_modifyInstance_self Nat.one_pos), ?_,
    size_modifyInstance⟩
  exact SymbolStore.table_modify_self Nat.one_pos

/-! ### All phases -/

/-- Lines without calls as they are in a linked user program: they stand one behind the other from
zero on, the last one ends the module, their labels are different and not exported, and their
operands are labels or exports. -/
structure LaidOut (exports : List ExportedSymbol) (lines : List Line) : Prop where
  ends : ∃ before last, lines = before ++ [last] ∧
    (∀ line ∈ before, line.statement ≠ .endMark) ∧ last.statement = .endMark
  contiguous : Contiguous 0 lines
  room_le : room lines ≤ 0xFFFF
  emits : ∀ line ∈ lines, line.emits = true
  nodup : (lines.filterMap Line.label).Nodup
  unexported : ∀ name ∈ lines.filterMap Line.label, exportedValue? exports name = none
  resolvable : ∀ line ∈ lines, ∀ name, line.statement.symbol? = some name →
    name ∈ lines.filterMap Line.label ∨ ∃ v, exportedValue? exports name = some v

lemma target?_of_forall₂ (h : List.Forall₂ ReadsAs sources lines) :
    ∀ line ∈ lines, line.statement.target? = none := by
  induction h with
  | nil => exact fun _ hmem => absurd hmem List.not_mem_nil
  | cons hline _ ih => exact List.forall_mem_cons.2 ⟨hline.target?, ih⟩

lemma ofLine?_of_forall₂ (h : List.Forall₂ ReadsAs sources lines) :
    ∀ source ∈ sources, MacroCall.ofLine? source = .ok none := by
  induction h with
  | nil => exact fun _ hmem => absurd hmem List.not_mem_nil
  | cons hline _ ih => exact List.forall_mem_cons.2 ⟨hline.ofLine?, ih⟩

/-- A text without calls that is read as lines of the given shapes is assembled. -/
lemma LaidOut.assembled {exports : List ExportedSymbol} (h : LaidOut exports lines)
    (hreads : List.Forall₂ ReadsAs (Text.lines text) lines) (lib : MacroLibrary) :
    ∃ p lib', (ofSource text .userProgram).findIncludes lib = (ofSource text .userProgram, []) ∧
      (ofSource text .userProgram).assemble lib = (p, lib', []) ∧ p.instances.size = 1 ∧
      (p.inst root).lines.map Line.shape = (numberedFrom 0 lines).map Line.shape := by
  obtain ⟨before, last, hlines, hbefore, hlast⟩ := h.ends
  have hreads' := hreads
  rw [hlines] at hreads'
  obtain ⟨draft, read, hread, hshapes⟩ := readLines_of_readsAs (p := ofSource text .userProgram) rfl 0
    ⟨{}, lib⟩ hreads' hbefore hlast
  rw [← hlines] at hshapes
  have htarget : ∀ line ∈ read, line.statement.target? = none := by
    refine forall_of_shapes Line.target?_of_shape hshapes fun line hline => ?_
    obtain ⟨m, other, hother, rfl⟩ := exists_of_mem_numberedFrom hline
    exact target?_of_forall₂ hreads other hother
  obtain ⟨p, hassemble, hroot, -, hsize⟩ := assemble_of_readLines hread htarget
  exact ⟨p, draft.library, findIncludes_of_ofLine? (ofLine?_of_forall₂ hreads), hassemble, hsize,
    by rw [hroot, hshapes]⟩

/-- A program without calls consists of its root. -/
lemma eq_root_of_reaches {id : Nat} (htarget : ∀ line ∈ (p.inst root).lines, line.statement.target? = none)
    (h : p.Reaches root id) : id = root := by
  rcases h.cases_head with rfl | ⟨t, hcalls, -⟩
  · rfl
  · obtain ⟨line, hline, ht⟩ := List.mem_filterMap.1 hcalls
    rw [htarget line hline] at ht
    cases ht

/-- If the lines of the root have the shapes of the given ones, the program has no fault. -/
lemma LaidOut.linkable (h : LaidOut (availableExports kind exports) lines)
    (hready : Ready text kind lib p) {rank : Nat → Nat} (hdescends : p.Descends rank)
    (htarget : ∀ line ∈ lines, line.statement.target? = none)
    (hshapes : (p.inst root).lines.map Line.shape = (numberedFrom 0 lines).map Line.shape) :
    p.Linkable (availableExports kind exports) := by
  have hlabels : p.labels root = lines.filterMap Line.label := by
    rw [labels, labels_of_shapes hshapes, labels_numberedFrom]
  have htarget' : ∀ line ∈ (p.inst root).lines, line.statement.target? = none := by
    refine forall_of_shapes Line.target?_of_shape hshapes fun line hline => ?_
    obtain ⟨m, other, hother, rfl⟩ := exists_of_mem_numberedFrom hline
    exact htarget other hother
  constructor
  · intro id hreach
    rw [eq_root_of_reaches htarget' hreach, hlabels]
    exact h.nodup
  · intro e he hmem
    rw [hlabels] at hmem
    exact exportedValue?_eq_none_iff.1 (h.unexported e.name hmem) e he rfl
  · have hresolvable : ∀ line ∈ (p.inst root).lines, ∀ name, line.statement.symbol? = some name →
        name ∈ lines.filterMap Line.label ∨
          ∃ v, exportedValue? (availableExports kind exports) name = some v := by
      refine forall_of_shapes (fun hshape hline name hname => ?_) hshapes fun line hline => ?_
      · exact hline name (by rwa [Line.symbol?_of_shape hshape])
      · obtain ⟨m, other, hother, rfl⟩ := exists_of_mem_numberedFrom hline
        exact h.resolvable other hother
    intro id hreach line hline name hname
    rw [eq_root_of_reaches htarget' hreach] at hline ⊢
    rw [hlabels]
    rcases hresolvable line hline name hname with hmem | ⟨v, hv⟩
    · exact .inl hmem
    · exact .inr (.inr ⟨_, mem_of_exportedValue? hv, rfl⟩)
  · have hend : layoutEnd 0 (numberedFrom 0 lines) = 0 + room (numberedFrom 0 lines) :=
      h.contiguous.numberedFrom.layoutEnd_eq
    rw [room_numberedFrom] at hend
    have hle := h.room_le
    rw [(hdescends.expands_sites hready.root_lt).eq_of_plain htarget',
      layoutEnd_congr (fun line hline => hready.regular hready.root_lt hline) hshapes]
    omega

/-- A source text that is read as lines without calls, as they are in a linked user program, goes
through all phases, and its lines become the given ones. -/
lemma LaidOut.exists_linked (h : LaidOut (availableExports .userProgram exports) lines)
    (hreads : List.Forall₂ ReadsAs (Text.lines text) lines) (lib : MacroLibrary) (options : Options) :
    ∃ q, Linked text .userProgram lib exports options q ∧ q.instances.size = 1 ∧
      (q.inst root).lines = numberedFrom 0 lines ∧
      Resolved q 1 (availableExports .userProgram exports) := by
  have htarget := target?_of_forall₂ hreads
  obtain ⟨p, lib', hfind, hassemble, hsize, hshapes⟩ := h.assembled hreads lib
  have hready := ready_of_assemble hfind hassemble
  obtain ⟨rank, hdescends⟩ := descends_of_assemble hfind hassemble
  obtain ⟨l, lines', hlinks⟩ := (h.linkable hready hdescends htarget hshapes).exists_links hready hdescends
  have hlink := hready.link_eq options hlinks
  have hpass := hready.firstPass hlinks
  have hresolved := hready.resolved hlinks
  rw [hsize] at hresolved
  have hshapes' := hpass.root_shapes.trans hshapes
  have hnumbered : ∀ {P : Line → Prop}, (∀ line ∈ lines, ∀ m, P { line with number := m }) →
      ∀ line ∈ numberedFrom 0 lines, P line := by
    intro P hP line hline
    obtain ⟨m, other, hother, rfl⟩ := exists_of_mem_numberedFrom hline
    exact hP other hother m
  have htarget₀ := hnumbered (P := fun line => line.statement.target? = none) fun line hline _ =>
    htarget line hline
  have htarget' := forall_of_shapes Line.target?_of_shape hshapes' htarget₀
  refine ⟨_, ⟨_, p, lib', hfind, hassemble, hlink⟩, ?_, ?_, hresolved⟩
  · rw [hpass.spans.eq_of_plain htarget', hsize]
  · obtain ⟨e, hexpands, hcontiguous, -⟩ := hpass.placed
    rw [hexpands.eq_of_plain htarget'] at hcontiguous
    refine h.contiguous.numberedFrom.eq_of_shapes hcontiguous hshapes' ?_ htarget₀ ?_ ?_
    · exact regular_of_shapes (fun line hline => hready.regular hready.root_lt hline) hshapes.symm
    · exact hnumbered fun line hline _ => h.emits line hline
    · exact hready.emits_pass hlinks (.inl rfl)

/-- The lines of a program that consists of its root alone are its sites. -/
lemma map_line_sites (hsize : q.instances.size = 1) :
    (q.sites root).map (fun site => (site.owner, site.line)) = (q.inst root).lines.map (root, ·) := by
  have hsites : ∀ (lines : List Line) (index : Nat),
      (q.sitesOfLines 0 none root index lines).map (fun site => (site.owner, site.line)) =
        lines.map (root, ·) := by
    intro lines
    induction lines with
    | nil => exact fun _ => rfl
    | cons line lines ih =>
      intro index
      rw [sitesOfLines, List.map_append, ih]
      cases line.statement.target? <;> rfl
  rw [sites, hsize, sitesFrom_succ, hsites]

/-- The code of a program that consists of its root alone is that of the lines of the root. -/
lemma codeOf_root (hsize : q.instances.size = 1) :
    q.codeOf root = (q.inst root).lines.flatMap (Line.code q.symbols q.rootTable) := by
  have hsites := congrArg (List.flatMap fun x => x.2.code q.symbols (q.inst x.1).table) (map_line_sites hsize)
  rw [List.flatMap_map, List.flatMap_map] at hsites
  exact hsites

/-- Its size is that of the lines. -/
lemma byteCount_root (hsize : q.instances.size = 1) :
    q.byteCount root =
      (q.inst root).lines.foldr (fun line count => (line.size q.symbols q.rootTable).toNat + count) 0 := by
  have hsites := congrArg (List.foldr (fun x count => (x.2.size q.symbols (q.inst x.1).table).toNat + count) 0)
    (map_line_sites hsize)
  rw [List.foldr_map, List.foldr_map] at hsites
  exact hsites

/-- A source text that is read as lines without calls, as they are in a linked user program, goes
through all phases.  Its code is that of the given lines, and operands have the values that they
denote among these. -/
theorem LaidOut.linked (h : LaidOut (availableExports .userProgram exports) lines)
    (hreads : List.Forall₂ ReadsAs (Text.lines text) lines) (lib : MacroLibrary) (options : Options) :
    ∃ q, Linked text .userProgram lib exports options q ∧
      q.codeOf root = lines.flatMap (Line.code q.symbols root) ∧
      ∀ line ∈ lines, ∀ name, line.statement.symbol? = some name →
        ∃ v, q.symbols.value? root name = some v ∧
          Denotes lines lines (availableExports .userProgram exports) name v := by
  obtain ⟨q, hlinked, hsize, hlines, hresolved⟩ := h.exists_linked hreads lib options
  have htable : (q.inst root).table = root := hresolved.root_table
  refine ⟨q, hlinked, ?_, fun line hline name hname => ?_⟩
  · rw [codeOf_root hsize, hresolved.root_table, hlines, code_numberedFrom]
  · obtain ⟨m, hm⟩ := exists_mem_numberedFrom (n := 0) hline
    rw [← hlines] at hm
    obtain ⟨v, hv, hdenotes⟩ := hresolved.denotes_root hm hname
    rw [htable] at hv
    rw [hlines] at hdenotes
    refine ⟨v, hv, ?_⟩
    rcases hdenotes with hdecl | ⟨-, hdecl⟩ | ⟨hundecl, -, hexport⟩
    · exact .inl hdecl.of_numberedFrom
    · exact .inl hdecl.of_numberedFrom
    · exact .inr (.inr ⟨hundecl.of_numberedFrom, hundecl.of_numberedFrom, hexport⟩)

end Program

end Pep10
