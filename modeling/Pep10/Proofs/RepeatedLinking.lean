import Pep10.Proofs.CallTermination
import Pep10.Proofs.Program.Mirroring
import Pep10.Proofs.Program.RelocatedAgain

/-!
# Linking again

A program that has been linked can be linked again, as often as one likes, and its outputs stay the
same.  The program itself does not: every time the called instances are copied anew, and the imports
are entered anew.  What is kept from one time to the next (`Recurs`) is that the program is what has
become of the one that the first pass left the first time.  So what is made of it mirrors what was
made the first time (`Recurs.exists_link`).
-/

namespace Pep10.Program

open Linker (Links)

variable {p p₁ q q₁ q₂ : Program} {lib lib' : MacroLibrary} {text : String} {kind : ModuleKind}
  {exports : Option (List ExportedSymbol)} {options : Options} {exported : List ExportedSymbol}
  {lo d next : Nat} {l m : Linker} {lines lines' made : List Line} {w : UInt16}

/-! ### The address of the `.BURN` -/

/-- The address that is found among some lines does not depend on the one to fall back on, unless it
is that one. -/
lemma burnAddress_cases (lines : List Line) :
    (∀ w, Linker.burnAddress lines w = w) ∨ ∃ v, ∀ w, Linker.burnAddress lines w = v := by
  induction lines with
  | nil => exact .inl fun _ => rfl
  | cons line lines ih =>
    have hcons : ∀ w, Linker.burnAddress (line :: lines) w = Linker.burnAddress lines
        (if line.statement.isBurn then line.address.getD w else w) := fun _ => rfl
    rcases ih with hid | ⟨v, hv⟩
    · by_cases hburn : line.statement.isBurn = true
      · cases haddress : line.address with
        | none => exact .inl fun w => by rw [hcons, hid, if_pos hburn, haddress, Option.getD_none]
        | some v => exact .inr ⟨v, fun w => by rw [hcons, hid, if_pos hburn, haddress, Option.getD_some]⟩
      · exact .inl fun w => by rw [hcons, hid, if_neg hburn]
    · exact .inr ⟨v, fun w => by rw [hcons, hv]⟩

/-- The address that has been found among some lines is found again. -/
lemma burnAddress_burnAddress (lines : List Line) (w : UInt16) :
    Linker.burnAddress lines (Linker.burnAddress lines w) = Linker.burnAddress lines w := by
  rcases burnAddress_cases lines with hid | ⟨v, hv⟩
  · exact hid _
  · rw [hv, hv]

/-- Lines that stand at the same places have their `.BURN` at the same place. -/
lemma burnAddress_of_echoes (h : List.Forall₂ (Line.Echoes d) lines lines') (w : UInt16) :
    Linker.burnAddress lines' w = Linker.burnAddress lines w := by
  induction h generalizing w with
  | nil => rfl
  | @cons line line' _ _ hline _ ih =>
    have haddress : line'.address = line.address := by rw [hline]
    rw [Linker.burnAddress, Linker.burnAddress, List.foldl_cons, List.foldl_cons, hline.movedBy.isBurn_eq,
      haddress]
    exact ih _

/-- Lines that are the same up to what they call have the same addresses. -/
lemma map_address_of_retargets (h : List.Forall₂ (Line.Retargets d) lines lines') :
    lines'.map Line.address = lines.map Line.address := by
  induction h with
  | nil => rfl
  | cons hline _ ih =>
    rw [List.map_cons, List.map_cons, ih, hline]

/-! ### Behind the first pass -/

/-- A system whose `.BURN` is as in one that is relocated behind the first pass is relocated there,
too. -/
lemma finishLink_of_system (hsystem : p.isSystem = true) (hsystem' : q.isSystem = true)
    (hcount : (q.inst root).burn.count = (p.inst root).burn.count)
    (hargument : (q.inst root).burn.argument = (p.inst root).burn.argument)
    (h : p.finishLink next options = (p₁, [])) : q.finishLink next options = q.relocate next := by
  rw [finishLink, hsystem] at h
  rw [finishLink, hsystem', hcount, hargument]
  simp only [Bool.not_true, Bool.false_eq_true, if_false] at h ⊢
  split at h
  · cases h
  next hone =>
    split at h
    · cases h
    next htop => rw [if_neg hone, if_neg htop]

/-- A user program that is accepted behind the first pass has no `.BURN`. -/
lemma not_isBurn_of_finishLink (hsystem : p.isSystem = false) (h : p.finishLink next options = (q, [])) :
    ∀ line ∈ (p.inst root).lines, line.statement.isBurn = false := by
  rw [finishLink, hsystem] at h
  have hnone : (((p.inst root).lines.filter fun line => line.statement.isBurn).map Line.number).head?.toList.map
      (fun number => (number, LinkError.burnInUserProgram)) = [] := congrArg Prod.snd h
  simpa using hnone

/-- If all lines emit code, then they do so behind the first pass. -/
lemma Rooted.emits_store (h : p.Rooted kind)
    (hlinks : Links (Linker.start p exports).program root root (Linker.start p exports) (p.inst root).lines l lines)
    (hemits : ∀ j < p.instances.size, ∀ line ∈ (p.inst j).lines, line.emits = true) :
    ∀ j < (l.store root lines).program.instances.size,
      ∀ line ∈ ((l.store root lines).program.inst j).lines, line.emits = true := by
  have hholds := hlinks.holds'
  obtain ⟨hroot, hcopies⟩ := hlinks.emits (hemits root h.root_lt) fun j hj => by
    rw [instances_start] at hj
    rw [inst_start]
    exact hemits j hj
  rw [instances_start] at hcopies
  intro j hj
  by_cases hne : j = root
  · subst hne
    rw [inst_root_store hlinks]
    exact hroot
  · rw [Linker.size_store] at hj
    rw [Linker.inst_store_ne hne]
    rcases Nat.lt_or_ge j p.instances.size with hlt | hge
    · rw [hholds.inst_eq j (by rwa [instances_start]), inst_start]
      exact hemits j hlt
    · exact hcopies j hge hj

/-- Lines that stand at the same places and all emit code are the same up to the copies that they
call. -/
lemma forall₂_retargets_of_emits {lines lines' : List Line} (h : List.Forall₂ (Line.Echoes d) lines lines')
    (hemits : ∀ line ∈ lines, line.emits = true) (hemits' : ∀ line ∈ lines', line.emits = true) :
    List.Forall₂ (Line.Retargets d) lines lines' := by
  induction h with
  | nil => exact .nil
  | @cons line line' _ _ hline _ ih =>
    rw [List.forall_mem_cons] at hemits hemits'
    refine .cons ?_ (ih hemits.2 hemits'.2)
    have hsame := hline.retargets true
    rwa [← hemits.1, show ({ line' with emits := line.emits } : Line) = line' by
      rw [hemits.1, ← hemits'.1]] at hsame

/-- Programs that mirror each other and emit all code have the same lines. -/
lemma Mirrors.retargets (h : Mirrors (Line.Echoes d) exported lo d p q)
    (hp : ∀ j, j = root ∨ (lo ≤ j ∧ j < p.instances.size) → ∀ line ∈ (p.inst j).lines, line.emits = true)
    (hq : ∀ j < q.instances.size, ∀ line ∈ (q.inst j).lines, line.emits = true) (hroot : root < q.instances.size) :
    Mirrors (Line.Retargets d) exported lo d p q := by
  have hsize := h.size_eq
  refine ⟨h.size_eq, forall₂_retargets_of_emits h.root_lines (hp root (.inl rfl)) (hq root hroot),
    h.root_symbols, h.imports, h.names_eq, fun j hj hj' => ?_, h.symbols, h.table_lt, h.table_inj⟩
  exact forall₂_retargets_of_emits (h.lines j hj hj') (hp j (.inr ⟨hj, hj'⟩)) (hq (j + d) (by omega))

/-! ### What is kept from one time to the next -/

/-- The program `q₂` comes of linking again, any number of times, where the first time the first
pass has made the program `p₁`, with copies from `lo` on, and linking has made the program `q`. -/
structure Recurs (kind : ModuleKind) (exported : List ExportedSymbol) (lo : Nat) (p₁ q q₂ : Program) : Prop where
  rooted : q₂.Rooted kind
  lo_le : lo ≤ q₂.instances.size
  remains : ∃ c, Remains exported lo c p₁ q₂
  burn_eq : (q₂.inst root).burn = (q.inst root).burn
  emits : kind ≠ .operatingSystem → ∀ j < q₂.instances.size, ∀ line ∈ (q₂.inst j).lines, line.emits = true
  descends : ∃ rank, q₂.Descends rank

section Again

variable (h : Ready text kind lib p)
  (hlinks : Links (Linker.start p exports).program root root (Linker.start p exports) (p.inst root).lines l lines)
  (hfinish : (l.store root lines).program.finishLink l.next options = (q, []))

include h hlinks hfinish

/-- Relocation keeps what is known of the `.BURN`, up to the start of the ROM. -/
lemma Ready.burn_finishLink : (q.inst root).burn =
    { ((l.store root lines).program.inst root).burn with startRom := (q.inst root).burn.startRom } := by
  by_cases hkind : kind = .operatingSystem
  · subst hkind
    obtain ⟨-, below, hrelocates⟩ := h.relocates hlinks hfinish
    obtain ⟨_, _, _, _, _, _, -, -, -, hroot, -⟩ := hrelocates.layout
    rw [hroot]
  · rw [h.eq_of_finishLink hkind hlinks hfinish]

/-- What has been linked for the first time can be linked again. -/
lemma Ready.recurs {rank : Nat → Nat} (hrank : q.Descends rank) :
    Recurs kind (availableExports kind exports) p.instances.size (l.store root lines).program q q := by
  have hpass := h.firstPass hlinks
  have hresolved := h.resolved hlinks
  have hrooted := h.rooted.store hlinks
  have hcalls : SameCalls (l.store root lines).program q := by
    have := finishLink_sameCalls (l.store root lines).program l.next options
    rwa [hfinish] at this
  have hle : p.instances.size ≤ q.instances.size := by
    rw [hcalls.size_eq]
    exact hpass.size_le
  by_cases hkind : kind = .operatingSystem
  · subst hkind
    obtain ⟨-, below, hrelocates⟩ := h.relocates hlinks hfinish
    exact ⟨hrelocates.rooted hrooted, hle,
      ⟨0, hrelocates.remains h.root_lt hresolved hcalls⟩, rfl, fun hne => absurd rfl hne, rank, hrank⟩
  · obtain rfl := h.eq_of_finishLink hkind hlinks hfinish
    exact ⟨hrooted, hle, ⟨0, hresolved.remains⟩, rfl,
      fun _ => h.rooted.emits_store hlinks fun j hj => h.emits hj, rank, hrank⟩

variable (hrec : Recurs kind (availableExports kind exports) p.instances.size (l.store root lines).program q q₂)

include hrec

/-- The first pass comes to the same again. -/
lemma Recurs.exists_pass : ∃ m made d,
    Links (Linker.start q₂ exports).program root root (Linker.start q₂ exports) (q₂.inst root).lines m made ∧
      Linker.linkInstance q₂.instances.size (Linker.start q₂ exports) root = (m.store root made, []) ∧
      m.next = l.next ∧ q₂.instances.size = p.instances.size + d ∧
      Mirrors (Line.Echoes d) (availableExports kind exports) p.instances.size d (l.store root lines).program
        (m.store root made).program ∧
      ((m.store root made).program.inst root).burn = (q.inst root).burn := by
  obtain ⟨c, hremains⟩ := hrec.remains
  obtain ⟨rank, hrank⟩ := hrec.descends
  obtain ⟨rank', hrank', hlt⟩ := hrank.exists_lt
  obtain ⟨d, hd⟩ := Nat.exists_eq_add_of_le hrec.lo_le
  obtain ⟨m, made, hlinks', hnext, hmirrors⟩ := h.exists_links_again hlinks hrec.rooted hremains hd
  refine ⟨m, made, d, hlinks', ?_, hnext, hd, hmirrors, ?_⟩
  · exact hrec.rooted.linkInstance_eq (fun j hj => ⟨hlt j hj, hrank' j⟩) hlinks'
  · have hroot := inst_root_store hlinks
    have hroot' := inst_root_store hlinks'
    have hechoes : List.Forall₂ (Line.Echoes d) lines made := by
      have hlines := hmirrors.root_lines
      rwa [hroot, hroot'] at hlines
    have haddress : (q.inst root).burn.address = Linker.burnAddress lines (p.inst root).burn.address := by
      rw [h.burn_finishLink hlinks hfinish, hroot]
      rfl
    have hagain : Linker.burnAddress made (q.inst root).burn.address = (q.inst root).burn.address := by
      rw [burnAddress_of_echoes hechoes, haddress, burnAddress_burnAddress]
    rw [hroot', Linker.withLines, hrec.burn_eq, hagain]

/-- A user program is linked again, and that comes to the same. -/
lemma Recurs.exists_link_user (hkind : kind ≠ .operatingSystem) : ∃ q' d,
    q₂.link exports options = (q', []) ∧
      Mirrors (Line.Retargets d) (availableExports kind exports) p.instances.size d q q' ∧
      Recurs kind (availableExports kind exports) p.instances.size (l.store root lines).program q q' := by
  obtain ⟨m, made, d, hlinks', hpass, -, hd, hmirrors, hburn⟩ := hrec.exists_pass h hlinks hfinish
  obtain rfl := h.eq_of_finishLink hkind hlinks hfinish
  have hrooted' := hrec.rooted.store hlinks'
  have hsystem' : (m.store root made).program.isSystem = false := by
    rw [isSystem, hrooted'.root_kind]
    simpa using hkind
  have hnone := not_isBurn_of_finishLink (h.isSystem_store hkind hlinks) hfinish
  have hnone' := not_isBurn_of_shapes
    (map_shape_of_movedBy (hmirrors.root_lines.imp fun _ _ hline => hline.movedBy)) hnone
  have hlink : q₂.link exports options = ((m.store root made).program, []) :=
    link_eq_of_finishLink hpass (finishLink_of_user hsystem' hnone' _ _)
  have hemits := hrec.rooted.emits_store hlinks' (hrec.emits hkind)
  have hmirrors' := hmirrors.retargets (fun j hj => h.emits_pass hlinks (by rwa [Linker.size_store] at hj)) hemits
    hrooted'.root_lt
  obtain ⟨rank, hrank⟩ := hrec.descends
  refine ⟨_, d, hlink, hmirrors', hrooted', ?_, ⟨d, ?_⟩, hburn, fun _ => hemits, rank, ?_⟩
  · rw [hmirrors'.size_eq]
    exact Nat.le_add_right_of_le (h.firstPass hlinks).size_le
  · exact (h.resolved hlinks).remains.mirrored rfl hmirrors' hrooted'.root_table
  · exact hrank.stages hrec.rooted.root_lt exports options _ (by simp [stages, hlink])

/-- An operating system is linked again, and that comes to the same. -/
lemma Recurs.exists_link_system (hkind : kind = .operatingSystem) : ∃ q' d,
    q₂.link exports options = (q', []) ∧
      Mirrors (Line.Retargets d) (availableExports kind exports) p.instances.size d q q' ∧
      Recurs kind (availableExports kind exports) p.instances.size (l.store root lines).program q q' := by
  obtain ⟨m, made, d, hlinks', hpass, hnext, hd, hmirrors, hburn⟩ := hrec.exists_pass h hlinks hfinish
  subst hkind
  have hfirst := h.firstPass hlinks
  have hresolved := h.resolved hlinks
  have hrooted := h.rooted.store hlinks
  have hrooted' := hrec.rooted.store hlinks'
  obtain ⟨hcount, below, hrelocates⟩ := h.relocates hlinks hfinish
  have hburn' := h.burn_finishLink hlinks hfinish
  rw [← hburn] at hburn'
  have hspans' : Spans (m.store root made).program (p.instances.size + d)
      ((m.store root made).program.inst root).lines (m.store root made).program.instances.size := by
    rw [← hd]
    exact hrec.rooted.spans_store hlinks'
  have hrom : romOf ((l.store root lines).program.inst root).lines ≠ [] := by
    obtain ⟨line, rest, _, hrom, -⟩ := exists_burn_of_count hcount
    rw [inst_root_store hlinks]
    exact hrom ▸ List.cons_ne_nil line rest
  obtain ⟨q', hrelocate, hmirrors', hrooted₂, hburn₂⟩ := Relocates.again h.root_lt hresolved
    (fun j hj line hline => h.regular_pass hfirst hj hline) hfirst.spans hmirrors hspans' hburn' hrelocates hrooted'
    hrom
  have hsystem : ∀ {p : Program}, p.Rooted .operatingSystem → p.isSystem = true := by
    intro p hp
    rw [isSystem, hp.root_kind]
    rfl
  have hlink : q₂.link exports options = (q', []) := by
    refine link_eq_of_finishLink hpass ?_
    change (m.store root made).program.finishLink m.next options = (q', [])
    rw [hnext, finishLink_of_system (hsystem hrooted) (hsystem hrooted') (by rw [hburn']) (by rw [hburn']) hfinish]
    exact hrelocate
  have hcalls : SameCalls (l.store root lines).program q := by
    have := finishLink_sameCalls (l.store root lines).program l.next options
    rwa [hfinish] at this
  obtain ⟨rank, hrank⟩ := hrec.descends
  refine ⟨q', d, hlink, hmirrors', hrooted₂, ?_, ⟨d, ?_⟩, hburn₂, fun hne => absurd rfl hne, rank, ?_⟩
  · rw [hmirrors'.size_eq, hcalls.size_eq]
    exact Nat.le_add_right_of_le hfirst.size_le
  · exact (hrelocates.remains h.root_lt hresolved hcalls).mirrored hcalls.size_eq hmirrors' hrooted₂.root_table
  · exact hrank.stages hrec.rooted.root_lt exports options _ (by simp [stages, hlink])

omit hfinish in
/-- No label of the root is exported. -/
lemma Recurs.unexported : q₂.Unexported (availableExports kind exports) := by
  obtain ⟨c, hremains⟩ := hrec.remains
  have hshapes : (q₂.inst root).lines.map Line.shape = (p.inst root).lines.map Line.shape := by
    rw [map_shape_of_movedBy hremains.root_lines, (h.firstPass hlinks).root_shapes]
  intro line hline name hname
  obtain ⟨before, hbefore, hshape⟩ := exists_shape_eq hshapes hline
  exact (h.prepared_root hlinks.single).2 before hbefore name (by rw [Line.label_of_shape hshape, hname])

omit hfinish in
/-- The root has no two symbols of one name. -/
lemma Recurs.nodup_names (hnodup : (p.symbols.table root).names.Nodup) :
    (q₂.symbols.table root).names.Nodup := by
  obtain ⟨c, hremains⟩ := hrec.remains
  rw [hremains.names_eq, Linker.symbols_store, ← h.rooted.rootTable_start exports]
  refine hlinks.nodup_names_root ?_
  rwa [h.rooted.rootTable_start, h.rooted.names_start]

/-- Linking again succeeds, and that comes to the same. -/
theorem Recurs.exists_link : ∃ q' d,
    q₂.link exports options = (q', []) ∧
      Mirrors (Line.Retargets d) (availableExports kind exports) p.instances.size d q q' ∧
      Recurs kind (availableExports kind exports) p.instances.size (l.store root lines).program q q' := by
  by_cases hkind : kind = .operatingSystem
  · exact hrec.exists_link_system h hlinks hfinish hkind
  · exact hrec.exists_link_user h hlinks hfinish hkind

/-- What is kept is kept however often the program is linked. -/
lemma Recurs.run (hrun : Relation.ReflTransGen (fun a b => a.link exports options = (b, [])) q₂ q₁) :
    Recurs kind (availableExports kind exports) p.instances.size (l.store root lines).program q q₁ := by
  induction hrun with
  | refl => exact hrec
  | tail _ hlink ih =>
    obtain ⟨q', _, hlink', -, hrec'⟩ := ih.exists_link h hlinks hfinish
    rw [hlink] at hlink'
    cases hlink'
    exact hrec'

end Again

/-! ### The result -/

/-- A program that has been linked, and possibly linked again a number of times since, can be linked
again with the same exports and options.  Its object code, its listings, the addresses of its lines
and what is known of its `.BURN` are then what they were when it had been linked for the first
time. -/
theorem Linked.link_again (h : Linked text kind lib exports options q)
    (hrun : Relation.ReflTransGen (fun a b => a.link exports options = (b, [])) q q₁) :
    ∃ q', q₁.link exports options = (q', []) ∧ q'.codeOf root = q.codeOf root ∧ q'.listing = q.listing ∧
      q'.symbolListing = q.symbolListing ∧
      (q'.inst root).lines.map Line.address = (q.inst root).lines.map Line.address ∧
      (q'.inst root).burn = (q.inst root).burn := by
  obtain ⟨p₁, p, lib', hfind, hassemble, hlink⟩ := h
  have hready := ready_of_assemble hfind hassemble
  obtain ⟨rank, hrank⟩ := descends_of_assemble hfind hassemble
  obtain ⟨hspans, hresolved⟩ := hready.linked hlink
  obtain ⟨l, lines, hlinks, hfinish⟩ := hready.exists_links hlink
  have hfirst := hready.recurs hlinks hfinish
    (hrank.stages hready.root_lt exports options q (by simp [stages, hlink]))
  obtain ⟨q', d, hlink', hmirrors, hrec⟩ :=
    (hfirst.run hready hlinks hfinish hrun).exists_link hready hlinks hfinish
  have hunexported := hfirst.unexported hready hlinks
  have hnodup := hfirst.nodup_names hready hlinks (nodup_names_of_assemble hfind hassemble)
  obtain ⟨hlisting, hcode⟩ := hmirrors.listing_codeOf_eq hresolved hunexported hrec.rooted hready.root_lt hspans
  refine ⟨q', hlink', hcode, hlisting, hmirrors.symbolListing_eq hresolved hunexported hrec.rooted hnodup, ?_,
    hrec.burn_eq⟩
  exact map_address_of_retargets hmirrors.root_lines

/-- A macro with a label of its own that takes a symbol from its surroundings. -/
def pollLibrary : MacroLibrary := ⟨[⟨"POLL", 0, .user, "@POLL 0\nagain: LDWA x,d\nBR again\n.END\n"⟩]⟩

/-- An operating system that calls a macro in RAM and in ROM. -/
def pollSource : String := "x: .BLOCK 2\n@POLL\nrom: .BURN 0xFFFF\n@POLL\n.ADDRSS rom\n.END\n"

/-- When the operating system is linked for the second and the third time, there are new copies of
the macro, and relocation starts from where it has ended before; the outputs do not change. -/
theorem link_again_poll :
    ∃ q q₁ q', Linked pollSource .operatingSystem pollLibrary none {} q ∧ q.link none {} = (q₁, []) ∧
      q₁.link none {} = (q', []) ∧ q.instances.size = 4 ∧ q₁.instances.size = 6 ∧
      q'.codeOf root = [0x41, 0xFF, 0xF0, 0x1C, 0xFF, 0xF8, 0xFF, 0xF8] ∧ q'.listing = q.listing ∧
      q'.symbolListing = q.symbolListing ∧
      (q'.inst root).lines.map Line.address =
        [some 0xFFF0, some 0xFFF2, some 0xFFF8, some 0xFFF8, some 0xFFFE, none] ∧
      (q'.inst root).burn = { count := 1, argument := 0xFFFF, address := 8, startRom := 0xFFF8 } := by
  obtain ⟨q, hq⟩ : ∃ q, q = throughPhases pollSource .operatingSystem pollLibrary none {} := ⟨_, rfl⟩
  obtain ⟨q₁, hq₁⟩ : ∃ q₁, q₁ = q.1.link none {} := ⟨_, rfl⟩
  obtain ⟨hreports, hreports₁, hsize, hsize₁, hcode, haddresses, hburn⟩ : q.2 = [] ∧ q₁.2 = [] ∧
      q.1.instances.size = 4 ∧ q₁.1.instances.size = 6 ∧
      q.1.codeOf root = [0x41, 0xFF, 0xF0, 0x1C, 0xFF, 0xF8, 0xFF, 0xF8] ∧
      (q.1.inst root).lines.map Line.address =
        [some 0xFFF0, some 0xFFF2, some 0xFFF8, some 0xFFF8, some 0xFFFE, none] ∧
      (q.1.inst root).burn = { count := 1, argument := 0xFFFF, address := 8, startRom := 0xFFF8 } := by
    rw [hq₁, hq, throughPhases, ofSource_of_chars pollSource rfl]
    decide +kernel
  have h : Linked pollSource .operatingSystem pollLibrary none {} q.1 := by
    subst hq
    exact linked_of_throughPhases hreports
  have hlink : q.1.link none {} = (q₁.1, []) := by rw [← hq₁, ← hreports₁]
  obtain ⟨q', hlink', hcode', hlisting, hsymbols, haddresses', hburn'⟩ := h.link_again (.single hlink)
  exact ⟨q.1, q₁.1, q', h, hlink, hlink', hsize, hsize₁, by rw [hcode', hcode], hlisting, hsymbols,
    by rw [haddresses', haddresses], by rw [hburn', hburn]⟩

end Pep10.Program
