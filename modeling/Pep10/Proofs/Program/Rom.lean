import Pep10.Proofs.Program.Burn
import Pep10.Proofs.Program.Relocation
import Pep10.Proofs.Program.Resolution

/-!
# Relocated operating systems

The lines of an operating system from its `.BURN` on are its ROM.  `Relocates` is what relocation
does when it succeeds: the ROM is laid out from a start that has been searched for, and the lines
before it are laid out so that they end there.  As all lines keep their shapes and all labels move
with their lines, what the first pass has established of the symbols still holds.
-/

namespace Pep10.Program

open SymbolStore (Relabeled)

variable {p q p₁ p₂ : Program} {lo mid table next : Nat} {start below a₁ : Int}
  {ram rom ram' rom' lines : List Line}

/-- The position behind which the ROM must not reach. -/
def romLimit (p : Program) : Int := (p.inst root).burn.argument.toNat + 1

/-- Whether the ROM fits if it is laid out from a position. -/
def romFits (p : Program) (start : Int) : Bool :=
  decide (p.linesEnd (p.instanceEnd p.instances.size) p.rootTable start
    (romOf (p.inst root).lines) ≤ p.romLimit)

/-- The start of the ROM in a program of which `next` bytes were placed. -/
def romStart (p : Program) (next : Nat) : Int :=
  searchStart p.romFits p.romLimit (p.romLimit - (next - (p.inst root).burn.address.toNat))

/-- The program `p`, in which the copies are the instances from `lo` on, is relocated to `q`, with
its ROM starting at `start` and all of it at `below`. -/
structure Relocates (p q : Program) (lo : Nat) (start below : Int) : Prop where
  below_nonneg : 0 ≤ below
  layout : ∃ mid p₁ p₂ a₁ ram' rom',
    Lays true mid p.instances.size p.rootTable p start (romOf (p.inst root).lines) p₁ a₁ rom' ∧
    LaysBefore lo mid p.rootTable p₁ start (ramOf (p.inst root).lines) p₂ below ram' ∧
    (∀ j, j ≠ root → q.inst j = p₂.inst j) ∧
    q.inst root = { p.inst root with
      lines := ram' ++ rom'
      burn := { (p.inst root).burn with startRom := UInt16.ofInt start } } ∧
    q.instances.size = p₂.instances.size ∧ q.symbols = p₂.symbols ∧ q.modules = p₂.modules

/-- Relocation in the words of this file. -/
lemma relocate_eq (p : Program) (next : Nat) :
    p.relocate next =
      match romOf (p.inst root).lines with
      | [] => (p, [])
      | burnLine :: _ =>
        let (p₁, _, rom) := layLines (layInstance true p.instances.size) true p.rootTable p
          (p.romStart next) (romOf (p.inst root).lines)
        let (p₂, below, ram) := layAllBefore p.instances.size p.rootTable p₁ (p.romStart next)
          (ramOf (p.inst root).lines)
        if below < 0 then
          (p₂.setLines root (ram ++ rom), [(burnLine.number, .exceededMemory)])
        else
          ((p₂.setLines root (ram ++ rom)).modifyInstance root fun i =>
            { i with burn := { i.burn with startRom := UInt16.ofInt (p.romStart next) } }, []) :=
  rfl

/-- A program with a `.BURN` is relocated by two layouts, and there is a report exactly if memory
does not suffice for the second one. -/
lemma relocate_eq_of_layouts {burnLine : Line} {rest : List Line}
    (hrom : romOf (p.inst root).lines = burnLine :: rest)
    (hlay : layLines (layInstance true p.instances.size) true p.rootTable p (p.romStart next)
      (romOf (p.inst root).lines) = (p₁, a₁, rom'))
    (hbefore : layAllBefore p.instances.size p.rootTable p₁ (p.romStart next)
      (ramOf (p.inst root).lines) = (p₂, below, ram')) :
    p.relocate next =
      if below < 0 then (p₂.setLines root (ram' ++ rom'), [(burnLine.number, .exceededMemory)])
      else
        ((p₂.setLines root (ram' ++ rom')).modifyInstance root fun i =>
          { i with burn := { i.burn with startRom := UInt16.ofInt (p.romStart next) } }, []) := by
  rw [relocate_eq]
  split
  next hnil =>
    rw [hnil] at hrom
    cases hrom
  next burnLine' rest' hcons =>
    rw [hcons, List.cons.injEq] at hrom
    rw [hlay, hrom.1]
    dsimp only
    rw [hbefore]

/-- The two layouts of a program, whatever the start of the ROM. -/
lemma exists_layouts (start : Int) (hspans : Spans p lo (p.inst root).lines p.instances.size)
    (hlines : ∀ line ∈ (p.inst root).lines, line.statement.Regular)
    (hinst : ∀ j, lo ≤ j → j < p.instances.size → ∀ line ∈ (p.inst j).lines, line.statement.Regular) :
    ∃ mid p₁ a₁ rom' p₂ below ram',
      layLines (layInstance true p.instances.size) true p.rootTable p start
        (romOf (p.inst root).lines) = (p₁, a₁, rom') ∧
      Lays true mid p.instances.size p.rootTable p start (romOf (p.inst root).lines) p₁ a₁ rom' ∧
      layAllBefore p.instances.size p.rootTable p₁ start (ramOf (p.inst root).lines) =
        (p₂, below, ram') ∧
      LaysBefore lo mid p.rootTable p₁ start (ramOf (p.inst root).lines) p₂ below ram' := by
  have happend := ramOf_append_romOf (p.inst root).lines
  rw [← happend] at hspans hlines
  obtain ⟨mid, hram, hromSpans⟩ := hspans.exists_of_append
  have h1 := hram.le
  have h2 := hromSpans.le
  obtain ⟨p₁, a₁, rom', hlay, hlays⟩ : ∃ p₁ a₁ rom',
      layLines (layInstance true p.instances.size) true p.rootTable p start
        (romOf (p.inst root).lines) = (p₁, a₁, rom') ∧
      Lays true mid p.instances.size p.rootTable p start (romOf (p.inst root).lines) p₁ a₁ rom' :=
    lays_layLines hromSpans (fun _ _ _ => rfl) (by omega) (Nat.le_refl _)
      (fun line hline => hlines line (List.mem_append_right _ hline))
      fun j hj hj' => hinst j (by omega) hj'
  obtain ⟨p₂, below, ram', hbefore, hlaysBefore⟩ : ∃ p₂ below ram',
      layAllBefore p.instances.size p.rootTable p₁ start (ramOf (p.inst root).lines) =
        (p₂, below, ram') ∧
      LaysBefore lo mid p.rootTable p₁ start (ramOf (p.inst root).lines) p₂ below ram' :=
    laysBefore_layAllBefore hram (fun j _ hj' => hlays.reshaped.inst_eq j (.inl hj')) (by omega)
      (by rw [hlays.reshaped.size_eq]; omega) (fun line hline => hlines line (List.mem_append_left _ hline))
      fun j hj hj' => hinst j hj (by omega)
  exact ⟨mid, p₁, a₁, rom', p₂, below, ram', hlay, hlays, hbefore, hlaysBefore⟩

/-- A program with a `.BURN` is relocated if memory suffices for its two layouts. -/
lemma exists_relocates {burnLine : Line} {rest : List Line} (hlo : root < lo)
    (hrom : romOf (p.inst root).lines = burnLine :: rest)
    (hlay : layLines (layInstance true p.instances.size) true p.rootTable p (p.romStart next)
      (romOf (p.inst root).lines) = (p₁, a₁, rom'))
    (hlays : Lays true mid p.instances.size p.rootTable p (p.romStart next) (romOf (p.inst root).lines) p₁ a₁ rom')
    (hbefore : layAllBefore p.instances.size p.rootTable p₁ (p.romStart next)
      (ramOf (p.inst root).lines) = (p₂, below, ram'))
    (hlaysBefore : LaysBefore lo mid p.rootTable p₁ (p.romStart next) (ramOf (p.inst root).lines) p₂ below ram')
    (hbelow : 0 ≤ below) :
    ∃ q, p.relocate next = (q, []) ∧ Relocates p q lo (p.romStart next) below := by
  have hmid := hlays.le
  have hmid' := hlaysBefore.le
  have hroot : p₂.inst root = p.inst root := by
    rw [hlaysBefore.inst_front hlo, hlays.reshaped.inst_eq root (.inl (by omega))]
  have hlt : root < p₂.instances.size := by
    rw [hlaysBefore.reshaped.size_eq, hlays.reshaped.size_eq]
    omega
  have hrelocate := relocate_eq_of_layouts hrom hlay hbefore
  rw [if_neg (by omega)] at hrelocate
  refine ⟨_, hrelocate, hbelow, mid, p₁, p₂, a₁, ram', rom', hlays, hlaysBefore, fun j hj => ?_, ?_, ?_, rfl, rfl⟩
  · rw [inst_modifyInstance_ne hj, inst_setLines_ne hj]
  · rw [inst_modifyInstance_self (by rwa [setLines, size_modifyInstance]), inst_setLines_self hlt, hroot]
  · rw [size_modifyInstance, setLines, size_modifyInstance]

/-- Relocation, when it succeeds, of a program with a `.BURN`. -/
theorem relocates_of_relocate (h : p.relocate next = (q, []))
    (hspans : Spans p lo (p.inst root).lines p.instances.size) (hlo : root < lo)
    (hrom : romOf (p.inst root).lines ≠ [])
    (hlines : ∀ line ∈ (p.inst root).lines, line.statement.Regular)
    (hinst : ∀ j, lo ≤ j → j < p.instances.size → ∀ line ∈ (p.inst j).lines, line.statement.Regular) :
    ∃ below, Relocates p q lo (p.romStart next) below := by
  obtain ⟨mid, p₁, a₁, rom', p₂, below, ram', hlay, hlays, hbefore, hlaysBefore⟩ :=
    exists_layouts (p.romStart next) hspans hlines hinst
  obtain ⟨burnLine, rest, hcons⟩ := List.exists_cons_of_ne_nil hrom
  rcases Int.lt_or_le below 0 with hneg | hbelow
  · rw [relocate_eq_of_layouts hcons hlay hbefore, if_pos hneg] at h
    cases h
  · obtain ⟨q', hq', hrelocates⟩ := exists_relocates hlo hcons hlay hlays hbefore hlaysBefore hbelow
    rw [h] at hq'
    cases hq'
    exact ⟨below, hrelocates⟩

/-! ### What relocation keeps -/

namespace Relocates

lemma size_eq (h : Relocates p q lo start below) : q.instances.size = p.instances.size := by
  obtain ⟨mid, p₁, p₂, a₁, ram', rom', hlays, hbefore, -, -, hsize, -⟩ := h.layout
  rw [hsize, hbefore.reshaped.size_eq, hlays.reshaped.size_eq]

/-- All instances keep the shapes of their lines. -/
lemma shapes (h : Relocates p q lo start below) (j : Nat) :
    (q.inst j).lines.map Line.shape = (p.inst j).lines.map Line.shape ∧
      (q.inst j).table = (p.inst j).table := by
  obtain ⟨mid, p₁, p₂, a₁, ram', rom', hlays, hbefore, hothers, hroot, -⟩ := h.layout
  by_cases hj : j = root
  · rw [hj, hroot]
    refine ⟨?_, rfl⟩
    rw [List.map_append, hbefore.shapes, hlays.shapes, ← List.map_append, ramOf_append_romOf]
  · rw [hothers j hj]
    obtain ⟨lines₁, hlines₁, hshapes₁⟩ := hlays.reshaped.shapes j
    obtain ⟨lines₂, hlines₂, hshapes₂⟩ := hbefore.reshaped.shapes j
    rw [hlines₂, hlines₁]
    refine ⟨?_, rfl⟩
    rw [hshapes₂, hlines₁, hshapes₁]

/-- The lines of the root call the copies, as before. -/
lemma spans (h : Relocates p q lo start below) (hlo : root < lo) :
    Spans q lo (q.inst root).lines q.instances.size := by
  rw [h.size_eq]
  obtain ⟨mid, p₁, p₂, a₁, ram', rom', hlays, hbefore, hothers, hroot, -⟩ := h.layout
  have hmid := hbefore.le
  have hinst : ∀ j, lo ≤ j → q.inst j = p₂.inst j :=
    fun j hj => hothers j (Nat.ne_of_gt (Nat.lt_of_lt_of_le hlo hj))
  rw [hroot]
  refine (hbefore.spans.congr fun j hj _ => by rw [hinst j hj]).append
    (hlays.spans.congr fun j hj _ => ?_)
  rw [hinst j (by omega), hbefore.reshaped.inst_eq j (.inr hj)]

/-- All labels move with their lines. -/
lemma relabeled (h : Relocates p q lo start below) (hlo : root < lo)
    (htable : p.rootTable < p.symbols.size)
    (htables : ∀ j, lo ≤ j → j < p.instances.size → (p.inst j).table < p.symbols.size) :
    Relabeled (Laid q lo q.instances.size p.rootTable (q.inst root).lines) p.symbols q.symbols := by
  rw [h.size_eq]
  obtain ⟨mid, p₁, p₂, a₁, ram', rom', hlays, hbefore, hothers, hroot, -, hsymbols, -⟩ := h.layout
  have hmid := hbefore.le
  have hmid' := hlays.le
  have hrom := hlays.relabeled htable fun j hj hj' => htables j (by omega) hj'
  have hram := hbefore.relabeled (by rwa [hrom.size_eq]) fun j hj hj' => by
    rw [hrom.size_eq, hlays.reshaped.table_eq]
    exact htables j hj (by omega)
  rw [hsymbols]
  refine hrom.trans hram fun i line => ?_
  have hinst : ∀ j, lo ≤ j → q.inst j = p₂.inst j :=
    fun j hj => hothers j (Nat.ne_of_gt (Nat.lt_of_lt_of_le hlo hj))
  rw [hroot, laid_append hmid hmid', or_comm, laid_congr fun j hj _ => hinst j hj,
    laid_congr fun j hj _ => (hinst j (by omega)).trans (hbefore.reshaped.inst_eq j (.inr hj))]

/-- What the first pass has established of the symbols still holds behind relocation.  Nothing is
imported by an operating system. -/
theorem resolved (h : Relocates p q lo start below) (hlo : root < lo) (hp : Resolved p lo []) :
    Resolved q lo [] := by
  have hsize := h.size_eq
  have hrelabeled := h.relabeled hlo (by rw [hp.root_table]; exact hp.root_lt)
    fun j hj hj' => (hp.table_lt j hj hj').2
  rw [hp.root_table] at hrelabeled
  have hshapes := fun j => (h.shapes j).1
  have htable := fun j => (h.shapes j).2
  have hlabels : ∀ j name, (∃ line ∈ (p.inst j).lines, line.label = some name) →
      ∃ line ∈ (q.inst j).lines, line.label = some name := by
    intro j name hname
    rwa [← List.mem_filterMap, labels_of_shapes (hshapes j), List.mem_filterMap]
  have hrootTable : (q.inst root).table = root := (htable root).trans hp.root_table
  refine ⟨hrootTable, ?_, ?_, ?_, ?_, ?_, ?_, ?_⟩
  · rw [hrelabeled.size_eq]
    exact hp.root_lt
  · -- Only the root has the symbol table of the root.
    refine forall_bound_of_relabeled hrelabeled hp.root_bound hp.root_nodup (hshapes root)
      fun line => ⟨?_, fun hline => .inl ⟨rfl, hline⟩⟩
    rintro (⟨-, hline⟩ | ⟨j, hj, hj', heq, -⟩)
    · exact hline
    · rw [htable] at heq
      rw [hsize] at hj'
      exact absurd heq (Nat.ne_of_lt (hp.table_lt j hj hj').1)
  · rw [labels_of_shapes (hshapes root)]
    exact hp.root_nodup
  · intro name x' hx' hdef'
    obtain ⟨x, hx, hdef⟩ := hrelabeled.symbol_before hx'
    rcases hp.root_declares name x hx (hdef.symm.trans hdef') with hname | ⟨ref, v, -, hexport, -⟩
    · exact .inl (hlabels root name hname)
    · exact absurd hexport (by simp [exportedValue?])
  · intro j hj hj'
    rw [hsize] at hj'
    have hclosed := hp.closed j hj hj'
    refine ⟨?_, ?_, ?_⟩
    · rw [htable]
      refine forall_bound_of_relabeled hrelabeled hclosed.bound hclosed.nodup (hshapes j)
        fun line => ⟨?_, fun hline => .inr ⟨j, hj, by rwa [hsize], (htable j).symm, hline⟩⟩
      rintro (⟨heq, -⟩ | ⟨j', hlo', hhi', heq, hline⟩)
      · exact absurd heq (Nat.ne_of_gt (hp.table_lt j hj hj').1)
      · rw [htable] at heq
        rw [hsize] at hhi'
        rwa [hp.table_inj j j' hj hj' hlo' hhi' heq]
    · intro name x' hx' hdef'
      rw [htable] at hx'
      obtain ⟨x, hx, hdef⟩ := hrelabeled.symbol_before hx'
      exact hlabels j name (hclosed.declared name x hx (hdef.symm.trans hdef'))
    · rw [labels_of_shapes (hshapes j)]
      exact hclosed.nodup
  · intro j hj hj'
    rw [htable, hrelabeled.size_eq]
    rw [hsize] at hj'
    exact hp.table_lt j hj hj'
  · intro j j' hj hlt hj' hlt' heq
    rw [htable, htable] at heq
    rw [hsize] at hlt hlt'
    exact hp.table_inj j j' hj hlt hj' hlt' heq

end Relocates

/-! ### All phases -/

variable {lib : MacroLibrary} {text : String} {exports : Option (List ExportedSymbol)}
  {options : Options} {kind : ModuleKind}

open Linker (Links)

/-- An operating system that is linked has one `.BURN` and is relocated. -/
lemma relocate_of_finishLink (hsystem : p.isSystem = true)
    (h : p.finishLink next options = (q, [])) :
    (p.inst root).burn.count = 1 ∧ p.relocate next = (q, []) := by
  unfold finishLink at h
  rw [hsystem] at h
  simp only [Bool.not_true, Bool.false_eq_true, if_false] at h
  split at h
  · cases h
  next hcount =>
    split at h
    · cases h
    · exact ⟨by simpa using hcount, h⟩

/-- An operating system that is ready and whose root is linked is relocated behind the first
pass. -/
theorem Ready.relocates (h : Ready text .operatingSystem lib p) {l : Linker} {lines : List Line}
    (hlinks : Links (Linker.start p exports).program root root (Linker.start p exports)
      (p.inst root).lines l lines)
    (hfinish : (l.store root lines).program.finishLink l.next options = (q, [])) :
    (Burn.ofLines lines).count = 1 ∧
      ∃ below, Relocates (l.store root lines).program q p.instances.size
        ((l.store root lines).program.romStart l.next) below := by
  have hpass := h.firstPass hlinks
  have hsystem : (l.store root lines).program.isSystem = true := by
    change l.program.isSystem = true
    rw [isSystem_of_holds hlinks.holds', isSystem, h.root_kind]
    rfl
  obtain ⟨hcount, hrelocate⟩ := relocate_of_finishLink hsystem hfinish
  have hinst := inst_root_store hlinks
  have hburn : (Burn.ofLines lines).count = 1 := by
    rw [Burn.ofLines_of_shapes hlinks.shapes, ← h.burn_eq root h.root_lt]
    rwa [hinst] at hcount
  obtain ⟨line, rest, operand, hrom, -⟩ := exists_burn_of_count hburn
  obtain ⟨below, hrelocates⟩ := relocates_of_relocate hrelocate hpass.spans h.root_lt
    (by rw [hinst]; exact hrom ▸ List.cons_ne_nil line rest)
    (fun line hline => h.regular_pass hpass (.inl rfl) hline)
    fun j hj hj' line hline => h.regular_pass hpass (.inr ⟨hj, hj'⟩) hline
  exact ⟨hburn, below, hrelocates⟩

/-- An operating system that goes through all phases is relocated behind the first pass. -/
theorem Linked.exists_relocates (h : Linked text .operatingSystem lib exports options q) :
    ∃ p l lines below, Ready text .operatingSystem lib p ∧
      Links (Linker.start p exports).program root root (Linker.start p exports)
        (p.inst root).lines l lines ∧
      (Burn.ofLines lines).count = 1 ∧
      Relocates (l.store root lines).program q p.instances.size
        ((l.store root lines).program.romStart l.next) below := by
  obtain ⟨p, l, lines, hready, hlinks, hfinish⟩ := h.exists_links
  obtain ⟨hburn, below, hrelocates⟩ := hready.relocates hlinks hfinish
  exact ⟨p, l, lines, below, hready, hlinks, hburn, hrelocates⟩

/-- When a program that is ready has been linked, the copies that the root calls, directly or not,
are the instances that have been added, and all symbols are resolved. -/
theorem Ready.linked (h : Ready text kind lib p) (hlink : p.link exports options = (q, [])) :
    Spans q p.instances.size (q.inst root).lines q.instances.size ∧
      Resolved q p.instances.size (availableExports kind exports) := by
  obtain ⟨l, lines, hlinks, hfinish⟩ := h.exists_links hlink
  by_cases hkind : kind = .operatingSystem
  · subst hkind
    obtain ⟨-, below, hrelocates⟩ := h.relocates hlinks hfinish
    exact ⟨hrelocates.spans h.root_lt, hrelocates.resolved h.root_lt (h.resolved hlinks)⟩
  · rw [h.eq_of_finishLink hkind hlinks hfinish]
    exact ⟨(h.firstPass hlinks).spans, h.resolved hlinks⟩

/-- In a program that goes through all phases, the copies that the root calls, directly or not, make
up an interval, and all symbols are resolved. -/
theorem Linked.exists_resolved (h : Linked text kind lib exports options q) :
    ∃ lo, root < lo ∧ Spans q lo (q.inst root).lines q.instances.size ∧
      Resolved q lo (availableExports kind exports) := by
  obtain ⟨p₁, p, lib', hfind, hassemble, hlink⟩ := h
  have hready := ready_of_assemble hfind hassemble
  obtain ⟨hspans, hresolved⟩ := hready.linked hlink
  exact ⟨p.instances.size, hready.root_lt, hspans, hresolved⟩

end Pep10.Program
