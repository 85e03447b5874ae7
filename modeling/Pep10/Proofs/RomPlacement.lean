import Mathlib.Order.Bounds.Basic
import Pep10.Proofs.Addresses
import Pep10.Proofs.Program.RomStart

/-!
# The ROM of a linked operating system

The ROM of an operating system that has been linked stands as high in memory as it can without
reaching behind the operand of its `.BURN`.
-/

namespace Pep10.Program

variable {p q : Program} {lib : MacroLibrary} {source : String}
  {exports : Option (List ExportedSymbol)} {options : Options} {lo : Nat} {start below : Int}

/-! ### The sites of RAM and ROM -/

/-- Whether a site is that of a `.BURN` of the root. -/
def isRootBurn (site : Site) : Bool := site.owner == root && site.line.statement.isBurn

/-- The sites before the `.BURN` of the root. -/
def ramSites (p : Program) : List Site := (p.sites root).takeWhile fun site => !isRootBurn site

/-- The sites from the `.BURN` of the root on. -/
def romSites (p : Program) : List Site := (p.sites root).dropWhile fun site => !isRootBurn site

/-- The sites on either side of the `.BURN` are those of the lines there. -/
lemma Spans.sites_split {line : Line} {rest : List Line}
    (h : Spans p lo (p.inst root).lines p.instances.size) (hlo : root < lo)
    (hrom : romOf (p.inst root).lines = line :: rest) (hburn : line.statement.isBurn = true) :
    ∃ mid depth, Spans p lo (ramOf (p.inst root).lines) mid ∧
      Spans p mid (line :: rest) p.instances.size ∧ p.instances.size - lo ≤ depth ∧
      p.ramSites = p.sitesOfLines depth none root 0 (ramOf (p.inst root).lines) ∧
      p.romSites =
        p.sitesOfLines depth none root (ramOf (p.inst root).lines).length (line :: rest) := by
  obtain ⟨depth, hdepth, hsites⟩ := h.sites_eq hlo
  have happend := ramOf_append_romOf (p.inst root).lines
  rw [hrom] at happend
  rw [← happend] at h hsites
  obtain ⟨mid, hram, hspans⟩ := h.exists_of_append
  have h1 := hram.le
  have h2 := hspans.le
  rw [sitesOfLines_append, Nat.zero_add] at hsites
  have hplain : line.statement.target? = none := by
    obtain ⟨operand, hst⟩ := Statement.isBurn_iff.1 hburn
    rw [hst]
    rfl
  have hbefore : ∀ site ∈ p.sitesOfLines depth none root 0 (ramOf (p.inst root).lines),
      (!isRootBurn site) = true := by
    intro site hsite
    rcases hram.mem_sites (by omega) hsite with ⟨-, hmem⟩ | ⟨howner, -⟩
    · simp [isRootBurn, not_isBurn_of_mem_ramOf hmem]
    · have hne : site.owner ≠ root := by omega
      simp [isRootBurn, hne]
  refine ⟨mid, depth, hram, hspans, hdepth, ?_, ?_⟩
  · rw [ramSites, hsites, List.takeWhile_append_of_pos hbefore, sitesOfLines_plain hplain,
      List.takeWhile_cons_of_neg (by simp [isRootBurn, hburn]), List.append_nil]
  · rw [romSites, hsites, List.dropWhile_append_of_pos hbefore, sitesOfLines_plain hplain,
      List.dropWhile_cons_of_neg (by simp [isRootBurn, hburn])]

/-- The ROM of a program that is relocated is contiguous, its expansion has the shapes that it had
before, and all of it is object code. -/
lemma Relocates.rom_contiguous {e : List Line} (h : Relocates p q lo start below) (hlo : root < lo)
    (he : Expands p (romOf (p.inst root).lines) e) :
    ∃ e', Expands q (romOf (q.inst root).lines) e' ∧ Contiguous start e' ∧
      e'.map Line.shape = e.map Line.shape ∧ ∀ line ∈ e', line.emits = true := by
  obtain ⟨mid, p₁, p₂, a₁, ram', rom', hlays, hbefore, hothers, hroot, -⟩ := h.layout
  have hle := hbefore.le
  have hrom : romOf (q.inst root).lines = rom' := by
    rw [hroot]
    exact romOf_append_of_shapes hbefore.shapes hlays.shapes
  have hsame : ∀ j, mid ≤ j → j < p.instances.size → (q.inst j).lines = (p₁.inst j).lines := by
    intro j hj _
    rw [hothers j (by omega), hbefore.reshaped.inst_eq j (.inr hj)]
  obtain ⟨e', he', hcont, -⟩ := hlays.contiguous
  refine ⟨e', ?_, hcont, ?_, ?_⟩
  · rw [hrom]
    exact hlays.spans.expands_congr hsame he'
  · refine (hlays.spans_before.shapes_expansion hlays.spans hlays.shapes (fun j _ _ => ?_) he he').2
    obtain ⟨lines, hlines, hshapes⟩ := hlays.reshaped.shapes j
    rw [hlines, hshapes]
  · exact hlays.spans.forall_mem_expansion he' hlays.emits_eq.1 hlays.emits_eq.2

/-! ### Linked operating systems -/

/-- What is known of the ROM of a linked operating system: its expansion is contiguous from the
highest position from which it does not reach behind the operand of the `.BURN`. -/
structure RomAt (q : Program) (start : Int) : Prop where
  startRom_eq : (q.inst root).burn.startRom = UInt16.ofInt start
  burn : ∃ site rest operand, q.romSites = site :: rest ∧ site.owner = root ∧
    site.line.statement = .directive .burn operand ∧ (q.inst root).burn.argument = operand.constant
  expands : q.Expands (romOf (q.inst root).lines) (q.romSites.map Site.line)
  regular : ∀ site ∈ q.romSites, site.line.statement.Regular
  emits : ∀ site ∈ q.romSites, site.line.emits = true
  contiguous : Contiguous start (q.romSites.map Site.line)
  nonneg : 0 ≤ start
  fits : layoutEnd start (q.romSites.map Site.line) ≤ q.romLimit
  highest : ∀ t, layoutEnd t (q.romSites.map Site.line) ≤ q.romLimit → t ≤ start

open Linker (Links)

/-- The ROM of an operating system that is relocated is placed as high as it can stand. -/
theorem Ready.romAt {l : Linker} {lines : List Line}
    (hready : Ready source .operatingSystem lib p)
    (hlinks : Links (Linker.start p exports).program root root (Linker.start p exports)
      (p.inst root).lines l lines)
    (hcount : (Burn.ofLines lines).count = 1)
    (hrelocates : Relocates (l.store root lines).program q p.instances.size
      ((l.store root lines).program.romStart l.next) below) :
    RomAt q ((l.store root lines).program.romStart l.next) := by
  have hlo := hready.root_lt
  have hpass : FirstPass p (l.store root lines).program l.next := hready.firstPass hlinks
  have hroot := inst_root_store hlinks
  generalize (l.store root lines).program = p₁ at *
  have hlines : (p₁.inst root).lines = lines := by rw [hroot]; rfl
  have hargument : (p₁.inst root).burn.argument = (Burn.ofLines lines).argument := by
    rw [hroot, Burn.ofLines_of_shapes hlinks.shapes, ← hready.burn_eq root hlo]
    rfl
  have hregular : p₁.RegularFrom p.instances.size := fun j hj line => hready.regular_pass hpass hj
  -- The `.BURN` is the first line of the ROM, before and behind relocation.
  have hburn : Burn.ofLines (q.inst root).lines = Burn.ofLines lines := by
    rw [← hlines]
    exact Burn.ofLines_of_shapes (hrelocates.shapes root).1
  obtain ⟨line, rest, operand, hrom, hst, -, hoperand⟩ := exists_burn_of_count (hburn ▸ hcount)
  have hisBurn : line.statement.isBurn = true := by rw [hst]; rfl
  have hplain : line.statement.target? = none := by rw [hst]; rfl
  obtain ⟨mid, depth, hspansRam, hspans, hdepth, -, hsites⟩ :=
    (hrelocates.spans hlo).sites_split hlo hrom hisBurn
  have hlomid := hspansRam.le
  have hexpands : q.Expands (romOf (q.inst root).lines) (q.romSites.map Site.line) := by
    rw [hrom, hsites]
    exact hspans.expands_sites (by omega)
  -- The lines of the ROM have the same shapes before and behind relocation.
  obtain ⟨mid₁, p₂, p₃, a₁, ram', rom', hlays, hbefore, -, hinst, -⟩ := hrelocates.layout
  obtain ⟨e, he⟩ := hlays.spans_before.exists_expands
  obtain ⟨e', he', hcont, hshapes, hemits⟩ := hrelocates.rom_contiguous hlo he
  obtain rfl := he'.unique hexpands
  have hmid := hbefore.le
  have hregularRom : ∀ line ∈ e, line.statement.Regular := by
    refine hlays.spans_before.forall_mem_expansion he (fun line hline => ?_) fun j hj hj' => ?_
    · exact hregular root (.inl rfl) line (List.dropWhile_sublist _ |>.subset hline)
    · exact hregular j (.inr ⟨by omega, hj'⟩)
  have hregular' := regular_of_shapes hregularRom hshapes
  have hargument' : (q.inst root).burn.argument = (p₁.inst root).burn.argument := by rw [hinst]
  have hlimit : q.romLimit = p₁.romLimit := by rw [romLimit, romLimit, hargument']
  obtain ⟨hnonneg, hfits, hhighest⟩ := hrelocates.start_highest hpass (by rwa [hlines])
    (by rw [hroot]; rfl) hregular he
  refine ⟨by rw [hinst], ?_, hexpands, fun site hsite => ?_, fun site hsite => ?_, hcont, hnonneg, ?_,
    fun t ht => hhighest t ?_⟩
  · rw [hsites, sitesOfLines_plain hplain]
    exact ⟨_, _, operand, rfl, rfl, hst, by rw [hargument', hargument, ← hburn, hoperand]⟩
  · exact hregular' _ (List.mem_map_of_mem hsite)
  · exact hemits _ (List.mem_map_of_mem hsite)
  · rw [hlimit, layoutEnd_congr hregular' hshapes]
    exact hfits
  · rwa [← hlimit, ← layoutEnd_congr hregular' hshapes]

namespace RomAt

variable {before after : List Site} {site : Site}

/-- The room of the lines before a line of the ROM does not depend on the symbols. -/
lemma roomAt_eq (h : RomAt q start) (hsplit : q.romSites = before ++ after) :
    q.roomAt before = room (before.map Site.line) :=
  roomAt_eq_room fun other hother => h.regular other (hsplit ▸ List.mem_append_left _ hother)

/-- Every line of the ROM stands where the lines of the ROM before it end. -/
lemma startingAt (h : RomAt q start) (hsplit : q.romSites = before ++ site :: after) :
    site.line.startingAt (start + q.roomAt before) = site.line := by
  have hcont := h.contiguous
  rw [hsplit, List.map_append, List.map_cons] at hcont
  rw [h.roomAt_eq hsplit]
  exact hcont.startingAt

/-- The ROM ends at or before the limit. -/
lemma end_le (h : RomAt q start) : start + q.roomAt q.romSites ≤ q.romLimit := by
  have hfits := h.fits
  rwa [h.contiguous.layoutEnd_eq, ← h.roomAt_eq (List.append_nil _).symm] at hfits

/-- A line of the ROM has the address where it stands, if that is in memory. -/
lemma address_eq (h : RomAt q start) (hsplit : q.romSites = before ++ site :: after) :
    site.line.address =
      if site.line.statement.isAddressable ∧ start + q.roomAt before ≤ 0xFFFF then
        some (UInt16.ofInt (start + q.roomAt before)) else none := by
  have hnonneg := h.nonneg
  have hmem : (site.line.statement.isAddressable && inMemory (start + q.roomAt before)) = true ↔
      site.line.statement.isAddressable = true ∧ start + q.roomAt before ≤ 0xFFFF := by
    simp only [inMemory, Bool.and_eq_true, decide_eq_true_eq]
    have : 0 ≤ start + q.roomAt before := by omega
    grind
  rw [Line.address_of_startingAt (h.startingAt hsplit)]
  exact if_congr hmem rfl rfl

end RomAt

end Pep10.Program
