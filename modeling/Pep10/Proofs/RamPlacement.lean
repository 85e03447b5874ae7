import Pep10.Proofs.RomPlacement

/-!
# The lines before the ROM

The lines before the `.BURN` are laid out so that they end where the ROM starts.  Every line of the
root is given the room that it took in the first layout, and an `.ALIGN` line of the root is padded
from below.  A macro that is called there is laid out from the address of the call on, and its
`.ALIGN` lines are padded from above: it may take more or less room than it was given.  If all
macros take the room that they are given, then the lines before the `.BURN` stand one behind the
other up to the ROM.
-/

namespace Pep10.Program

variable {p p' q : Program} {lib : MacroLibrary} {source : String}
  {exports : Option (List ExportedSymbol)} {options : Options} {lo hi table : Nat} {a b c start : Int}
  {line : Line} {lines lines' rest e e' : List Line}

/-! ### Room that is kept -/

/-- Every instance that some lines call takes as many bytes where it stands as it takes if the lines
are laid out from a position. -/
def KeepsRoomFrom (q : Program) (c : Int) (lines : List Line) : Prop :=
  ∀ before call after target e body, lines = before ++ call :: after →
    call.statement.target? = some target → q.Expands before e →
    q.Expands (q.inst target).lines body →
    layoutEnd (layoutEnd c e) body = layoutEnd c e + room body

/-- Every macro that is called before the `.BURN` takes as many bytes where it stands as it takes if
the program is laid out from zero. -/
def KeepsRoom (q : Program) : Prop := q.KeepsRoomFrom 0 (ramOf (q.inst root).lines)

lemma KeepsRoomFrom.of_plain (h : q.KeepsRoomFrom c (line :: rest))
    (hline : line.statement.target? = none) :
    q.KeepsRoomFrom (c + (line.statement.startingAt c).extent) rest := by
  intro before call after target e body hsplit htarget he hbody
  exact h (line :: before) call after target (line :: e) body (by rw [hsplit]; rfl) htarget
    (.plain hline he) hbody

lemma KeepsRoomFrom.of_call {target : Nat} {body : List Line}
    (h : q.KeepsRoomFrom c (line :: rest)) (hline : line.statement.target? = some target)
    (hbody : q.Expands (q.inst target).lines body) :
    layoutEnd c body = c + room body ∧ q.KeepsRoomFrom (c + room body) rest := by
  have hself : layoutEnd c body = c + room body :=
    h [] line rest target [] body rfl hline .nil hbody
  have hzero : (line.statement.startingAt c).extent = 0 :=
    Statement.extent_of_target? (by rwa [Statement.target?_startingAt])
  refine ⟨hself, ?_⟩
  intro before call after target' e body' hsplit htarget he hbody'
  have hnext := h (line :: before) call after target' (line :: (body ++ e)) body' (by rw [hsplit]; rfl)
    htarget (.call hline hbody he) hbody'
  rwa [layoutEnd, hzero, Int.natCast_zero, Int.add_zero, layoutEnd_append, hself] at hnext

/-- Lines that take the same room everywhere keep it. -/
lemma keepsRoomFrom_of_not_align
    (h : ∀ line ∈ lines, ∀ target, line.statement.target? = some target → ∀ body,
      q.Expands (q.inst target).lines body → ∀ inner ∈ body, inner.statement.isAlign = false) :
    q.KeepsRoomFrom c lines := by
  intro before call after target e body hsplit htarget _ hbody
  have hcall : call ∈ lines := hsplit ▸ List.mem_append_right _ List.mem_cons_self
  exact layoutEnd_of_not_align (h call hcall target htarget body hbody)

/-! ### Lines laid out before a position -/

namespace LaysBefore

/-- Lines whose calls keep their room have the addresses of standing one behind the other, and end
where they should. -/
theorem addressed (h : LaysBefore lo hi table p b lines p' a lines') (hsize : hi ≤ p.instances.size)
    (hq : ∀ j, lo ≤ j → j < hi → (q.inst j).lines = (p'.inst j).lines)
    (he : Expands p lines e) (he' : Expands q lines' e')
    (hregular : ∀ line ∈ e, line.statement.Regular) (hcont : Contiguous c e)
    (hkeeps : q.KeepsRoomFrom c lines') :
    Addressed a e' ∧ a + room e' = b := by
  induction h generalizing c e e' with
  | nil =>
    cases he'
    exact ⟨trivial, by simp⟩
  | @plain lo hi table p p₁ a b b₁ line line' rest rest' hline hrest hmoved hend ih =>
    have hline' : line'.statement.target? = none := hmoved.target_eq.trans hline
    obtain ⟨e₁, rfl, he₁⟩ := he.of_plain hline
    obtain ⟨e₁', rfl, he₁'⟩ := he'.of_plain hline'
    rw [List.forall_mem_cons] at hregular
    -- The line takes the same room in the first layout, whichever padding it has now.
    have hextent : (line'.statement.startingAt c).extent = line.statement.extent := by
      have hself : line.statement.startingAt c = line.statement := congrArg Line.statement hcont.1
      rw [← hregular.1.extent_startingAt_congr (congrArg Line.statement hmoved.shape_eq.symm), hself]
    have hkeeps₁ := hkeeps.of_plain hline'
    rw [hextent] at hkeeps₁
    obtain ⟨haddressed, hroom⟩ :=
      ih hsize (fun j hj hj' => by rw [hq j hj hj', inst_moveLabel]) he₁ he₁' hregular.2 hcont.2 hkeeps₁
    refine ⟨⟨?_, by rwa [hend]⟩, ?_⟩
    · rw [hmoved.address_eq, Line.address_startingAt_congr hmoved.shape_eq]
    · rw [room_cons]
      push_cast
      omega
  | @call lo mid hi table p p₁ p₂ a a₁ b b₁ line line' rest rest' body hline hlt hrest hmoved hend hbody
      ih =>
    have h1 := hbody.le
    have h2 := hrest.le
    have hline' : line'.statement.target? = some lo := hmoved.target_eq.trans hline
    obtain ⟨called, e₁, rfl, hecalled, he₁⟩ := he.of_call hline
    obtain ⟨called', e₁', rfl, hecalled', he₁'⟩ := he'.of_call hline'
    rw [List.forall_mem_cons, List.forall_mem_append] at hregular
    have hzero : line.statement.extent = 0 := Statement.extent_of_target? hline
    have hzero' : line'.statement.extent = 0 := Statement.extent_of_target? hline'
    rw [Contiguous, hzero, Int.natCast_zero, Int.add_zero, contiguous_append] at hcont
    -- The instance is laid out from the address of the call on.
    obtain ⟨e₂, he₂, hcont₂, -⟩ := hbody.contiguous
    have hlo : (q.inst lo).lines = body := by
      rw [hq lo (Nat.le_refl lo) (by omega), hbody.inst_self (by rwa [hrest.reshaped.size_eq])]
    have hinner : ∀ j, lo + 1 ≤ j → j < mid → (q.inst j).lines = (p₂.inst j).lines := by
      intro j hj hj'
      rw [hq j (by omega) (by omega), inst_setLines_ne (by omega)]
    obtain rfl : called' = e₂ := by
      refine hecalled'.unique ?_
      rw [hlo]
      exact hbody.spans.expands_congr hinner he₂
    -- It takes the room that it took in the first layout, which is the room that it is given.
    have hspans := hbody.spans_called
    have hexp : Expands p₁ (p₁.inst lo).lines called := hrest.expands_before (by omega) hspans hecalled
    have hcount := hspans.byteCount_eq (by rw [hrest.reshaped.size_eq]; omega) hexp hregular.2.1
    have hshapes : called'.map Line.shape = called.map Line.shape := by
      refine (hspans.shapes_expansion hbody.spans ?_ (fun j _ _ => ?_) hexp he₂).2
      · exact hbody.shapes
      · obtain ⟨lines, hlines, hshapes⟩ := hbody.reshaped.shapes j
        rw [hlines, hshapes, inst_moveLabel]
    obtain ⟨hkept, hkeeps₁⟩ := hkeeps.of_call hline' hecalled'
    have hsame : layoutEnd c called' = layoutEnd c called :=
      layoutEnd_congr (regular_of_shapes hregular.2.1 hshapes) hshapes
    rw [hcont.2.1.layoutEnd_eq] at hsame
    have hroom : (room called' : Int) = room called := by omega
    rw [hroom] at hkeeps₁
    have hlast : ∀ j, mid ≤ j → j < hi → (q.inst j).lines = (p₁.inst j).lines := by
      intro j hj hj'
      rw [hq j (by omega) hj', hbody.inst_behind hj]
    obtain ⟨haddressed, hroom₁⟩ := ih hsize hlast he₁ he₁' hregular.2.2 hcont.2.2 hkeeps₁
    refine ⟨⟨?_, ?_⟩, ?_⟩
    · rw [hmoved.address_eq, Line.address_startingAt_congr hmoved.shape_eq]
    · rw [hzero', Int.natCast_zero, Int.add_zero, addressed_append]
      refine ⟨hcont₂.addressed, ?_⟩
      rwa [hroom, ← hcount, hend]
    · rw [room_cons, room_append, hzero']
      push_cast
      omega

/-- An `.ALIGN` line before the `.BURN` starts at a multiple of its operand. -/
lemma aligned (h : LaysBefore lo hi table p b lines p' a lines') (hline : line ∈ lines') {n : UInt16}
    {padding : UInt16} (hst : line.statement = .align (.unsigned n) padding) :
    padding.toNat < n.toNat ∧ ∀ w, line.address = some w → n.toNat ∣ w.toNat := by
  have hmoved : ∀ {a : Int} {before line' : Line}, MovedTo a before line' →
      line'.statement = .align (.unsigned n) padding →
      padding.toNat < n.toNat ∧ ∀ w, line'.address = some w → n.toNat ∣ w.toNat := by
    intro a before line' hmoved hst
    obtain ⟨hlt, hdvd⟩ := hmoved.aligned n padding hst
    refine ⟨hlt, fun w hw => ?_⟩
    rw [hmoved.address_eq] at hw
    rw [← Line.toNat_of_address_startingAt hw] at hdvd
    exact_mod_cast hdvd
  induction h with
  | nil => cases hline
  | plain _ _ hmoves _ ih =>
    rcases List.mem_cons.1 hline with rfl | hmem
    · exact hmoved hmoves hst
    · exact ih hmem
  | call _ _ _ hmoves _ _ ih =>
    rcases List.mem_cons.1 hline with rfl | hmem
    · exact hmoved hmoves hst
    · exact ih hmem

end LaysBefore

/-! ### Relocated programs -/

namespace Relocates

variable {below : Int}

/-- The lines before the ROM are those that have been laid out before it. -/
lemma exists_laysBefore (h : Relocates p q lo start below) (hlo : root < lo) :
    ∃ mid p₁ p₂ a₁ rom,
      Lays true mid p.instances.size p.rootTable p start (romOf (p.inst root).lines) p₁ a₁ rom ∧
      LaysBefore lo mid p.rootTable p₁ start (ramOf (p.inst root).lines) p₂ below
        (ramOf (q.inst root).lines) ∧
      ∀ j, lo ≤ j → j < mid → (q.inst j).lines = (p₂.inst j).lines := by
  obtain ⟨mid, p₁, p₂, a₁, ram, rom, hlays, hbefore, hothers, hroot, -⟩ := h.layout
  have hram : ramOf (q.inst root).lines = ram := by
    rw [hroot]
    exact ramOf_append_of_shapes hbefore.shapes hlays.shapes
  refine ⟨mid, p₁, p₂, a₁, rom, hlays, by rwa [hram], fun j hj _ => ?_⟩
  rw [hothers j (by omega)]

/-- No line of the expansion before the ROM emits code. -/
lemma ram_silent (h : Relocates p q lo start below) (hlo : root < lo)
    (he : Expands q (ramOf (q.inst root).lines) e) : ∀ line ∈ e, line.emits = false := by
  obtain ⟨mid, p₁, p₂, a₁, rom, -, hbefore, hq⟩ := h.exists_laysBefore hlo
  refine (hbefore.spans.congr hq).forall_mem_expansion he hbefore.silent.1 fun j hj hj' => ?_
  rw [hq j hj hj']
  exact hbefore.silent.2 j hj hj'

/-- If the lines before the ROM stood one behind the other, and their calls keep their room, then they
have the addresses of standing one behind the other up to the ROM. -/
lemma ram_addressed (h : Relocates p q lo start below) (hlo : root < lo)
    (he : Expands p (ramOf (p.inst root).lines) e) (he' : Expands q (ramOf (q.inst root).lines) e')
    (hregular : ∀ line ∈ e, line.statement.Regular) (hcont : Contiguous c e)
    (hkeeps : q.KeepsRoomFrom c (ramOf (q.inst root).lines)) :
    Addressed below e' ∧ below + room e' = start := by
  obtain ⟨mid, p₁, p₂, a₁, rom, hlays, hbefore, hq⟩ := h.exists_laysBefore hlo
  have hle := hlays.le
  -- Laying out the ROM has not touched what is called before it.
  have hsame : ∀ j, lo ≤ j → j < mid → (p.inst j).lines = (p₁.inst j).lines :=
    fun j _ hj' => by rw [hlays.reshaped.inst_eq j (.inl hj')]
  have hep : Expands p₁ (ramOf (p.inst root).lines) e :=
    (hbefore.spans_before.congr hsame).expands_congr (fun j hj hj' => (hsame j hj hj').symm) he
  exact hbefore.addressed (by rw [hlays.reshaped.size_eq]; omega) hq hep he' hregular hcont hkeeps

end Relocates

/-! ### Linked operating systems -/

/-- What is known of the lines before the `.BURN` of a linked operating system, whose ROM starts at
a position. -/
structure RamAt (q : Program) (start : Int) : Prop where
  expands : q.Expands (ramOf (q.inst root).lines) (q.ramSites.map Site.line)
  regular : ∀ site ∈ q.ramSites, site.line.statement.Regular
  silent : ∀ site ∈ q.ramSites, site.line.emits = false
  aligned : ∀ line ∈ ramOf (q.inst root).lines, ∀ n padding,
    line.statement = .align (.unsigned n) padding →
      padding.toNat < n.toNat ∧ ∀ w, line.address = some w → n.toNat ∣ w.toNat
  packed : q.KeepsRoom → ∃ below : Int, 0 ≤ below ∧ Addressed below (q.ramSites.map Site.line) ∧
    below + room (q.ramSites.map Site.line) = start

open Linker (Links)

/-- The lines before the `.BURN` of an operating system that is relocated. -/
theorem Ready.ramAt {l : Linker} {lines : List Line} {below : Int}
    (hready : Ready source .operatingSystem lib p)
    (hlinks : Links (Linker.start p exports).program root root (Linker.start p exports)
      (p.inst root).lines l lines)
    (hcount : (Burn.ofLines lines).count = 1)
    (hrelocates : Relocates (l.store root lines).program q p.instances.size
      ((l.store root lines).program.romStart l.next) below) :
    RamAt q ((l.store root lines).program.romStart l.next) := by
  have hlo := hready.root_lt
  have hpass : FirstPass p (l.store root lines).program l.next := hready.firstPass hlinks
  have hroot := inst_root_store hlinks
  generalize (l.store root lines).program = p₁ at *
  have hlines : (p₁.inst root).lines = lines := by rw [hroot]; rfl
  rw [← hlines] at hcount
  have hregular : p₁.RegularFrom p.instances.size := fun j hj line => hready.regular_pass hpass hj
  have hregular' : q.RegularFrom p.instances.size := by
    intro j hj
    rw [hrelocates.size_eq] at hj
    exact regular_of_shapes (hregular j hj) (hrelocates.shapes j).1
  obtain ⟨burn, rest, operand, hrom, hst, -⟩ :=
    exists_burn_of_count (Burn.ofLines_of_shapes (hrelocates.shapes root).1 ▸ hcount)
  obtain ⟨mid, depth, hspans, hspansRom, hdepth, hsites, -⟩ :=
    (hrelocates.spans hlo).sites_split hlo hrom (by rw [hst]; rfl)
  have hmid := hspansRom.le
  have hexpands : q.Expands (ramOf (q.inst root).lines) (q.ramSites.map Site.line) := by
    rw [hsites]
    exact hspans.expands_sites (by omega)
  have hmem : ∀ line ∈ q.ramSites.map Site.line, line.statement.Regular :=
    hspans.forall_mem_expansion hexpands
      (fun line hline => hregular' root (.inl rfl) line (List.takeWhile_sublist _ |>.subset hline))
      fun j hj hj' => hregular' j (.inr ⟨hj, by omega⟩)
  refine ⟨hexpands, fun site hsite => hmem _ (List.mem_map_of_mem hsite), fun site hsite => ?_,
    fun line hline n padding hst => ?_, fun hkeeps => ?_⟩
  · exact hrelocates.ram_silent hlo hexpands _ (List.mem_map_of_mem hsite)
  · obtain ⟨_, _, _, _, _, -, hbefore, -⟩ := hrelocates.exists_laysBefore hlo
    exact hbefore.aligned hline hst
  · -- Before relocation these lines stood one behind the other from zero on.
    have hspans₁ := hpass.spans
    rw [← ramOf_append_romOf (p₁.inst root).lines] at hspans₁
    obtain ⟨mid₁, hspansRam₁, hspansRom₁⟩ := hspans₁.exists_of_append
    have hle₁ := hspansRom₁.le
    obtain ⟨e, he⟩ := hspansRam₁.exists_expands
    obtain ⟨e', he'⟩ := hspansRom₁.exists_expands
    obtain ⟨hcont, -⟩ := hpass.rom_placed hcount (by rw [hroot]; rfl) he he'
    have hregularRam : ∀ line ∈ e, line.statement.Regular := by
      refine hspansRam₁.forall_mem_expansion he (fun line hline => ?_)
        fun j hj hj' => hregular j (.inr ⟨hj, by omega⟩)
      exact hregular root (.inl rfl) line (List.takeWhile_sublist _ |>.subset hline)
    exact ⟨below, hrelocates.below_nonneg,
      hrelocates.ram_addressed hlo he hexpands hregularRam hcont hkeeps⟩

/-- In a program whose macros have no `.ALIGN` lines every macro keeps its room. -/
lemma Linked.keepsRoom_of_not_align {kind : ModuleKind} (h : Linked source kind lib exports options q)
    (hlines : ∀ j < q.instances.size, j ≠ root → ∀ line ∈ (q.inst j).lines,
      line.statement.isAlign = false) : q.KeepsRoom := by
  obtain ⟨lo, hlo, hspans, -⟩ := h.exists_resolved
  refine keepsRoomFrom_of_not_align fun line hline target htarget body hbody => ?_
  have hmem : line ∈ (q.inst root).lines := List.takeWhile_sublist _ |>.subset hline
  obtain ⟨hlow, hhigh⟩ := hspans.target_mem hmem htarget
  obtain ⟨mid, hmid, hcalled⟩ := hspans.inner hlow hhigh
  exact hcalled.forall_mem_expansion hbody (hlines target hhigh (by omega))
    fun j hj hj' => hlines j (by omega) (by omega)

namespace RamAt

variable {before after : List Site} {site : Site}

/-- The line at a site before the `.BURN` stands as far before the ROM as it takes room for it and
the sites behind it. -/
lemma address_eq (h : RamAt q start) (hkeeps : q.KeepsRoom)
    (hsplit : q.ramSites = before ++ site :: after) :
    0 ≤ start - q.roomAt (site :: after) ∧
      site.line.address =
        if site.line.statement.isAddressable ∧ start - q.roomAt (site :: after) ≤ 0xFFFF then
          some (UInt16.ofInt (start - q.roomAt (site :: after))) else none := by
  obtain ⟨below, hbelow, haddressed, hend⟩ := h.packed hkeeps
  have hregular := h.regular
  rw [hsplit, List.forall_mem_append] at hregular
  have hbefore : room (before.map Site.line) = q.roomAt before := (roomAt_eq_room hregular.1).symm
  have hafter : room ((site :: after).map Site.line) = q.roomAt (site :: after) :=
    (roomAt_eq_room hregular.2).symm
  rw [hsplit, List.map_append, room_append, hbefore, hafter] at hend
  rw [hsplit, List.map_append, addressed_append, hbefore] at haddressed
  have hposition : below + q.roomAt before = start - q.roomAt (site :: after) := by
    push_cast at hend
    omega
  have hnonneg : 0 ≤ start - q.roomAt (site :: after) := by omega
  refine ⟨hnonneg, ?_⟩
  rw [haddressed.2.1, hposition]
  refine if_congr ?_ rfl rfl
  simp only [inMemory, Bool.and_eq_true, decide_eq_true_eq]
  grind

end RamAt

/-- The lines before the `.BURN` of a linked operating system: an `.ALIGN` line of the root starts
at a multiple of its operand; and if every macro that is called there takes as many bytes as it does
when the program is laid out from zero, then the lines stand one behind the other up to where the
ROM starts. -/
theorem Linked.ram_packed (h : Linked source .operatingSystem lib exports options q) :
    ∃ start : Int, 0 ≤ start ∧ ((q.inst root).burn.startRom.toNat : Int) = start % 65536 ∧
      (∀ burn rest, q.romSites = burn :: rest →
        burn.line.address = if start ≤ 0xFFFF then some (UInt16.ofInt start) else none) ∧
      q.Expands (ramOf (q.inst root).lines) (q.ramSites.map Site.line) ∧
      (∀ line ∈ ramOf (q.inst root).lines, ∀ operand padding,
        line.statement = .align operand padding → ∃ n, operand = .unsigned n ∧
          padding.toNat < n.toNat ∧ ∀ w, line.address = some w → n.toNat ∣ w.toNat) ∧
      (q.KeepsRoom → ∀ before site after, q.ramSites = before ++ site :: after →
        0 ≤ start - q.roomAt (site :: after) ∧
          site.line.address =
            if site.line.statement.isAddressable ∧ start - q.roomAt (site :: after) ≤ 0xFFFF then
              some (UInt16.ofInt (start - q.roomAt (site :: after))) else none) := by
  obtain ⟨p, l, lines, below, hready, hlinks, hcount, hrelocates⟩ := h.exists_relocates
  have hrom := hready.romAt hlinks hcount hrelocates
  have hram := hready.ramAt hlinks hcount hrelocates
  refine ⟨_, hrom.nonneg, ?_, ?_, hram.expands, ?_, fun hkeeps before site after =>
    hram.address_eq hkeeps⟩
  · rw [hrom.startRom_eq]
    exact toNat_ofInt_eq_emod _
  · intro burn rest hsites
    obtain ⟨site, rest', operand, hsites', -, hst, -⟩ := hrom.burn
    obtain ⟨rfl, -⟩ : site = burn ∧ rest' = rest := by simpa [hsites] using hsites'.symm
    have haddress := hrom.address_eq (show q.romSites = [] ++ site :: rest from hsites)
    have hzero : q.roomAt [] = 0 := rfl
    rw [hst, hzero, Int.natCast_zero, Int.add_zero] at haddress
    simpa [Statement.isAddressable] using haddress
  · intro line hline operand padding hst
    have hregular : line.statement.Regular := by
      obtain ⟨site, hsite, rfl⟩ := List.mem_map.1 (hram.expands.mem hline)
      exact hram.regular site hsite
    rw [hst] at hregular
    obtain ⟨n, -, rfl⟩ := hregular
    exact ⟨n, rfl, hram.aligned line hline n padding hst⟩

/-- A library with a macro that takes three bytes and one that fills up to an even address first. -/
def pairLibrary : MacroLibrary :=
  ⟨[⟨"PAIR", 1, .user, "@PAIR 1\n.WORD $1\n.BYTE 1\n.END\n"⟩,
    ⟨"EDGE", 0, .user, "@EDGE 0\n.ALIGN 2\n.BYTE 1\n.END\n"⟩]⟩

/-- An operating system with macros and an `.ALIGN` line before its `.BURN`. -/
def packedSource : String :=
  "x: .BLOCK 2\n@PAIR 5\n.ALIGN 8\n; remark\n@PAIR 7\n.BURN 0x0FFF\n.BYTE 1\n.END\n"

/-- The lines of an operating system that are packed against its ROM. -/
theorem ram_packed_pair :
    ∃ (q : Program) (start : Int), Linked packedSource .operatingSystem pairLibrary none {} q ∧
      q.KeepsRoom ∧ start % 65536 = 4095 ∧
      q.ramSites.map (fun site => site.line.address) =
        [some 4083, some 4085, some 4085, some 4087, some 4088, some 4088, none, some 4092, some 4092,
          some 4094, some 4095] ∧
      ∀ before site after, q.ramSites = before ++ site :: after →
        site.line.address =
          if site.line.statement.isAddressable ∧ start - q.roomAt (site :: after) ≤ 0xFFFF then
            some (UInt16.ofInt (start - q.roomAt (site :: after))) else none := by
  obtain ⟨q, hq⟩ : ∃ q, q = throughPhases packedSource .operatingSystem pairLibrary none {} := ⟨_, rfl⟩
  obtain ⟨hreports, haddresses, hstartRom, hlines⟩ : q.2 = [] ∧
      q.1.ramSites.map (fun site => site.line.address) =
        [some 4083, some 4085, some 4085, some 4087, some 4088, some 4088, none, some 4092, some 4092,
          some 4094, some 4095] ∧
      (q.1.inst root).burn.startRom = 4095 ∧
      ∀ j < q.1.instances.size, j ≠ root → ∀ line ∈ (q.1.inst j).lines,
        line.statement.isAlign = false := by
    rw [hq, throughPhases, ofSource_of_chars packedSource rfl]
    decide +kernel
  have h : Linked packedSource .operatingSystem pairLibrary none {} q.1 := by
    subst hq
    exact linked_of_throughPhases hreports
  have hkeeps : q.1.KeepsRoom := h.keepsRoom_of_not_align hlines
  obtain ⟨start, -, hstart, -, -, -, hpacked⟩ := h.ram_packed
  rw [hstartRom] at hstart
  exact ⟨q.1, start, h, hkeeps, hstart.symm, haddresses,
    fun before site after hsplit => (hpacked hkeeps before site after hsplit).2⟩

/-- An operating system that calls a macro with an `.ALIGN` line right before its `.BURN`. -/
def edgeSource : String := "@EDGE\n.BURN 0x0FFF\n.WORD 2\n.END\n"

/-- A macro that takes more room than it is given reaches into the ROM: its one byte stands at the
address of the first word there. -/
theorem ram_reaches_into_rom :
    ∃ q, Linked edgeSource .operatingSystem pairLibrary none {} q ∧
      q.ramSites.map (fun site => (site.line.address, (q.sizeAt site).toNat)) =
        [(some 4093, 0), (some 4093, 1), (some 4094, 1), (some 4095, 0)] ∧
      q.romSites.map (fun site => (site.line.address, (q.sizeAt site).toNat)) =
        [(some 4094, 0), (some 4094, 2), (some 4096, 0)] ∧
      (q.inst root).burn.startRom = 4094 := by
  obtain ⟨q, hq⟩ : ∃ q, q = throughPhases edgeSource .operatingSystem pairLibrary none {} := ⟨_, rfl⟩
  obtain ⟨hreports, hfacts⟩ : q.2 = [] ∧
      q.1.ramSites.map (fun site => (site.line.address, (q.1.sizeAt site).toNat)) =
        [(some 4093, 0), (some 4093, 1), (some 4094, 1), (some 4095, 0)] ∧
      q.1.romSites.map (fun site => (site.line.address, (q.1.sizeAt site).toNat)) =
        [(some 4094, 0), (some 4094, 2), (some 4096, 0)] ∧
      (q.1.inst root).burn.startRom = 4094 := by
    rw [hq, throughPhases, ofSource_of_chars edgeSource rfl]
    decide +kernel
  refine ⟨q.1, ?_, hfacts⟩
  subst hq
  exact linked_of_throughPhases hreports

end Pep10.Program
