import Pep10.Proofs.BurnLines
import Pep10.Proofs.RomPlacement
import Pep10.Proofs.Program.Shift

/-!
# Relocation without alignment

If no line of an operating system is an `.ALIGN`, then relocation is a shift.  The ROM takes the
same room wherever it starts, so that it ends at the operand of the `.BURN`, and the lines before it
keep their distance to it.  So all lines and all labels move by the distance between the end of the
first layout and the operand of the `.BURN`, and there is a report exactly if this leads below zero.
-/

namespace Pep10

/-- The site with its line moved by a distance. -/
def Site.movedBy (d : Int) (emits : Bool) (site : Site) : Site :=
  { site with line := site.line.movedBy d emits }

namespace Program

variable {p p₀ p₁ p₂ q : Program} {lo mid hi depth depth' id index next : Nat} {rootLine : Option Nat}
  {d start below a₁ : Int} {emits : Bool} {lines ram' rom' : List Line}

/-! ### Sites -/

/-- If the lines of an interval are moved, then so are the lines at the sites. -/
lemma Spans.sitesOfLines_movedBy (h : Spans p lo lines hi) (hdepth : hi - lo ≤ depth)
    (hdepth' : hi - lo ≤ depth')
    (hq : ∀ j, lo ≤ j → j < hi → (q.inst j).lines = (p.inst j).lines.map (Line.movedBy d emits)) :
    q.sitesOfLines depth' rootLine id index (lines.map (Line.movedBy d emits)) =
      (p.sitesOfLines depth rootLine id index lines).map (Site.movedBy d emits) := by
  induction h generalizing depth depth' rootLine id index with
  | nil => rfl
  | plain hline _ ih =>
    rw [List.map_cons, sitesOfLines_plain hline, sitesOfLines_plain (by simpa using hline), List.map_cons,
      ih hdepth hdepth' hq]
    rfl
  | @call lo mid hi line rest hline hbody hrest ihbody ihrest =>
    have h1 := hbody.le
    have h2 := hrest.le
    obtain ⟨depth, rfl⟩ : ∃ n, depth = n + 1 := ⟨depth - 1, by omega⟩
    obtain ⟨depth', rfl⟩ : ∃ n, depth' = n + 1 := ⟨depth' - 1, by omega⟩
    rw [List.map_cons, sitesOfLines_call hline, sitesOfLines_call (by simpa using hline), List.map_cons,
      List.map_append, hq lo (Nat.le_refl lo) (by omega),
      ihbody (show mid - (lo + 1) ≤ depth by omega) (show mid - (lo + 1) ≤ depth' by omega)
        fun j hj hj' => hq j (by omega) (by omega),
      ihrest (show hi - mid ≤ depth + 1 by omega) (show hi - mid ≤ depth' + 1 by omega)
        fun j hj hj' => hq j (by omega) hj']
    rfl

/-- Every one of some lines is at a site. -/
lemma exists_site_own (p : Program) (depth : Nat) (rootLine : Option Nat) (id index : Nat) {n : Nat}
    {line : Line} (hline : lines[n]? = some line) :
    ∃ site ∈ p.sitesOfLines depth rootLine id index lines,
      site.owner = id ∧ site.index = index + n ∧ site.line = line := by
  induction lines generalizing index n with
  | nil => cases hline
  | cons first rest ih =>
    cases n with
    | zero =>
      cases hline
      exact ⟨_, List.mem_cons_self, rfl, rfl, rfl⟩
    | succ n =>
      obtain ⟨site, hsite, howner, hindex, heq⟩ := ih (index + 1) hline
      exact ⟨site, List.mem_cons_of_mem _ (List.mem_append_right _ hsite), howner, by omega, heq⟩

/-- Every line of an instance in the interval is at a site. -/
lemma Spans.exists_site (h : Spans p lo lines hi) (hdepth : hi - lo ≤ depth) {j n : Nat} (hlo : lo ≤ j)
    (hhi : j < hi) {line : Line} (hline : (p.inst j).lines[n]? = some line) :
    ∃ site ∈ p.sitesOfLines depth rootLine id index lines,
      site.owner = j ∧ site.index = n ∧ site.line = line := by
  induction h generalizing depth rootLine id index with
  | nil => omega
  | plain hplain _ ih =>
    obtain ⟨site, hsite, hrest⟩ := ih hdepth hlo hhi
    rw [sitesOfLines_plain hplain]
    exact ⟨site, List.mem_cons_of_mem _ hsite, hrest⟩
  | @call lo mid hi first rest hcall hbody hrest ihbody ihrest =>
    have h1 := hbody.le
    have h2 := hrest.le
    obtain ⟨depth, rfl⟩ : ∃ m, depth = m + 1 := ⟨depth - 1, by omega⟩
    rw [sitesOfLines_call hcall]
    rcases Nat.lt_or_ge j mid with hm | hm
    · rcases Nat.eq_or_lt_of_le hlo with rfl | hlt
      · obtain ⟨site, hsite, howner, hindex, heq⟩ :=
          exists_site_own p depth (some (rootLine.getD first.number)) lo 0 hline
        exact ⟨site, List.mem_cons_of_mem _ (List.mem_append_left _ hsite), howner,
          by rw [hindex, Nat.zero_add], heq⟩
      · obtain ⟨site, hsite, hsite'⟩ : ∃ site ∈ p.sitesOfLines depth
            (some (rootLine.getD first.number)) lo 0 (p.inst lo).lines,
            site.owner = j ∧ site.index = n ∧ site.line = line := ihbody (by omega) hlt hm
        exact ⟨site, List.mem_cons_of_mem _ (List.mem_append_left _ hsite), hsite'⟩
    · obtain ⟨site, hsite, hsite'⟩ : ∃ site ∈ p.sitesOfLines (depth + 1) rootLine id (index + 1) rest,
          site.owner = j ∧ site.index = n ∧ site.line = line := ihrest (by omega) hm hhi
      exact ⟨site, List.mem_cons_of_mem _ (List.mem_append_right _ hsite), hsite'⟩

/-- Every line of an instance that can be reached is at a site of the root. -/
lemma Spans.exists_site_root (h : Spans p lo (p.inst root).lines p.instances.size) (hlo : root < lo)
    {n : Nat} (hid : id ∈ p.reachable root) {line : Line} (hline : (p.inst id).lines[n]? = some line) :
    ∃ site ∈ p.sites root, site.owner = id ∧ site.index = n ∧ site.line = line := by
  obtain ⟨depth, hdepth, hsites⟩ := h.sites_eq hlo
  rw [hsites]
  rcases (h.mem_reachable_iff hlo).1 hid with rfl | ⟨hlow, hhigh⟩
  · obtain ⟨site, hsite, howner, hindex, heq⟩ := exists_site_own p depth none root 0 hline
    exact ⟨site, hsite, howner, by rw [hindex, Nat.zero_add], heq⟩
  · exact h.exists_site hdepth hlow hhigh hline

/-! ### Behind the first pass -/

/-- Addition of words is that of positions modulo the size of memory. -/
lemma ofInt_toNat_add (w : UInt16) (d : Int) : UInt16.ofInt (w.toNat + d) = w + UInt16.ofInt d := by
  have hsum := toNat_ofInt_eq_emod (w.toNat + d)
  have hd := toNat_ofInt_eq_emod d
  have hadd := UInt16.toNat_add w (UInt16.ofInt d)
  apply UInt16.toNat_inj.1
  omega

lemma ofInt_natCast (n : Nat) : UInt16.ofInt n = UInt16.ofNat n := by
  have h := toNat_ofInt_eq_emod n
  apply UInt16.toNat_inj.1
  rw [UInt16.toNat_ofNat']
  omega

namespace Resolved

variable {exports : List ExportedSymbol}

/-- The root and the copies declare their labels once, and bind them. -/
lemma bound (h : Resolved p lo exports) (hid : id = root ∨ lo ≤ id ∧ id < p.instances.size) :
    (∀ line ∈ (p.inst id).lines, Bound root p.symbols (p.inst id).table line) ∧
      ((p.inst id).lines.filterMap Line.label).Nodup := by
  rcases hid with rfl | ⟨hlow, hhigh⟩
  · have htable : (p.inst root).table = root := h.root_table
    exact ⟨by rw [htable]; exact h.root_bound, h.root_nodup⟩
  · exact ⟨(h.closed id hlow hhigh).bound, (h.closed id hlow hhigh).nodup⟩

/-- A symbol table belongs to one instance. -/
lemma mem_of_laid (h : Resolved p lo exports) (hid : id = root ∨ lo ≤ id ∧ id < p.instances.size)
    {line : Line}
    (hlaid : Laid p lo p.instances.size p.rootTable (p.inst root).lines (p.inst id).table line) :
    line ∈ (p.inst id).lines := by
  have hroot : (p.inst root).table = root := h.root_table
  rcases hlaid with ⟨htable, hline⟩ | ⟨j, hj, hj', htable, hline⟩
  · rcases hid with rfl | ⟨hlow, hhigh⟩
    · exact hline
    · have := (h.table_lt id hlow hhigh).1
      rw [htable, h.root_table] at this
      omega
  · rcases hid with rfl | ⟨hlow, hhigh⟩
    · have := (h.table_lt j hj hj').1
      omega
    · rwa [h.table_inj id j hlow hhigh hj hj' htable]

end Resolved

lemma laid_of_mem (hid : id = root ∨ lo ≤ id ∧ id < p.instances.size) {line : Line}
    (hline : line ∈ (p.inst id).lines) :
    Laid p lo p.instances.size p.rootTable (p.inst root).lines (p.inst id).table line := by
  rcases hid with rfl | ⟨hlow, hhigh⟩
  · exact .inl ⟨rfl, hline⟩
  · exact .inr ⟨id, hlow, hhigh, rfl, hline⟩

/-- What is known behind the first pass of an operating system that has one `.BURN` and no
`.ALIGN`. -/
structure UnalignedPass (p₀ p : Program) (next : Nat) : Prop where
  pass : FirstPass p₀ p next
  root_lt : root < p₀.instances.size
  one_burn : (Burn.ofLines (p.inst root).lines).count = 1
  burn_address : ∃ w, (p.inst root).burn.address = Linker.burnAddress (p.inst root).lines w
  regular : p.RegularFrom p₀.instances.size
  unaligned : ∀ e, p.Expands (p.inst root).lines e → ∀ line ∈ e, line.statement.isAlign = false
  resolved : Resolved p p₀.instances.size []

/-- The distance by which an operating system is moved. -/
def shift (p : Program) (next : Nat) : Int := p.romLimit - next

namespace UnalignedPass

/-- All sites have sizes that do not depend on the symbols. -/
lemma regular_sites (h : UnalignedPass p₀ p next) :
    ∀ site ∈ p.sites root, site.line.statement.Regular := by
  intro site hsite
  obtain ⟨depth, hdepth, hsites⟩ := h.pass.spans.sites_eq h.root_lt
  rcases h.pass.spans.mem_sites hdepth (hsites ▸ hsite) with ⟨-, hmem⟩ | ⟨hlow, hhigh, hmem⟩
  · exact h.regular root (.inl rfl) _ hmem
  · exact h.regular _ (.inr ⟨hlow, hhigh⟩) _ hmem

/-- Behind the first pass the lines before the `.BURN` stand from zero on, and the ROM behind
them. -/
lemma stands (h : UnalignedPass p₀ p next) :
    ∃ ram rom, Stands p (ramOf (p.inst root).lines) 0 ram ∧
      Stands p (romOf (p.inst root).lines) (room ram) rom ∧
      (p.inst root).burn.address.toNat = room ram ∧ next = room ram + room rom := by
  have hspans := h.pass.spans
  have hnext := h.pass.next_le
  have happend := ramOf_append_romOf (p.inst root).lines
  rw [← happend] at hspans
  obtain ⟨mid, hspansRam, hspansRom⟩ := hspans.exists_of_append
  have h1 := hspansRam.le
  have h2 := hspansRom.le
  obtain ⟨ram, hram⟩ := hspansRam.exists_expands
  obtain ⟨rom, hrom⟩ := hspansRom.exists_expands
  obtain ⟨w, hw⟩ := h.burn_address
  obtain ⟨hcontRam, haddress, hcontRom, hroom⟩ := h.pass.rom_placed h.one_burn hw hram hrom
  have halign := h.unaligned (ram ++ rom) (by rw [← happend]; exact hram.append hrom)
  rw [List.forall_mem_append] at halign
  have hregularRam : ∀ line ∈ ram, line.statement.Regular :=
    hspansRam.forall_mem_expansion hram
      (fun line hline => h.regular root (.inl rfl) line (List.takeWhile_sublist _ |>.subset hline))
      fun j hj hj' => h.regular j (.inr ⟨hj, by omega⟩)
  have hregularRom : ∀ line ∈ rom, line.statement.Regular :=
    hspansRom.forall_mem_expansion hrom
      (fun line hline => h.regular root (.inl rfl) line (List.dropWhile_sublist _ |>.subset hline))
      fun j hj hj' => h.regular j (.inr ⟨by omega, hj'⟩)
  exact ⟨ram, rom, ⟨hram, hcontRam, Int.le_refl 0, by omega, halign.1, hregularRam⟩,
    ⟨hrom, hcontRom, by omega, by omega, halign.2, hregularRom⟩, haddress, hroom⟩

/-- The first layout takes the bytes that have been placed. -/
lemma byteCount_eq (h : UnalignedPass p₀ p next) : p.byteCount root = next := by
  obtain ⟨e, he, -, hnext⟩ := h.pass.placed
  rw [byteCount_eq_roomAt, roomAt_eq_room h.regular_sites, hnext,
    he.unique (h.pass.expands_sites h.root_lt)]

/-- Behind the first pass, every line stands where the lines before it end. -/
lemma address_eq (h : UnalignedPass p₀ p next) (before : List Site) (site : Site) (after : List Site)
    (hsplit : p.sites root = before ++ site :: after) :
    site.line.address.map UInt16.toNat =
      if site.line.statement.isAddressable then some (p.roomAt before) else none := by
  obtain ⟨e, he, hcont, hnext⟩ := h.pass.placed
  have hle := h.pass.next_le
  have hregular := h.regular_sites
  rw [he.unique (h.pass.expands_sites h.root_lt), hsplit, List.map_append] at hcont hnext
  rw [hsplit, List.forall_mem_append] at hregular
  have hbefore : p.roomAt before = room (before.map Site.line) := roomAt_eq_room hregular.1
  rw [room_append, ← hbefore] at hnext
  have hstart := hcont.startingAt
  rw [Int.zero_add, ← hbefore] at hstart
  exact address_eq_of_startingAt hstart (by omega)

/-- The ROM ends at the operand of the `.BURN`. -/
lemma romStart_eq (h : UnalignedPass p₀ p next) {ram rom : List Line}
    (hrom : Stands p (romOf (p.inst root).lines) (room ram) rom)
    (haddress : (p.inst root).burn.address.toNat = room ram) (hnext : next = room ram + room rom) :
    p.romStart next = room ram + p.shift next := by
  have hspans := h.pass.spans
  rw [← ramOf_append_romOf (p.inst root).lines] at hspans
  obtain ⟨mid, hspansRam, hspansRom⟩ := hspans.exists_of_append
  have h1 := hspansRam.le
  have hfits : ∀ t, p.romFits t = true ↔ t + room rom ≤ p.romLimit := by
    intro t
    rw [romFits, decide_eq_true_iff, hspansRom.linesEnd_eq (by omega) hrom.expands,
      layoutEnd_of_not_align hrom.steady]
    · exact fun line hline => h.regular root (.inl rfl) line (List.dropWhile_sublist _ |>.subset hline)
    · exact fun j hj hj' => h.regular j (.inr ⟨by omega, hj'⟩)
  obtain ⟨hmax, hend⟩ : (∀ t, p.romFits t = true → t ≤ p.romStart next) ∧
      (p.romFits (p.romStart next) = true ∨ p.romStart next ≤ 0 ∧
        p.romStart next ≤ p.romLimit - (next - (p.inst root).burn.address.toNat)) := by
    refine searchStart_spec (fun a b hab hb => ?_) fun a ha => ?_
    · rw [hfits] at hb ⊢
      omega
    · rw [hfits] at ha
      omega
  have hguess := hmax (p.romLimit - room rom) ((hfits _).2 (by omega))
  rw [hfits] at hend
  rw [shift]
  omega

/-- The two layouts of relocation move everything by the same distance. -/
theorem layouts (h : UnalignedPass p₀ p next)
    (hlays : Lays true mid p.instances.size p.rootTable p (p.romStart next)
      (romOf (p.inst root).lines) p₁ a₁ rom')
    (hbefore : LaysBefore p₀.instances.size mid p.rootTable p₁ (p.romStart next)
      (ramOf (p.inst root).lines) p₂ below ram') :
    below = p.shift next ∧
      rom' = (romOf (p.inst root).lines).map (Line.movedBy (p.shift next) true) ∧
      ram' = (ramOf (p.inst root).lines).map (Line.movedBy (p.shift next) false) ∧
      Shifts (p.shift next) true mid p.instances.size p.rootTable (romOf (p.inst root).lines) p p₁ ∧
      Shifts (p.shift next) false p₀.instances.size mid p.rootTable (ramOf (p.inst root).lines) p₁ p₂ := by
  obtain ⟨ram, rom, hram, hrom, haddress, hnext⟩ := h.stands
  have hstart := h.romStart_eq hrom haddress hnext
  have h1 := hbefore.le
  have h2 := hlays.le
  have htable : p.rootTable < p.symbols.size := by
    rw [h.resolved.root_table]
    exact h.resolved.root_lt
  have htables : ∀ j, p₀.instances.size ≤ j → j < p.instances.size →
      (p.inst j).table < p.symbols.size := fun j hj hj' => (h.resolved.table_lt j hj hj').2
  obtain ⟨-, hrom', hshiftsRom⟩ := hlays.shifts hrom hstart htable fun j hj hj' =>
    htables j (by omega) hj'
  have hsame : ∀ j, j < mid → p₁.inst j = p.inst j := fun j hj => hlays.reshaped.inst_eq j (.inl hj)
  have hspans : Spans p p₀.instances.size (ramOf (p.inst root).lines) mid :=
    hbefore.spans_before.congr fun j _ hj' => by rw [hsame j hj']
  obtain ⟨hbelow, hram', hshiftsRam⟩ := hbefore.shifts (hram.congr hspans fun j _ hj' => hsame j hj')
    (by rw [hstart, Int.zero_add]) (by rw [hlays.reshaped.size_eq]; omega)
    (by rwa [hshiftsRom.relabeled.size_eq]) fun j hj hj' => by
      rw [hshiftsRom.relabeled.size_eq, hsame j hj']
      exact htables j hj (by omega)
  exact ⟨by rw [hbelow, Int.zero_add], hrom', hram', hshiftsRom, hshiftsRam⟩

/-- There is a report exactly if the shift leads below zero. -/
theorem relocate_report (h : UnalignedPass p₀ p next) {burnLine : Line} {rest : List Line}
    (hrom : romOf (p.inst root).lines = burnLine :: rest) :
    (p.relocate next).2 =
      if p.shift next < 0 then [(burnLine.number, .exceededMemory)] else [] := by
  obtain ⟨mid, p₁, a₁, rom', p₂, below, ram', hlay, hlays, hbefore, hlaysBefore⟩ :=
    exists_layouts (p.romStart next) h.pass.spans (h.regular root (.inl rfl))
      fun j hj hj' => h.regular j (.inr ⟨hj, hj'⟩)
  obtain ⟨rfl, -⟩ := h.layouts hlays hlaysBefore
  rw [relocate_eq_of_layouts hrom hlay hbefore]
  split <;> rfl

/-- The ROM starts with the `.BURN`. -/
lemma exists_burn (h : UnalignedPass p₀ p next) :
    ∃ line rest operand, romOf (p.inst root).lines = line :: rest ∧
      line.statement = .directive .burn operand ∧
      (∀ other ∈ rest, other.statement.isBurn = false) ∧
      (Burn.ofLines (p.inst root).lines).argument = operand.constant :=
  exists_burn_of_count h.one_burn

/-- Relocation, when it succeeds, moves all sites by the same distance; those from the `.BURN` on
emit code, and no others. -/
theorem sites_relocates (h : UnalignedPass p₀ p next)
    (hrelocates : Relocates p q p₀.instances.size (p.romStart next) below) :
    q.sites root = p.ramSites.map (Site.movedBy (p.shift next) false) ++
      p.romSites.map (Site.movedBy (p.shift next) true) := by
  obtain ⟨mid, p₁, p₂, a₁, ram', rom', hlays, hbefore, hothers, hroot, -⟩ := hrelocates.layout
  obtain ⟨-, hrom', hram', hshiftsRom, hshiftsRam⟩ := h.layouts hlays hbefore
  have hlo := h.root_lt
  have h1 := hbefore.le
  have h2 := hlays.le
  have hsame : ∀ j, j < mid → p₁.inst j = p.inst j := fun j hj => hlays.reshaped.inst_eq j (.inl hj)
  have hspansRam : Spans p p₀.instances.size (ramOf (p.inst root).lines) mid :=
    hbefore.spans_before.congr fun j _ hj' => by rw [hsame j hj']
  obtain ⟨burn, rest, operand, hrom, hst, -⟩ := h.exists_burn
  obtain ⟨-, depth, -, -, hdepth, hramSites, hromSites⟩ :=
    h.pass.spans.sites_split hlo hrom (by rw [hst]; rfl)
  obtain ⟨depth', hdepth', hsites⟩ := (hrelocates.spans hlo).sites_eq hlo
  rw [hrelocates.size_eq] at hdepth'
  rw [← hrom] at hromSites
  have hlines : (q.inst root).lines = ram' ++ rom' := by rw [hroot]
  rw [hsites, hlines, sitesOfLines_append, hramSites, hromSites, hram', hrom', List.length_map,
    Nat.zero_add, hspansRam.sitesOfLines_movedBy (show mid - p₀.instances.size ≤ depth by omega)
      (show mid - p₀.instances.size ≤ depth' by omega),
    hlays.spans_before.sitesOfLines_movedBy (show p.instances.size - mid ≤ depth by omega)
      (show p.instances.size - mid ≤ depth' by omega)]
  · intro j hj hj'
    rw [hothers j (by omega), hbefore.reshaped.inst_eq j (.inr hj), hshiftsRom.lines_eq j hj hj']
  · intro j hj hj'
    rw [hothers j (by omega), hshiftsRam.lines_eq j hj hj', hsame j hj']

/-- Relocation, when it succeeds, moves all labels by the same distance. -/
lemma relabeled_relocates (h : UnalignedPass p₀ p next)
    (hrelocates : Relocates p q p₀.instances.size (p.romStart next) below) :
    SymbolStore.Relabeled
      (LaidBy (p.shift next) p p₀.instances.size p.instances.size p.rootTable (p.inst root).lines)
      p.symbols q.symbols := by
  obtain ⟨mid, p₁, p₂, a₁, ram', rom', hlays, hbefore, -, -, -, hsymbols, -⟩ := hrelocates.layout
  obtain ⟨-, -, -, hshiftsRom, hshiftsRam⟩ := h.layouts hlays hbefore
  rw [hsymbols]
  refine hshiftsRom.relabeled.trans hshiftsRam.relabeled fun i line => ?_
  rw [laidBy_congr fun j _ hj' => hlays.reshaped.inst_eq j (.inl hj'), or_comm,
    ← laidBy_append hbefore.le hlays.le, ramOf_append_romOf]

/-- Every line that declares a symbol has an address behind the first pass. -/
lemma exists_address (h : UnalignedPass p₀ p next)
    (hid : id = root ∨ p₀.instances.size ≤ id ∧ id < p.instances.size) {line : Line}
    (hline : line ∈ (p.inst id).lines) (haddressable : line.statement.isAddressable = true) :
    ∃ w, line.address = some w := by
  obtain ⟨e, he, hcont, hnext⟩ := h.pass.placed
  have hle := h.pass.next_le
  obtain ⟨n, hn⟩ := List.getElem?_of_mem hline
  obtain ⟨site, hsite, -, -, rfl⟩ := h.pass.spans.exists_site_root h.root_lt
    ((h.pass.spans.mem_reachable_iff h.root_lt).2 hid) hn
  refine hcont.exists_address (Int.le_refl 0) (by omega) ?_ haddressable
  rw [he.unique (h.pass.expands_sites h.root_lt)]
  exact List.mem_map_of_mem hsite

/-- The value of a label that is declared behind the first pass, there and when the program has been
relocated. -/
theorem value_relocates (h : UnalignedPass p₀ p next)
    (hrelocates : Relocates p q p₀.instances.size (p.romStart next) below)
    (hid : id = root ∨ p₀.instances.size ≤ id ∧ id < p.instances.size) {line : Line}
    (hline : line ∈ (p.inst id).lines) {name : String} (hname : line.label = some name)
    (haddressable : line.statement.isAddressable = true) :
    ∃ v, p.symbols.value? (p.inst id).table name = some v ∧
      q.symbols.value? (q.inst id).table name =
        some (if line.statement.isEquate then v else v + UInt16.ofInt (p.shift next)) := by
  obtain ⟨x, v, hx, -, hword, hgives⟩ := ((h.resolved.bound hid).1 line hline).label name hname
  obtain ⟨k, hk⟩ := SymbolTable.exists_indexOf? hx
  have hrelabeled := h.relabeled_relocates hrelocates
  have hlaid : LaidBy (p.shift next) p p₀.instances.size p.instances.size p.rootTable
      (p.inst root).lines (p.inst id).table (line.wrappedBy (p.shift next)) :=
    ⟨line, laid_of_mem hid hline, rfl⟩
  have hunique : ∀ before, Laid p p₀.instances.size p.instances.size p.rootTable (p.inst root).lines
      (p.inst id).table before → before.label = some name → before = line := by
    intro before hbefore hlabel
    exact Line.eq_of_label_eq (h.resolved.bound hid).2 (h.resolved.mem_of_laid hid hbefore) hline hlabel hname
  refine ⟨v, by rw [SymbolStore.value?_of_indexOf? hk, follow_word hk hx hword], ?_⟩
  rw [(hrelocates.shapes id).2]
  have hk' := (hrelabeled.index_eq (p.inst id).table name).trans hk
  rw [SymbolStore.value?_of_indexOf? hk']
  obtain ⟨value, hx', hvalue⟩ := hrelabeled.symbol _ name x hx
  cases hequate : line.statement.isEquate with
  | true =>
    rcases hvalue with ⟨rfl, -⟩ | ⟨w, other, rfl, ⟨before, hbefore, rfl⟩, hlabel, -⟩
    · exact follow_word hk' hx' hword
    · -- The label of an `.EQUATE` belongs to no other line.
      rw [Line.addressLabel?_wrappedBy] at hlabel
      obtain rfl := hunique before hbefore (Line.label_of_addressLabel? hlabel)
      rw [Line.addressLabel?, if_pos hequate] at hlabel
      cases hlabel
  | false =>
    have hlabel : line.addressLabel? = some name := by
      rw [Line.addressLabel?, hequate]
      exact hname
    rcases hvalue with ⟨-, hno⟩ | ⟨w, other, rfl, ⟨before, hbefore, rfl⟩, hlabel', hgives'⟩
    · exact (hno _ hlaid hlabel).elim
    · rw [Line.addressLabel?_wrappedBy] at hlabel'
      obtain rfl := hunique before hbefore (Line.label_of_addressLabel? hlabel')
      obtain ⟨w₀, hw₀⟩ := h.exists_address hid hline haddressable
      rw [(Line.gives_of_not_isEquate hequate).1 hgives w₀ hw₀] at *
      have hw : w = UInt16.ofInt (w₀.toNat + p.shift next) :=
        (Line.gives_of_not_isEquate (show (before.wrappedBy _).statement.isEquate = false from hequate)).1
          hgives' _ (by rw [Line.wrappedBy, hw₀]; rfl)
      rw [follow_word hk' hx' (.inr rfl), hw, ofInt_toNat_add]
      rfl

end UnalignedPass

/-! ### Linking -/

variable {lib lib' : MacroLibrary} {text : String} {exports : Option (List ExportedSymbol)}
  {options : Options} {l : Linker} {burn : Site} {operand : Operand}

open Linker (Links)

/-- Linking behind a first pass that succeeds. -/
lemma link_of_pass
    (hpass : Linker.linkInstance p.instances.size (Linker.start p exports) root = (l, [])) :
    p.link exports options =
      ((l.program.finishLink l.next options).2.foldl
        (fun p (number, e) => p.addDiagnostic root number (.ofLink e))
        (l.program.finishLink l.next options).1,
      (l.program.finishLink l.next options).2.map fun (number, e) => ⟨number, .ofLink e⟩) := by
  rw [link, hpass]
  rfl

/-- An operating system with one `.BURN`, wherever that may be, is relocated. -/
lemma finishLink_eq_relocate (hsystem : p.isSystem = true) (hcount : (p.inst root).burn.count = 1)
    (htop : options.burnAtTop = false) : p.finishLink next options = p.relocate next := by
  rw [finishLink, hsystem, hcount, htop]
  rfl

/-- A `.BURN` in the expansion that is the only one and a line of the root is the one that starts
the ROM. -/
lemma romOf_of_burn (h : Spans p lo (p.inst root).lines p.instances.size) (hlo : root < lo)
    (hburn : (p.sites root).filter (fun site => site.line.statement.isBurn) = [burn])
    (howner : burn.owner = root) (hst : burn.line.statement = .directive .burn operand) :
    (Burn.ofLines (p.inst root).lines).count = 1 ∧
      (Burn.ofLines (p.inst root).lines).argument = operand.constant ∧
      ∃ rest, romOf (p.inst root).lines = burn.line :: rest := by
  have hcount : (Burn.ofLines (p.inst root).lines).count = 1 := by
    rw [count_ofLines, ← h.burnCount_own hlo, List.countP_eq_length_filter, ← List.filter_filter, hburn,
      List.filter_cons_of_pos (by simp [howner])]
    rfl
  obtain ⟨line, rest, operand', hrom, hline, hrest, hargument⟩ := exists_burn_of_count hcount
  obtain ⟨hsite, hisBurn⟩ : burn ∈ p.sites root ∧ burn.line.statement.isBurn = true :=
    List.mem_filter.1 (hburn ▸ List.mem_cons_self)
  obtain ⟨depth, hdepth, hsites⟩ := h.sites_eq hlo
  have hmem : burn.line ∈ (p.inst root).lines := by
    rcases h.mem_sites hdepth (hsites ▸ hsite) with ⟨-, hmem⟩ | ⟨hge, -⟩
    · exact hmem
    · omega
  have heq : burn.line = line := by
    rw [← ramOf_append_romOf (p.inst root).lines, hrom, List.mem_append, List.mem_cons] at hmem
    rcases hmem with hram | heq | hother
    · rw [not_isBurn_of_mem_ramOf hram] at hisBurn
      cases hisBurn
    · exact heq
    · rw [hrest _ hother] at hisBurn
      cases hisBurn
  rw [heq, hline] at hst
  cases hst
  exact ⟨hcount, hargument, rest, by rw [hrom, heq]⟩

/-- What is known behind the first pass of an operating system without an `.ALIGN` and with one
`.BURN`. -/
lemma Ready.unalignedPass (h : Ready text .operatingSystem lib p)
    (hpass : Linker.linkInstance p.instances.size (Linker.start p exports) root = (l, []))
    (halign : ∀ site ∈ l.program.sites root, site.line.statement.isAlign = false)
    (hburn : (l.program.sites root).filter (fun site => site.line.statement.isBurn) = [burn])
    (howner : burn.owner = root) (hst : burn.line.statement = .directive .burn operand) :
    UnalignedPass p l.program l.next ∧ l.program.isSystem = true ∧
      (l.program.inst root).burn.count = 1 ∧ l.program.romLimit = operand.constant.toNat + 1 := by
  obtain ⟨l₁, lines, hlinks, rfl⟩ := h.links hpass
  have hfirst := h.firstPass hlinks
  have hroot := inst_root_store hlinks
  obtain ⟨hcount, hargument, -⟩ := romOf_of_burn hfirst.spans h.root_lt hburn howner hst
  have hburnEq : ((l₁.store root lines).program.inst root).burn =
      { Burn.ofLines ((l₁.store root lines).program.inst root).lines with
        address := Linker.burnAddress lines (p.inst root).burn.address } := by
    have hlines : ((l₁.store root lines).program.inst root).lines = lines := by rw [hroot]; rfl
    rw [hlines, Burn.ofLines_of_shapes hlinks.shapes, ← h.burn_eq root h.root_lt, hroot]
    rfl
  refine ⟨⟨hfirst, h.root_lt, hcount, ⟨(p.inst root).burn.address, ?_⟩, fun j hj line => ?_,
    fun e he line hline => ?_, h.resolved hlinks⟩, ?_, ?_, ?_⟩
  · rw [hburnEq, hroot]
    rfl
  · exact h.regular_pass hfirst hj
  · rw [he.unique (hfirst.expands_sites h.root_lt)] at hline
    obtain ⟨site, hsite, rfl⟩ := List.mem_map.1 hline
    exact halign site hsite
  · change l₁.program.isSystem = true
    rw [isSystem_of_holds hlinks.holds', isSystem, h.root_kind]
    rfl
  · rw [hburnEq]
    exact hcount
  · rw [romLimit, hburnEq]
    exact congrArg (fun w : UInt16 => (w.toNat : Int) + 1) hargument

/-- Behind the first pass, a line with a label is one that has an address. -/
lemma Ready.addressable_of_label {kind : ModuleKind} (h : Ready text kind lib p) {lines : List Line}
    (hlinks : Links (Linker.start p exports).program root root (Linker.start p exports)
      (p.inst root).lines l lines)
    (hid : id = root ∨ p.instances.size ≤ id ∧ id < (l.store root lines).program.instances.size)
    {line : Line} (hline : line ∈ ((l.store root lines).program.inst id).lines)
    (hlabel : line.label.isSome = true) : line.statement.isAddressable = true := by
  obtain ⟨t, ht, -, hshapes, -⟩ := h.exists_origin hlinks hid
  obtain ⟨before, hbefore, hshape⟩ := exists_shape_eq hshapes hline
  obtain ⟨lib', n, hyields⟩ := h.yields ht hbefore
  have hst : before.statement.shape = line.statement.shape := congrArg Line.statement hshape
  rw [← Statement.isAddressable_shape, ← hst, Statement.isAddressable_shape]
  exact hyields.addressable (by rwa [Line.label_of_shape hshape])

/-- An operating system that has no `.ALIGN` in its expansion and one `.BURN`, which is a line of
the root, and whose first layout takes `byteCount root` bytes, does not fit exactly if these are
more than the operand of the `.BURN` allows.  Otherwise it is linked, and by relocation every line
moves by the bytes that are left: it has no address if it had none before or if it leaves memory;
the lines from the `.BURN` on emit code, together with those of the macros called there, and no
others do.  All lines of the instances that can be reached are among them.  Every label moves by the
same distance modulo the size of memory, but the label of an `.EQUATE` stays. -/
theorem relocation_shifts (hfind : (ofSource text .operatingSystem).findIncludes lib = (p₁, []))
    (hassemble : p₁.assemble lib = (p, lib', []))
    (hpass : Linker.linkInstance p.instances.size (Linker.start p exports) root = (l, []))
    (halign : ∀ site ∈ l.program.sites root, site.line.statement.isAlign = false)
    (hburn : (l.program.sites root).filter (fun site => site.line.statement.isBurn) = [burn])
    (howner : burn.owner = root) (hst : burn.line.statement = .directive .burn operand)
    (htop : options.burnAtTop = false) :
    (operand.constant.toNat + 1 < l.program.byteCount root →
      (p.link exports options).2 = [⟨burn.line.number, .ofLink .exceededMemory⟩]) ∧
    ∀ d, operand.constant.toNat + 1 = l.program.byteCount root + d →
      ∃ q, p.link exports options = (q, []) ∧
        (∀ before site after, l.program.sites root = before ++ site :: after →
          site.line.address.map UInt16.toNat =
            if site.line.statement.isAddressable then some (l.program.roomAt before) else none) ∧
        q.sites root = l.program.ramSites.map (Site.movedBy d false) ++
          l.program.romSites.map (Site.movedBy d true) ∧
        (∀ id ∈ q.reachable root, ∀ n line, (q.inst id).lines[n]? = some line →
          ∃ site ∈ q.sites root, site.owner = id ∧ site.index = n ∧ site.line = line) ∧
        ∀ id ∈ q.reachable root, ∀ line ∈ (l.program.inst id).lines, ∀ name, line.label = some name →
          ∃ v, l.program.symbols.value? (l.program.inst id).table name = some v ∧
            q.symbols.value? (q.inst id).table name =
              some (if line.statement.isEquate then v else v + UInt16.ofNat d) := by
  have hready := ready_of_assemble hfind hassemble
  obtain ⟨hunaligned, hsystem, hcount, hlimit⟩ :=
    hready.unalignedPass hpass halign hburn howner hst
  obtain ⟨-, -, rest, hrom⟩ :=
    romOf_of_burn hunaligned.pass.spans hready.root_lt hburn howner hst
  have hbytes : l.program.byteCount root = l.next := hunaligned.byteCount_eq
  have hreport := hunaligned.relocate_report hrom
  have hlink : p.link exports options = _ := link_of_pass hpass
  rw [finishLink_eq_relocate hsystem hcount htop] at hlink
  rw [shift, hlimit] at hreport
  refine ⟨fun hmore => ?_, fun d hd => ?_⟩
  · rw [if_pos (by omega)] at hreport
    rw [hlink, hreport]
    rfl
  · rw [if_neg (by omega)] at hreport
    have hshift : l.program.shift l.next = d := by
      rw [shift, hlimit]
      omega
    obtain ⟨q, hq⟩ : ∃ q, l.program.relocate l.next = (q, []) := ⟨_, Prod.ext rfl hreport⟩
    rw [hq] at hlink
    obtain ⟨below, hrelocates⟩ := relocates_of_relocate hq hunaligned.pass.spans hready.root_lt
      (by rw [hrom]; exact List.cons_ne_nil _ _) (hunaligned.regular root (.inl rfl))
      fun j hj hj' => hunaligned.regular j (.inr ⟨hj, hj'⟩)
    have hspans := hrelocates.spans hready.root_lt
    refine ⟨q, hlink, hunaligned.address_eq, ?_, fun id hid n line => ?_, fun id hid line hline name hname => ?_⟩
    · rw [hunaligned.sites_relocates hrelocates, hshift]
    · exact hspans.exists_site_root hready.root_lt hid
    · rw [hspans.mem_reachable_iff hready.root_lt, hrelocates.size_eq] at hid
      obtain ⟨l₁, lines, hlinks, rfl⟩ := hready.links hpass
      have haddressable := hready.addressable_of_label hlinks hid hline (by rw [hname]; rfl)
      have hvalue := hunaligned.value_relocates hrelocates hid hline hname haddressable
      rwa [hshift, ofInt_natCast] at hvalue

/-- A macro with a label of its own. -/
def driftLibrary : MacroLibrary := ⟨[⟨"SPIN", 0, .user, "@SPIN 0\nspin: BR spin\n.END\n"⟩]⟩

/-- An operating system that calls the macro on both sides of its `.BURN`; its last label stands
behind the end of memory. -/
def driftSource : String :=
  "x: .BLOCK 2\n@SPIN\n.BURN 0xFFFF\nk: .EQUATE 5\n@SPIN\nLDWA x,d\nz: .BLOCK 0\n.END\n"

/-- All lines move by `65525` bytes; the label behind the end of memory becomes zero. -/
theorem relocation_shifts_drift :
    ∃ p₁ p lib' l q, (ofSource driftSource .operatingSystem).findIncludes driftLibrary = (p₁, []) ∧
      p₁.assemble driftLibrary = (p, lib', []) ∧
      Linker.linkInstance p.instances.size (Linker.start p none) root = (l, []) ∧
      p.link none {} = (q, []) ∧ l.program.byteCount root = 11 ∧
      (l.program.sites root).map (fun site => site.line.address) =
        [some 0, some 2, some 2, some 5, some 5, some 5, some 5, some 5, some 8, some 8, some 11,
          some 11] ∧
      (q.sites root).map (fun site => (site.line.address, site.line.emits)) =
        [(some 65525, false), (some 65527, false), (some 65527, false), (some 65530, false),
          (some 65530, true), (some 65530, true), (some 65530, true), (some 65530, true),
          (some 65533, true), (some 65533, true), (none, true), (none, true)] ∧
      q.symbols.value? (q.inst root).table "x" = some 65525 ∧
      q.symbols.value? (q.inst root).table "k" = some 5 ∧
      q.symbols.value? (q.inst root).table "z" = some 0 := by
  obtain ⟨f, hf⟩ : ∃ f, f = (ofSource driftSource .operatingSystem).findIncludes driftLibrary := ⟨_, rfl⟩
  obtain ⟨a, ha⟩ : ∃ a, a = f.1.assemble driftLibrary := ⟨_, rfl⟩
  obtain ⟨k, hk⟩ : ∃ k, k = Linker.linkInstance a.1.instances.size (Linker.start a.1 none) root := ⟨_, rfl⟩
  obtain ⟨hfind, hassemble, hpass, halign, ⟨burn, -, hburn, howner, hst⟩, hbytes, hbefore, hafter, hlines⟩ :
      f.2 = [] ∧ a.2.2 = [] ∧ k.2 = [] ∧
      (∀ site ∈ k.1.program.sites root, site.line.statement.isAlign = false) ∧
      (∃ burn ∈ k.1.program.sites root,
        (k.1.program.sites root).filter (fun site => site.line.statement.isBurn) = [burn] ∧
        burn.owner = root ∧ burn.line.statement = .directive .burn (.hex 0xFFFF)) ∧
      k.1.program.byteCount root = 11 ∧
      (k.1.program.sites root).map (fun site => site.line.address) =
        [some 0, some 2, some 2, some 5, some 5, some 5, some 5, some 5, some 8, some 8, some 11,
          some 11] ∧
      (k.1.program.ramSites.map (Site.movedBy (65525 : Nat) false) ++
        k.1.program.romSites.map (Site.movedBy (65525 : Nat) true)).map
          (fun site => (site.line.address, site.line.emits)) =
        [(some 65525, false), (some 65527, false), (some 65527, false), (some 65530, false),
          (some 65530, true), (some 65530, true), (some 65530, true), (some 65530, true),
          (some 65533, true), (some 65533, true), (none, true), (none, true)] ∧
      ∀ entry ∈ [("x", (0 : UInt16), false), ("k", 5, true), ("z", 11, false)],
        k.1.program.symbols.value? (k.1.program.inst root).table entry.1 = some entry.2.1 ∧
        ∃ line ∈ (k.1.program.inst root).lines,
          line.label = some entry.1 ∧ line.statement.isEquate = entry.2.2 := by
    rw [hk, ha, hf, ofSource_of_chars driftSource rfl]
    decide +kernel
  have hfind' : (ofSource driftSource .operatingSystem).findIncludes driftLibrary = (f.1, []) := by
    rw [← hf, ← hfind]
  have hassemble' : f.1.assemble driftLibrary = (a.1, a.2.1, []) := by rw [← ha, ← hassemble]
  have hpass' : Linker.linkInstance a.1.instances.size (Linker.start a.1 none) root = (k.1, []) := by
    rw [← hk, ← hpass]
  obtain ⟨q, hlink, -, hsites, -, hvalues⟩ :=
    (relocation_shifts hfind' hassemble' hpass' halign hburn howner hst
      (show ({} : Options).burnAtTop = false from rfl)).2 65525 (by rw [hbytes]; rfl)
  have hready := ready_of_assemble hfind' hassemble'
  have hroot : root ∈ q.reachable root :=
    ((hready.linked hlink).1.mem_reachable_iff hready.root_lt).2 (.inl rfl)
  have hvalue : ∀ entry ∈ [("x", (0 : UInt16), false), ("k", 5, true), ("z", 11, false)],
      q.symbols.value? (q.inst root).table entry.1 =
        some (if entry.2.2 then entry.2.1 else entry.2.1 + UInt16.ofNat 65525) := by
    intro entry hentry
    obtain ⟨hfirst, line, hline, hname, hequate⟩ := hlines entry hentry
    obtain ⟨v, hv, hq⟩ := hvalues root hroot line hline entry.1 hname
    rw [hfirst, Option.some.injEq] at hv
    rw [hq, hequate, hv]
  exact ⟨f.1, a.1, a.2.1, k.1, q, hfind', hassemble', hpass', hlink, hbytes, hbefore, by rw [hsites, hafter],
    hvalue ("x", 0, false) (by simp), hvalue ("k", 5, true) (by simp), hvalue ("z", 11, false) (by simp)⟩

/-- With a `.BURN` at `9` the same program does not fit. -/
example : (throughPhases "x: .BLOCK 2\n@SPIN\n.BURN 0x0009\n@SPIN\nLDWA x,d\n.END\n" .operatingSystem
    driftLibrary none {}).2 = [⟨2, .ofLink .exceededMemory⟩] := by
  decide +kernel

end Program

end Pep10
