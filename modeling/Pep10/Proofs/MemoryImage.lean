import Mathlib.Data.List.Basic
import Pep10.Build
import Pep10.Proofs.Program.Tracing
import Pep10.Proofs.RamPlacement

/-!
# Object code as a memory image

The object code of a program that has been built is the content of the memory from a base address
on.  For a user program the base is zero, for an operating system it is where the ROM starts.  Every
line of the expansion finds its bytes at its address, and every byte belongs to one line.
-/

namespace Pep10

/-! ### Tiles -/

/-- Pieces of code with their addresses follow one another from a base on.  Where a piece without
bytes stands does not matter. -/
def Tiles : Nat → List (Option UInt16 × List UInt8) → Prop
  | _, [] => True
  | base, (address, code) :: rest =>
    (code ≠ [] → address.map UInt16.toNat = some base) ∧ Tiles (base + code.length) rest

namespace Tiles

variable {base i : Nat} {tiles before after : List (Option UInt16 × List UInt8)}
  {address : Option UInt16} {code : List UInt8} {w : UInt16}

/-- A piece that has bytes stands at the base or behind it. -/
lemma base_le (h : Tiles base tiles) (hmem : (some w, code) ∈ tiles) (hcode : code ≠ []) :
    base ≤ w.toNat := by
  induction tiles generalizing base with
  | nil => cases hmem
  | cons tile tiles ih =>
    rcases List.mem_cons.1 hmem with rfl | hmem
    · have := h.1 hcode
      simp only [Option.map_some, Option.some.injEq] at this
      omega
    · have := ih h.2 hmem
      omega

/-- The bytes of a piece are found at its address. -/
lemma getElem?_eq (h : Tiles base tiles) (hmem : (address, code) ∈ tiles) (hcode : code ≠ []) :
    ∃ w, address = some w ∧ base ≤ w.toNat ∧ ∀ (k : Nat) (b : UInt8), code[k]? = some b →
      (tiles.flatMap Prod.snd)[w.toNat - base + k]? = some b := by
  induction tiles generalizing base with
  | nil => cases hmem
  | cons tile tiles ih =>
    rw [List.flatMap_cons]
    rcases List.mem_cons.1 hmem with rfl | hmem
    · obtain ⟨w, rfl, hw⟩ := Option.map_eq_some_iff.1 (h.1 hcode)
      refine ⟨w, rfl, by omega, fun k b hk => ?_⟩
      rw [hw, Nat.sub_self, Nat.zero_add, List.getElem?_append_left (List.getElem?_eq_some_iff.1 hk).1]
      exact hk
    · obtain ⟨w, hw, hle, hbytes⟩ := ih h.2 hmem
      refine ⟨w, hw, by omega, fun k b hk => ?_⟩
      rw [List.getElem?_append_right (by omega), ← hbytes k b hk]
      congr 1
      omega

/-- Every byte belongs to exactly one piece. -/
lemma existsUnique (h : Tiles base tiles) (hi : i < (tiles.flatMap Prod.snd).length) :
    ∃! n : Nat, ∃ (w : UInt16) (code : List UInt8), tiles[n]? = some (some w, code) ∧
      w.toNat ≤ base + i ∧ base + i < w.toNat + code.length := by
  induction tiles generalizing base i with
  | nil => simp at hi
  | cons tile tiles ih =>
    obtain ⟨address, code⟩ := tile
    rw [List.flatMap_cons, List.length_append] at hi
    rcases Nat.lt_or_ge i code.length with hlt | hge
    · have hne : code ≠ [] := by
        intro hnil
        simp [hnil] at hlt
      obtain ⟨w, rfl, hw⟩ := Option.map_eq_some_iff.1 (h.1 hne)
      refine ⟨0, ⟨w, code, rfl, by omega, by omega⟩, ?_⟩
      rintro n ⟨w', code', hn, hle, hlt'⟩
      cases n with
      | zero => rfl
      | succ n =>
        -- A later piece starts behind this one.
        have hmem : (some w', code') ∈ tiles := List.mem_of_getElem? hn
        have := base_le h.2 hmem (by rintro rfl; simp at hlt'; omega)
        omega
    · obtain ⟨n, ⟨w, code', hn, hle, hlt⟩, hunique⟩ :=
        ih (i := i - code.length) h.2 (by simp only at hi; omega)
      refine ⟨n + 1, ⟨w, code', hn, by omega, by omega⟩, ?_⟩
      rintro m ⟨w', code'', hm, hle', hlt'⟩
      cases m with
      | zero =>
        simp only [List.getElem?_cons_zero, Option.some.injEq, Prod.mk.injEq] at hm
        obtain ⟨rfl, rfl⟩ := hm
        have := h.1 (by rintro rfl; simp at hlt'; omega)
        simp only [Option.map_some, Option.some.injEq] at this
        omega
      | succ m => rw [hunique m ⟨w', code'', hm, by omega, by omega⟩]

/-- Pieces without bytes can stand anywhere. -/
lemma append_of_silent (hbefore : ∀ tile ∈ before, tile.2 = []) (h : Tiles base after) :
    Tiles base (before ++ after) := by
  induction before with
  | nil => exact h
  | cons tile before ih =>
    rw [List.forall_mem_cons] at hbefore
    refine ⟨fun hne => absurd hbefore.1 hne, ?_⟩
    rw [hbefore.1]
    exact ih hbefore.2

end Tiles

/-! ### Bytes and sizes -/

/-- Whether the number of bytes that a statement stands for is a word.  Only the text of an `.ASCII`
can be longer than that. -/
def Statement.hasWordSize : Statement → Bool
  | directive .ascii (.string text) => (Text.unquote text).length ≤ 0xFFFF
  | _ => true

/-- A statement stands for as many bytes as it takes. -/
lemma Statement.length_bytes {s : Statement} (h : s.hasWordSize = true) (symbols : SymbolStore)
    (table : Nat) : (s.bytes symbols table).length = (s.size symbols table).toNat := by
  cases s with
  | directive d operand =>
    cases d with
    | ascii =>
      cases operand with
      | string text =>
        have : (Text.unquote text).length ≤ 0xFFFF := by simpa [hasWordSize] using h
        simp only [bytes, size, UInt16.toNat_ofNat']
        omega
      | _ => rfl
    | block => simp [bytes, size]
    | _ => rfl
  | align operand padding => simp [bytes, size]
  | _ => rfl

/-- What stands for bytes has an address. -/
lemma Statement.isAddressable_of_bytes {s : Statement} {symbols : SymbolStore} {table : Nat}
    (h : s.bytes symbols table ≠ []) : s.isAddressable = true := by
  cases s with
  | comment => exact absurd rfl h
  | blank => exact absurd rfl h
  | _ => rfl

namespace Program

variable {p q : Program} {lib : MacroLibrary} {source : String} {kind : ModuleKind}
  {exports : Option (List ExportedSymbol)} {options : Options} {start : Int} {base : Nat}

/-- The pieces of code of a program with their addresses, in the order of the expansion. -/
def tilesAt (p : Program) (sites : List Site) : List (Option UInt16 × List UInt8) :=
  sites.map fun site => (site.line.address, p.codeAt site)

lemma flatMap_tilesAt (id : Nat) : (p.tilesAt (p.sites id)).flatMap Prod.snd = p.codeOf id := by
  rw [tilesAt, List.flatMap_map, codeOf]

/-- Lines that stand one behind the other in memory, and all of which emit code, are tiles. -/
lemma tiles_of_contiguous {sites : List Site} (hcont : Contiguous base (sites.map Site.line))
    (hregular : ∀ site ∈ sites, site.line.statement.Regular)
    (hemits : ∀ site ∈ sites, site.line.emits = true)
    (hsize : ∀ site ∈ sites, site.line.statement.hasWordSize = true)
    (hend : base + p.roomAt sites ≤ 0x10000) : Tiles base (p.tilesAt sites) := by
  induction sites generalizing base with
  | nil => trivial
  | cons site sites ih =>
    rw [List.forall_mem_cons] at hregular hemits hsize
    have hroom : p.roomAt (site :: sites) = (p.sizeAt site).toNat + p.roomAt sites := rfl
    have hcode : p.codeAt site = site.line.statement.bytes p.symbols (p.inst site.owner).table := by
      rw [codeAt, Line.code, if_pos hemits.1]
    have hlength : (p.codeAt site).length = (p.sizeAt site).toNat := by
      rw [hcode, Statement.length_bytes hsize.1]
      rfl
    have hextent : site.line.statement.extent = (p.sizeAt site).toNat :=
      (hregular.1.size_eq _ _).symm
    refine ⟨fun hne => ?_, ?_⟩
    · have hpos : 0 < (p.codeAt site).length := List.length_pos_of_ne_nil hne
      have haddressable := Statement.isAddressable_of_bytes (hcode ▸ hne)
      rw [address_eq_of_startingAt hcont.1 (by omega), if_pos haddressable]
    · refine ih ?_ hregular.2 hemits.2 hsize.2 (by omega)
      have hnext := hcont.2
      rw [hextent, ← hlength] at hnext
      exact_mod_cast hnext

/-- In a linked user program every line is part of the object code. -/
lemma Linked.emits_of_user (h : Linked source kind lib exports options q)
    (hkind : kind ≠ .operatingSystem) {site : Site} (hsite : site ∈ q.sites root) :
    site.line.emits = true := by
  obtain ⟨p, l, lines, hready, hlinks, rfl⟩ := h.exists_links_user hkind
  have hpass := hready.firstPass hlinks
  refine hpass.spans.forall_mem_expansion (hpass.expands_sites hready.root_lt)
    (hready.emits_pass hlinks (.inl rfl)) (fun j hj hj' => hready.emits_pass hlinks (.inr ⟨hj, ?_⟩)) site.line
    (List.mem_map_of_mem hsite)
  rwa [Linker.size_store] at hj'

/-- The lines of a linked user program are tiles from zero on. -/
lemma Linked.tiles_of_user (h : Linked source kind lib exports options q)
    (hkind : kind ≠ .operatingSystem)
    (hsize : ∀ site ∈ q.sites root, site.line.statement.hasWordSize = true) :
    Tiles 0 (q.tilesAt (q.sites root)) := by
  have hemits : ∀ site ∈ q.sites root, site.line.emits = true := fun _ => h.emits_of_user hkind
  obtain ⟨p, l, lines, hready, hlinks, rfl⟩ := h.exists_links_user hkind
  have hpass := hready.firstPass hlinks
  have hexp := hpass.expands_sites hready.root_lt
  obtain ⟨e, he, hcont, hnext⟩ := hpass.placed
  rw [he.unique hexp] at hcont hnext
  have hregular : ∀ site ∈ (l.store root lines).program.sites root, site.line.statement.Regular := by
    intro site hsite
    obtain ⟨t, ht, line, hline, hshape⟩ := hpass.exists_shape hready.root_lt hsite
    exact hready.regular_of_shape ht hline hshape
  have hroom : roomAt (l.store root lines).program ((l.store root lines).program.sites root) = _ :=
    roomAt_eq_room hregular
  have hend := hpass.next_le
  rw [hnext, ← hroom] at hend
  exact tiles_of_contiguous hcont hregular hemits hsize (by omega)

lemma ramSites_append_romSites (p : Program) : p.ramSites ++ p.romSites = p.sites root :=
  List.takeWhile_append_dropWhile

/-- The lines of a linked operating system are tiles from the start of the ROM on. -/
lemma Linked.tiles_of_system (h : Linked source .operatingSystem lib exports options q)
    (hsize : ∀ site ∈ q.sites root, site.line.statement.hasWordSize = true) :
    Tiles (q.inst root).burn.startRom.toNat (q.tilesAt (q.sites root)) := by
  obtain ⟨p, l, lines, below, hready, hlinks, hcount, hrelocates⟩ := h.exists_relocates
  have hrom := hready.romAt hlinks hcount hrelocates
  have hram := hready.ramAt hlinks hcount hrelocates
  generalize (l.store root lines).program.romStart l.next = start at hrom hram
  have hsizeRom : ∀ site ∈ q.romSites, site.line.statement.hasWordSize = true := fun site hsite =>
    hsize site (by rw [← ramSites_append_romSites]; exact List.mem_append_right _ hsite)
  have hnonneg := hrom.nonneg
  have hend := hrom.end_le
  have hlimit : q.romLimit ≤ 0x10000 := by
    have := (q.inst root).burn.argument.toNat_lt
    rw [romLimit]
    omega
  rw [← ramSites_append_romSites, tilesAt, List.map_append]
  refine Tiles.append_of_silent (fun tile htile => ?_) ?_
  · obtain ⟨site, hsite, rfl⟩ := List.mem_map.1 htile
    rw [codeAt, Line.code, hram.silent site hsite]
    rfl
  · obtain ⟨base, rfl⟩ := Int.eq_ofNat_of_zero_le hnonneg
    have hbase : Tiles base (q.tilesAt q.romSites) :=
      tiles_of_contiguous hrom.contiguous hrom.regular hrom.emits hsizeRom (by omega)
    rcases Nat.lt_or_ge base 0x10000 with hlt | hge
    · rw [hrom.startRom_eq]
      have hstart := toNat_ofInt (a := (base : Int)) (by omega) (by omega)
      rw [show (UInt16.ofInt base).toNat = base by exact_mod_cast hstart]
      exact hbase
    · -- Behind the end of the memory there is no room for bytes.
      rw [← List.append_nil (q.romSites.map _)]
      refine Tiles.append_of_silent (fun tile htile => ?_) trivial
      by_contra hne
      obtain ⟨w, -, hle, -⟩ := hbase.getElem?_eq htile hne
      have := w.toNat_lt
      omega

/-- A program that has been linked is an operating system if that is what it was taken for. -/
lemma Linked.isSystem_eq (h : Linked source kind lib exports options q) :
    q.isSystem = decide (kind = .operatingSystem) := by
  by_cases hkind : kind = .operatingSystem
  · subst hkind
    obtain ⟨p, l, lines, below, hready, hlinks, -, hrelocates⟩ := h.exists_relocates
    obtain ⟨mid, p₁, p₂, a₁, ram', rom', hlays, hbefore, -, -, -, -, hmodules⟩ := hrelocates.layout
    rw [isSystem, Program.module, hmodules, hbefore.reshaped.modules_eq, hlays.reshaped.modules_eq]
    change l.program.isSystem = true
    rw [isSystem_of_holds hlinks.holds', isSystem, hready.root_kind]
    rfl
  · obtain ⟨p, l, lines, hready, hlinks, rfl⟩ := h.exists_links_user hkind
    change l.program.isSystem = _
    rw [isSystem_of_holds hlinks.holds', isSystem, hready.root_kind]
    rfl

/-- The tiles of a program do not depend on commands. -/
lemma Retraced.tilesAt_sites (h : Retraced p q) :
    q.tilesAt (q.sites root) = p.tilesAt (p.sites root) := by
  have huntraced : ∀ {p' : Program}, Retraced p p' →
      p'.tilesAt (p'.sites root) = p.tilesAt ((p'.sites root).map Site.untraced) := by
    intro p' h'
    rw [tilesAt, tilesAt, List.map_map]
    refine List.map_congr_left fun site _ => ?_
    exact Prod.ext rfl (h'.codeAt_untraced site)
  rw [huntraced h, huntraced (.refl p), h.sites]

end Program

/-! ### Built programs -/

namespace Output

/-- The address of the first byte of the object code. -/
def base (o : Output) : Nat := o.burn.elim 0 fun burn => burn.startRom.toNat

/-- The byte at an address, if the object code reaches there. -/
def byteAt? (o : Output) (address : Nat) : Option UInt8 :=
  if o.base ≤ address then o.code[address - o.base]? else none

variable {o : Output}

/-- The word that two bytes make up. -/
lemma toNat_bigEndian_pair (high low : UInt8) :
    (Text.bigEndian [high, low]).toNat = 256 * high.toNat + low.toNat := by
  have hhigh := high.toNat_lt
  have hlow := low.toNat_lt
  have hor : high.toNat <<< 8 ||| low.toNat = high.toNat <<< 8 + low.toNat :=
    (Nat.shiftLeft_add_eq_or_of_lt hlow high.toNat).symm
  have hshift : high.toNat <<< 8 = 256 * high.toNat := by
    rw [Nat.shiftLeft_eq, Nat.mul_comm]
  have hmod : high.toNat <<< 8 % 2 ^ 16 = high.toNat <<< 8 := Nat.mod_eq_of_lt (by omega)
  have hzero : (0 : UInt16) <<< 8 ||| high.toUInt16 = high.toUInt16 := by
    rw [show (0 : UInt16) <<< 8 = 0 from rfl, UInt16.zero_or]
  have height : UInt16.toNat 8 % 16 = 8 := rfl
  simp only [Text.bigEndian, List.foldl_cons, List.foldl_nil, hzero, UInt16.toNat_or,
    UInt16.toNat_shiftLeft, UInt8.toNat_toUInt16, height, hmod, hor]
  omega

lemma wordAt?_eq_some_iff {code : List UInt8} {i : Nat} {w : UInt16} :
    wordAt? code i = some w ↔
      ∃ high low : UInt8, code[i]? = some high ∧ code[i + 1]? = some low ∧
        w.toNat = 256 * high.toNat + low.toNat := by
  have hfirst : code[i]? = (code.drop i)[0]? := by simp
  have hsecond : code[i + 1]? = (code.drop i)[1]? := by simp
  rw [wordAt?, hfirst, hsecond]
  split
  next high low rest hdrop =>
    rw [hdrop]
    simp only [Option.some.injEq, List.getElem?_cons_zero, List.getElem?_cons_succ]
    constructor
    · rintro rfl
      exact ⟨high, low, rfl, rfl, toNat_bigEndian_pair high low⟩
    · rintro ⟨_, _, rfl, rfl, hw⟩
      exact UInt16.toNat_inj.1 ((toNat_bigEndian_pair high low).trans hw.symm)
  next hshort =>
    constructor
    · intro hnone
      cases hnone
    · rintro ⟨high, low, hhigh, hlow, -⟩
      cases hdrop : code.drop i with
      | nil => simp [hdrop] at hhigh
      | cons first rest =>
        cases rest with
        | nil => simp [hdrop] at hlow
        | cons second rest => exact absurd hdrop (hshort first second rest)

/-- A memory vector is read from the image, at its distance below the operand of the `.BURN`. -/
lemma vector?_eq_some_iff {v : MemoryVector} {w : UInt16} :
    o.vector? v = some w ↔
      ∃ burn a high low, o.burn = some burn ∧ a + v.offset = burn.argument.toNat ∧
        o.byteAt? a = some high ∧ o.byteAt? (a + 1) = some low ∧
        w.toNat = 256 * high.toNat + low.toNat := by
  unfold vector?
  split
  next hburn => simp [hburn]
  next burn hburn =>
    have hbase : o.base = burn.startRom.toNat := by rw [base, hburn, Option.elim_some]
    constructor
    · intro h
      split at h
      next hle =>
        obtain ⟨high, low, hhigh, hlow, hw⟩ := wordAt?_eq_some_iff.1 h
        refine ⟨burn, burn.argument.toNat - v.offset, high, low, hburn, by omega, ?_, ?_, hw⟩
        · rw [byteAt?, hbase, if_pos (by omega), hhigh]
        · rw [byteAt?, hbase, if_pos (by omega), ← hlow]
          congr 1
          omega
      · cases h
    · rintro ⟨burn', a, high, low, hburn', ha, hhigh, hlow, hw⟩
      obtain rfl : burn = burn' := Option.some.inj (hburn.symm.trans hburn')
      rw [byteAt?, hbase] at hhigh hlow
      split at hhigh
      next hle =>
        rw [if_pos (by omega)] at hlow
        rw [if_pos (by omega), wordAt?_eq_some_iff]
        refine ⟨high, low, ?_, ?_, hw⟩
        · rw [← hhigh]
          congr 1
          omega
        · rw [← hlow]
          congr 1
          omega
      · cases hhigh

end Output

variable {options : Options} {lib lib' : MacroLibrary} {kind : ModuleKind} {source : String}
  {exports : Option (List ExportedSymbol)} {o : Output}

/-- A build that succeeds goes through all phases. -/
lemma build_eq_ok (h : build options lib kind source exports = (lib', .ok o)) :
    ∃ p₁ p₂ p, (Program.ofSource source kind).findIncludes lib = (p₁, []) ∧
      p₁.assemble lib = (p₂, lib', []) ∧ p₂.link exports options = (p, []) ∧ o = p.output options := by
  unfold build at h
  split at h
  · cases h
  next p₁ hfind =>
    split at h
    · cases h
    next p₂ lib₂ hassemble =>
      split at h
      · cases h
      next p hlink =>
        cases h
        exact ⟨p₁, p₂, p, hfind, hassemble, hlink, rfl⟩

/-- A build that succeeds links the program. -/
lemma linked_of_build (h : build options lib kind source exports = (lib', .ok o)) :
    ∃ p, Program.Linked source kind lib exports options p ∧ o = p.output options := by
  obtain ⟨p₁, p₂, p, hfind, hassemble, hlink, ho⟩ := build_eq_ok h
  exact ⟨p, ⟨p₁, p₂, lib', hfind, hassemble, hlink⟩, ho⟩

/-- What a build gives is known of the `.BURN` of operating systems only. -/
lemma burn_of_build (h : build options lib kind source exports = (lib', .ok o)) :
    o.burn = if kind = .operatingSystem then some (o.program.inst Program.root).burn else none := by
  obtain ⟨p, hlinked, rfl⟩ := linked_of_build h
  have hsystem : p.annotate.1.isSystem = decide (kind = .operatingSystem) := by
    rw [Program.isSystem, Program.module, (Program.Retraced.annotate p).modules_eq]
    exact hlinked.isSystem_eq
  change (if p.annotate.1.isSystem then some (p.annotate.1.inst Program.root).burn else none) = _
  rw [hsystem]
  simp only [decide_eq_true_eq]
  rfl

/-- The pieces of code of a program that has been built are tiles from the base on. -/
theorem tiles_of_build (h : build options lib kind source exports = (lib', .ok o))
    (hsize : ∀ site ∈ o.program.sites Program.root, site.line.statement.hasWordSize = true) :
    Tiles o.base (o.program.tilesAt (o.program.sites Program.root)) := by
  have hburn := burn_of_build h
  obtain ⟨p, hlinked, rfl⟩ := linked_of_build h
  have hretraced := Program.Retraced.annotate p
  -- The statements are those of the program before it was annotated.
  have hsize' : ∀ site ∈ p.sites Program.root, site.line.statement.hasWordSize = true := by
    intro site hsite
    obtain ⟨site', hsite', heq⟩ := exists_untraced_eq (hretraced.sites _).symm hsite
    have hst : site'.untraced.line.statement = site.untraced.line.statement := by rw [heq]
    change site'.line.statement = site.line.statement at hst
    rw [← hst]
    exact hsize site' hsite'
  change Tiles _ (p.annotate.1.tilesAt (p.annotate.1.sites Program.root))
  rw [hretraced.tilesAt_sites, Output.base, hburn]
  by_cases hkind : kind = .operatingSystem
  · subst hkind
    rw [if_pos rfl, Option.elim_some]
    change Tiles (p.annotate.1.inst Program.root).burn.startRom.toNat _
    rw [hretraced.burn_eq]
    exact hlinked.tiles_of_system hsize'
  · rw [if_neg hkind]
    exact hlinked.tiles_of_user hkind hsize'

/-- The object code of a program that has been built is the content of the memory from the base on,
which is zero for a user program and the start of the ROM for an operating system: a line that emits
bytes has them at its address; every byte is one of exactly one line; and a memory vector of an
operating system is the word at its distance below the operand of the `.BURN`, if both bytes of it
are there. -/
theorem build_memory_image (h : build options lib kind source exports = (lib', .ok o))
    (hsize : ∀ site ∈ o.program.sites Program.root, site.line.statement.hasWordSize = true) :
    o.burn = (if kind = .operatingSystem then some (o.program.inst Program.root).burn else none) ∧
      (∀ site ∈ o.program.sites Program.root, o.program.codeAt site ≠ [] →
        ∃ w, site.line.address = some w ∧ o.base ≤ w.toNat ∧
          ∀ (k : Nat) (b : UInt8), (o.program.codeAt site)[k]? = some b →
            o.byteAt? (w.toNat + k) = some b) ∧
      (∀ a b, o.byteAt? a = some b → ∃! n : Nat, ∃ site w,
        (o.program.sites Program.root)[n]? = some site ∧ site.line.address = some w ∧
          w.toNat ≤ a ∧ a < w.toNat + (o.program.codeAt site).length) ∧
      ∀ v w, o.vector? v = some w ↔
        ∃ burn a high low, o.burn = some burn ∧ a + v.offset = burn.argument.toNat ∧
          o.byteAt? a = some high ∧ o.byteAt? (a + 1) = some low ∧
          w.toNat = 256 * high.toNat + low.toNat := by
  have htiles := tiles_of_build h hsize
  have hcode : (o.program.tilesAt (o.program.sites Program.root)).flatMap Prod.snd = o.code := by
    obtain ⟨p, -, rfl⟩ := linked_of_build h
    exact Program.flatMap_tilesAt _
  refine ⟨burn_of_build h, fun site hsite hne => ?_, fun a b hbyte => ?_,
    fun v w => Output.vector?_eq_some_iff⟩
  · obtain ⟨w, hw, hle, hbytes⟩ := htiles.getElem?_eq (List.mem_map_of_mem hsite) hne
    refine ⟨w, hw, hle, fun k b hk => ?_⟩
    rw [Output.byteAt?, if_pos (by omega), ← hbytes k b hk, hcode]
    congr 1
    omega
  · rw [Output.byteAt?] at hbyte
    split at hbyte
    next hle =>
      have hlt : a - o.base < o.code.length := (List.getElem?_eq_some_iff.1 hbyte).1
      have hsum : o.base + (a - o.base) = a := by omega
      rw [← hcode] at hlt
      have hunique := htiles.existsUnique hlt
      rw [hsum] at hunique
      -- The pieces are those of the sites, one by one.
      refine (existsUnique_congr fun n => ?_).1 hunique
      rw [Program.tilesAt, List.getElem?_map]
      constructor
      · rintro ⟨w, code, hn, hbounds⟩
        obtain ⟨site, hsite, heq⟩ := Option.map_eq_some_iff.1 hn
        rw [Prod.mk.injEq] at heq
        obtain ⟨hw, rfl⟩ := heq
        exact ⟨site, w, hsite, hw, hbounds⟩
      · rintro ⟨site, w, hsite, hw, hbounds⟩
        exact ⟨w, _, by rw [hsite, Option.map_some, hw], hbounds⟩
    · cases hbyte

/-- An operating system with a padded macro, a text and a memory vector in its ROM, and with a trace
tag. -/
def vectorSource : String :=
  "x: .BLOCK 2 ;#2d\n@EVEN x\n.BURN 0x0FFF\n@EVEN 7\n@EVEN x\n.ASCII \"ab\"\n.WORD 0xFEED\n.END\n"

/-- The image of an operating system: its base, its bytes, and the vectors that lie in it. -/
theorem build_memory_image_vectors :
    ∃ lib' o, build {} Program.evenLibrary .operatingSystem vectorSource none = (lib', .ok o) ∧
      o.base = 4085 ∧ o.code = [64, 0, 7, 64, 15, 239, 0, 97, 98, 254, 237] ∧
      o.vector? .trap = some 0xFEED ∧ o.vector? .userStack = none ∧
      (∀ site ∈ o.program.sites Program.root, o.program.codeAt site ≠ [] →
        ∃ w, site.line.address = some w ∧ o.base ≤ w.toNat ∧
          ∀ (k : Nat) (b : UInt8), (o.program.codeAt site)[k]? = some b →
            o.byteAt? (w.toNat + k) = some b) := by
  obtain ⟨r, hr⟩ : ∃ r, r = build {} Program.evenLibrary .operatingSystem vectorSource none := ⟨_, rfl⟩
  have hfacts : r.2.toOption.map (fun o => (o.base, o.code, o.vector? .trap, o.vector? .userStack,
      (o.program.sites Program.root).all fun site => site.line.statement.hasWordSize)) =
        some (4085, [64, 0, 7, 64, 15, 239, 0, 97, 98, 254, 237], some 0xFEED, none, true) := by
    rw [hr, build, Program.ofSource_of_chars vectorSource rfl]
    decide +kernel
  obtain ⟨lib', result⟩ := r
  cases result with
  | error log => cases hfacts
  | ok o =>
    simp only [Except.toOption, Option.map_some, Option.some.injEq, Prod.mk.injEq] at hfacts
    obtain ⟨hbase, hcode, htrap, hstack, hsize⟩ := hfacts
    exact ⟨lib', o, hr.symm, hbase, hcode, htrap, hstack,
      (build_memory_image hr.symm (List.all_eq_true.1 hsize)).2.1⟩

end Pep10
