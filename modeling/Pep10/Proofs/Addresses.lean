import Pep10.Proofs.Program.FirstPass

/-!
# The addresses of a linked user program

In a user program that has been linked, the lines of the expansion take up the memory from zero on
without gaps: a line stands where the lines before it end.
-/

namespace Pep10.Program

variable {p : Program} {lib : MacroLibrary} {source : String}
  {exports : Option (List ExportedSymbol)} {options : Options}

/-- A line of contiguous lines in memory has the address where it stands. -/
lemma address_eq_of_startingAt {line : Line} {a : Nat} (h : line.startingAt a = line)
    (ha : a ≤ 0xFFFF) :
    line.address.map UInt16.toNat = if line.statement.isAddressable then some a else none := by
  have hmem : inMemory a = true := by
    simp only [inMemory, Bool.and_eq_true, decide_eq_true_eq]
    omega
  have hnat : (UInt16.ofInt a).toNat = a := by
    have := toNat_ofInt (a := (a : Int)) (by omega) (by omega)
    exact_mod_cast this
  rw [Line.address_of_startingAt h, hmem, Bool.and_true]
  split
  · rw [Option.map_some, hnat]
  · rfl

/-- In a linked user program every line of the expansion stands where the lines before it end, and
has that address unless it is a comment or blank; everything fits into memory; and an `.ALIGN` line
fills up to the next multiple of its operand.  The sites are the whole expansion of the root. -/
theorem Linked.sites_contiguous (h : Linked source .userProgram lib exports options p) :
    p.Expands (p.inst root).lines ((p.sites root).map Site.line) ∧ p.byteCount root ≤ 0xFFFF ∧
      ∀ before site after, p.sites root = before ++ site :: after →
        site.line.address.map UInt16.toNat =
            (if site.line.statement.isAddressable then some (p.roomAt before) else none) ∧
          ∀ operand padding, site.line.statement = .align operand padding →
            ∃ n, operand = .unsigned n ∧ padding.toNat < n.toNat ∧
              n.toNat ∣ p.roomAt before + padding.toNat := by
  obtain ⟨p₀, l, lines, hready, hlinks, rfl⟩ := h.exists_links_user (by decide)
  have hpass := hready.firstPass hlinks
  have hexp := hpass.expands_sites hready.root_lt
  obtain ⟨e, he, hcont, hnext⟩ := hpass.placed
  rw [he.unique hexp] at hcont hnext
  have hregular : ∀ site ∈ (l.store root lines).program.sites root, site.line.statement.Regular := by
    intro site hsite
    obtain ⟨t, ht, line, hline, hshape⟩ := hpass.exists_shape hready.root_lt hsite
    exact hready.regular_of_shape ht hline hshape
  have htotal := hpass.next_le
  rw [hnext, ← roomAt_eq_room hregular] at htotal
  refine ⟨hexp, by rwa [byteCount_eq_roomAt], fun before site after hsplit => ?_⟩
  rw [hsplit] at hregular
  have hbefore : ∀ s ∈ before, s.line.statement.Regular :=
    fun s hs => hregular s (List.mem_append_left _ hs)
  have hsite := hregular site (List.mem_append_right _ List.mem_cons_self)
  have hstart : site.line.startingAt (roomAt (l.store root lines).program before) = site.line := by
    rw [hsplit, List.map_append, List.map_cons] at hcont
    rw [roomAt_eq_room hbefore]
    simpa using hcont.startingAt
  have hle : roomAt (l.store root lines).program before ≤ 0xFFFF := by
    rw [hsplit, roomAt_append] at htotal
    omega
  refine ⟨address_eq_of_startingAt hstart hle, fun operand padding hs => ?_⟩
  obtain ⟨n, hn, hlt, hdvd⟩ := Line.aligned_of_startingAt hsite hstart hs
  exact ⟨n, hn, hlt, by exact_mod_cast hdvd⟩

/-- A library with one macro, which takes three bytes and fills up to an even address. -/
def evenLibrary : MacroLibrary :=
  ⟨[⟨"EVEN", 1, .user, "@EVEN 1\nLDWA $1,i\n.ALIGN 2\n.END\n"⟩]⟩

/-- A user program that calls the macro from an odd address and from one behind an `.ALIGN`. -/
def evenSource : String :=
  "x: .BYTE 1\n@EVEN x\n.ALIGN 8 ;fill\n; remark\n@EVEN 7\n\n.WORD 7\n.END\n"

/-- The expansion of a program with nested alignments, and what it amounts to. -/
theorem sites_contiguous_even :
    ∃ p, Linked evenSource .userProgram evenLibrary none {} p ∧
      (p.sites root).map (fun site => site.line.address) =
        [some 0, some 1, some 1, some 4, some 4, some 4, none, some 8, some 8, some 11, some 12,
          none, some 12, some 14] ∧
      p.byteCount root = 14 ∧
      ∀ before site after, p.sites root = before ++ site :: after →
        site.line.address.map UInt16.toNat =
          if site.line.statement.isAddressable then some (p.roomAt before) else none := by
  obtain ⟨q, hq⟩ : ∃ q, q = throughPhases evenSource .userProgram evenLibrary none {} := ⟨_, rfl⟩
  obtain ⟨hreports, haddresses, hcount⟩ : q.2 = [] ∧
      (q.1.sites root).map (fun site => site.line.address) =
        [some 0, some 1, some 1, some 4, some 4, some 4, none, some 8, some 8, some 11, some 12,
          none, some 12, some 14] ∧
      q.1.byteCount root = 14 := by
    rw [hq, throughPhases, ofSource_of_chars evenSource rfl]
    decide +kernel
  have h : Linked evenSource .userProgram evenLibrary none {} q.1 := by
    subst hq
    exact linked_of_throughPhases hreports
  exact ⟨q.1, h, haddresses, hcount,
    fun before site after hsplit => (h.sites_contiguous.2.2 before site after hsplit).1⟩

end Pep10.Program
