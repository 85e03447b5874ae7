import Pep10.Proofs.Program.Linkable

/-!
# When linking succeeds

Linking a user program reports nothing exactly if the program has none of four faults: a name that
is declared twice in a module, a label of the root that is exported, an operand that nothing
declares, and an expansion that is too long for memory.  No fault is lost in nested calls, although
a call repeats the first fault of its expansion only; and none is found that is not there, although
the root imports symbols while others are looked up.
-/

namespace Pep10.Program

variable {p p₁ : Program} {lib lib' : MacroLibrary} {text : String}

/-- Linking a user program reports nothing exactly if no module of its expansion declares a name
twice, the root declares no exported name, every operand of the expansion is declared in its module,
in the root or among the exports, and the expansion, with `.ALIGN` lines filling up from where they
stand, is no longer than `0xFFFF` bytes. -/
theorem link_reports_nothing_iff (hfind : (ofSource text .userProgram).findIncludes lib = (p₁, []))
    (hassemble : p₁.assemble lib = (p, lib', [])) (exports : Option (List ExportedSymbol))
    (options : Options) : (p.link exports options).2 = [] ↔ p.Linkable (exports.getD []) := by
  have hready := ready_of_assemble hfind hassemble
  obtain ⟨rank, hdescends⟩ := descends_of_assemble hfind hassemble
  constructor
  · intro hreports
    obtain ⟨l, hpass, -⟩ := link_eq_nil (Prod.ext rfl hreports)
    obtain ⟨l₁, lines, hlinks, -⟩ := hready.links hpass
    exact hready.linkable hdescends hlinks
  · intro hlinkable
    obtain ⟨l, lines, hlinks⟩ := Linkable.exists_links hlinkable hready hdescends
    rw [hready.link_eq options hlinks]

/-- A macro with a label of its own, which takes a symbol and fills up to a multiple of four. -/
def loopLibrary : MacroLibrary :=
  ⟨[⟨"LOOP", 1, .user, "@LOOP 1\nloop: LDWA $1,i\n.ALIGN 4\nBR loop\n.END\n"⟩]⟩

/-- A program that calls the macro with a symbol of its own and with one that it does not
declare. -/
def loopSource : String := "n: .EQUATE 3\n@LOOP n\n@LOOP x\n.END\n"

/-- Whether the program can be linked depends on the exports, and labels in different expansions of
a macro do not clash. -/
theorem link_reports_nothing_iff_loop :
    ∃ p₁ p lib', (ofSource loopSource .userProgram).findIncludes loopLibrary = (p₁, []) ∧
      p₁.assemble loopLibrary = (p, lib', []) ∧ p.labels 1 = ["loop"] ∧
      layoutEnd 0 ((p.sites root).map Site.line) = 15 ∧
      p.Linkable [⟨"x", 7⟩] ∧ ¬p.Linkable [] ∧ ¬p.Linkable [⟨"x", 7⟩, ⟨"n", 3⟩] := by
  obtain ⟨f, hf⟩ : ∃ f, f = (ofSource loopSource .userProgram).findIncludes loopLibrary := ⟨_, rfl⟩
  obtain ⟨a, ha⟩ : ∃ a, a = f.1.assemble loopLibrary := ⟨_, rfl⟩
  obtain ⟨hfind, hassemble, hlabels, hend, hlinked, hundefined, hredefined⟩ : f.2 = [] ∧ a.2.2 = [] ∧
      a.1.labels 1 = ["loop"] ∧ layoutEnd 0 ((a.1.sites root).map Site.line) = 15 ∧
      (a.1.link (some [⟨"x", 7⟩]) {}).2 = [] ∧ (a.1.link none {}).2 ≠ [] ∧
      (a.1.link (some [⟨"x", 7⟩, ⟨"n", 3⟩]) {}).2 ≠ [] := by
    rw [ha, hf, ofSource_of_chars loopSource rfl]
    decide +kernel
  have hfind' : (ofSource loopSource .userProgram).findIncludes loopLibrary = (f.1, []) := by
    rw [← hf, ← hfind]
  have hassemble' : f.1.assemble loopLibrary = (a.1, a.2.1, []) := by
    rw [← ha, ← hassemble]
  have hiff := link_reports_nothing_iff hfind' hassemble'
  refine ⟨f.1, a.1, a.2.1, hfind', hassemble', hlabels, hend, ?_, ?_, ?_⟩
  · exact (hiff (some [⟨"x", 7⟩]) {}).1 hlinked
  · exact fun h => hundefined ((hiff none {}).2 h)
  · exact fun h => hredefined ((hiff (some [⟨"x", 7⟩, ⟨"n", 3⟩]) {}).2 h)

end Pep10.Program
