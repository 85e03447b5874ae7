import Pep10.Proofs.Program.Rom

/-!
# The values of symbols in a linked program

Every symbol that is used in a linked program has a value, and the value is that of its declaration
in the nearest place: the instance that uses it, the root, or the operating system.  For operating
systems the addresses are those behind relocation.
-/

namespace Pep10.Program

variable {q : Program} {lib : MacroLibrary} {source : String} {kind : ModuleKind}
  {exports : Option (List ExportedSymbol)} {options : Options}

/-- In a linked program, whether it is a user program or an operating system, every symbol that is
the operand of a line in an instance that can be reached from the root has a value, which is that of
the declaration in the instance itself, or else in the root, or else among the exports.  An
`.EQUATE` declares its constant; any other line declares its address, if it has one. -/
theorem Linked.value_of_operand (h : Linked source kind lib exports options q) {id : Nat}
    (hreach : q.Reaches root id) {line : Line} (hline : line ∈ (q.inst id).lines) {name : String}
    (hname : line.statement.operand? = some (.symbol name)) :
    ∃ v, q.symbols.value? (q.inst id).table name = some v ∧
      Denotes (q.inst id).lines (q.inst root).lines (availableExports kind exports) name v := by
  obtain ⟨lo, -, hspans, hresolved⟩ := h.exists_resolved
  have hsymbol : line.statement.symbol? = some name := by rw [Statement.symbol?, hname]; rfl
  rcases hspans.mem_of_reaches hreach with rfl | ⟨hlo, hhi⟩
  · exact hresolved.denotes_root hline hsymbol
  · exact hresolved.denotes_copy hlo hhi hline hsymbol

/-- A library with a macro that uses symbols of its own, of the program and of the operating
system. -/
def nearLibrary : MacroLibrary :=
  ⟨[⟨"NEAR", 0, .user, "@NEAR 0\nhere: LDWA here,i\nLDWA top,d\nSTWA port,d\n.END\n"⟩]⟩

/-- A user program that calls the macro twice and declares a symbol behind the calls. -/
def nearSource : String := "here: .EQUATE 5\n@NEAR\n@NEAR\ntop: LDWA here,i\nSTWA port,d\n.END\n"

/-- The exports that the program is linked against. -/
def nearExports : List ExportedSymbol := [⟨"port", 7⟩, ⟨"port", 9⟩]

/-- The second call of the macro sees its own label, the label behind the call, and the last export
of a name. -/
theorem value_of_operand_near :
    ∃ q, Linked nearSource .userProgram nearLibrary (some nearExports) {} q ∧
      q.symbols.value? (q.inst 3).table "here" = some 9 ∧
      q.symbols.value? (q.inst 3).table "top" = some 18 ∧
      q.symbols.value? (q.inst 3).table "port" = some 9 ∧
      ∃ v, q.symbols.value? (q.inst 3).table "port" = some v ∧
        Denotes (q.inst 3).lines (q.inst root).lines nearExports "port" v := by
  obtain ⟨q, hq⟩ : ∃ q, q = throughPhases nearSource .userProgram nearLibrary (some nearExports) {} :=
    ⟨_, rfl⟩
  obtain ⟨hreports, hcall, ⟨line, hline, hname⟩, hhere, htop, hport⟩ : q.2 = [] ∧
      3 ∈ q.1.callsOf root ∧
      (∃ line ∈ (q.1.inst 3).lines, line.statement.operand? = some (.symbol "port")) ∧
      q.1.symbols.value? (q.1.inst 3).table "here" = some 9 ∧
      q.1.symbols.value? (q.1.inst 3).table "top" = some 18 ∧
      q.1.symbols.value? (q.1.inst 3).table "port" = some 9 := by
    rw [hq, throughPhases, ofSource_of_chars nearSource rfl]
    decide +kernel
  have h : Linked nearSource .userProgram nearLibrary (some nearExports) {} q.1 := by
    subst hq
    exact linked_of_throughPhases hreports
  exact ⟨q.1, h, hhere, htop, hport, h.value_of_operand (.single hcall) hline hname⟩

end Pep10.Program
