import Pep10.Proofs.Program.FirstPass
import Pep10.Program.Tracing

/-!
# Tags on lines that move the stack pointer

The tags on a line that moves the stack pointer must account for the number of bytes moved.  The
check adds up sizes in words, where an array counts as `0xFFFF` bytes at most.
`DataType.extentWith` is the number of bytes of a type as a natural number, with a function for what
an array counts; the true number of bytes has the identity there.  Both agree unless an array is too
long, and then either number is `0xFFFF` or more (`DataType.totalExtentWith_cases`).  So a mismatch
that is reported is one, and none is missed as long as the tags stand for `0xFFFF` bytes at most
(`sizeMismatch_iff`).  Longer arrays pass for `0xFFFF` bytes.
-/

namespace Pep10

namespace Trace.DataType

mutual

/-- The number of bytes that traced data takes, `array n` for an array whose elements take `n`
bytes. -/
def extentWith (array : Nat → Nat) : DataType → Nat
  | primitive _ format => format.size.toNat
  | .array _ format length => array (format.size.toNat * length.toNat)
  | struct _ fields => totalExtentWith array fields

/-- The number of bytes that several pieces of traced data take together. -/
def totalExtentWith (array : Nat → Nat) : List DataType → Nat
  | [] => 0
  | t :: ts => t.extentWith array + totalExtentWith array ts

end

/-- The number of bytes of several pieces of traced data. -/
def totalExtent (ts : List DataType) : Nat := totalExtentWith id ts

/-- The number of bytes of several pieces of traced data if no array counts as more than
`0xFFFF`. -/
def cappedExtent (ts : List DataType) : Nat := totalExtentWith (min · 0xFFFF) ts

lemma toNat_saturatingMul (a b : UInt16) : (saturatingMul a b).toNat = min (a.toNat * b.toNat) 0xFFFF := by
  rw [saturatingMul, UInt16.toNat_ofNat']
  omega

mutual

/-- The size of a type is the number of its bytes with capped arrays, kept in a word. -/
lemma toNat_size : (t : DataType) → t.size.toNat = t.extentWith (min · 0xFFFF) % 0x10000
  | primitive _ format => by
    have hlt := format.size.toNat_lt
    rw [size, extentWith, Nat.mod_eq_of_lt hlt]
  | .array _ format length => by
    rw [size, extentWith, toNat_saturatingMul]
    omega
  | struct _ fields => by
    rw [size, extentWith, toNat_totalSize fields]

lemma toNat_totalSize : (ts : List DataType) →
    (totalSize ts).toNat = totalExtentWith (min · 0xFFFF) ts % 0x10000
  | [] => rfl
  | t :: ts => by
    rw [totalSize, totalExtentWith, UInt16.toNat_add, toNat_size t, toNat_totalSize ts, ← Nat.add_mod]

end

mutual

/-- Capping arrays makes no difference, unless it leaves `0xFFFF` bytes or more. -/
lemma extentWith_cases : (t : DataType) →
    t.extentWith (min · 0xFFFF) = t.extentWith id ∨
      0xFFFF ≤ t.extentWith (min · 0xFFFF) ∧ 0xFFFF < t.extentWith id
  | primitive .. => .inl rfl
  | .array _ format length => by
    simp only [extentWith, id]
    omega
  | struct _ fields => by
    rw [extentWith, extentWith]
    exact totalExtentWith_cases fields

lemma totalExtentWith_cases : (ts : List DataType) →
    totalExtentWith (min · 0xFFFF) ts = totalExtentWith id ts ∨
      0xFFFF ≤ totalExtentWith (min · 0xFFFF) ts ∧ 0xFFFF < totalExtentWith id ts
  | [] => .inl rfl
  | t :: ts => by
    have ht := extentWith_cases t
    have hts := totalExtentWith_cases ts
    rw [totalExtentWith, totalExtentWith]
    omega

end

end Trace.DataType

open Trace

namespace Program

variable {p : Program} {site : Site} {mnemonic : Mnemonic} {mode : Mode} {operand : Operand}

/-! ### What is reported for a line -/

/-- The types that the tagged `.EQUATE` lines of a program declare. -/
def declaredTypes (p : Program) : Types :=
  (Declaration.resolveAll ((p.sites root).filterMap Site.declaration?)).1

/-- The errors that tracing reports for one line of the expansion. -/
def traceErrors (p : Program) (site : Site) : List Report :=
  (p.traceAt p.declaredTypes site).errors

/-- Tracing reports that the tags of a line do not account for the bytes that it moves. -/
def ReportsMismatch (p : Program) (site : Site) : Prop :=
  ∃ tagged allocated, traceFault site.rootLine (.sizeMismatch tagged allocated) ∈ p.traceErrors site

/-- A program with tags is traced line by line. -/
lemma errors_annotate (hsite : site ∈ p.sites root) (htags : site.tags.isEmpty = false) :
    p.annotate.2.errors = (p.sites root).flatMap p.traceErrors := by
  have hsome : ¬((p.sites root).all fun site => site.tags.isEmpty) = true := by
    intro hall
    have := List.all_eq_true.1 hall site hsite
    rw [htags] at this
    cases this
  unfold annotate
  dsimp only
  rw [if_neg hsome]
  exact List.flatMap_map ..

/-- A line that moves the stack pointer is checked for the sizes of its tags. -/
lemma traceErrors_stack (hstatement : site.line.statement = .nonunary mnemonic mode operand)
    (hmnemonic : mnemonic = .addsp ∨ mnemonic = .subsp) (htags : site.tags.isEmpty = false)
    (hcomplete : site.complete p.declaredTypes = true) :
    p.traceErrors site =
      if DataType.totalSize (site.types p.declaredTypes) =
          operand.value p.symbols (p.inst site.owner).table then []
      else [traceFault site.rootLine (.sizeMismatch (DataType.totalSize (site.types p.declaredTypes))
        (operand.value p.symbols (p.inst site.owner).table))] := by
  have hstack : p.traceAt p.declaredTypes site = stackTrace p.declaredTypes site mnemonic
      (operand.value p.symbols (p.inst site.owner).table) := by
    unfold traceAt
    rw [hstatement]
    rcases hmnemonic with rfl | rfl <;> rfl
  rw [traceErrors, hstack, stackTrace, htags]
  by_cases hsize : DataType.totalSize (site.types p.declaredTypes) =
    operand.value p.symbols (p.inst site.owner).table <;> simp [hcomplete, hsize]

/-- A mismatch is reported exactly if the number of bytes of the tags, with capped arrays and kept
in a word, is not the number of bytes moved. -/
lemma reportsMismatch_iff (hstatement : site.line.statement = .nonunary mnemonic mode operand)
    (hmnemonic : mnemonic = .addsp ∨ mnemonic = .subsp) (htags : site.tags.isEmpty = false)
    (hcomplete : site.complete p.declaredTypes = true) :
    p.ReportsMismatch site ↔ DataType.cappedExtent (site.types p.declaredTypes) % 0x10000 ≠
      (operand.value p.symbols (p.inst site.owner).table).toNat := by
  rw [ReportsMismatch, traceErrors_stack hstatement hmnemonic htags hcomplete, DataType.cappedExtent,
    ← DataType.toNat_totalSize, Ne, UInt16.toNat_inj]
  split
  next heq => exact iff_of_false (fun ⟨_, _, hmem⟩ => List.not_mem_nil hmem) (fun hne => hne heq)
  next hne => exact iff_of_true ⟨_, _, List.mem_singleton_self _⟩ hne

/-- In a program with tags, tracing goes through the lines of the expansion.  For a line that moves
the stack pointer, with tags all of which have a type, it compares the number of bytes moved with
the number of bytes of the tags, where an array counts as `0xFFFF` bytes at most and the sum is kept
in a word.  What is reported is a mismatch indeed, and every mismatch is reported if the tags stand
for `0xFFFF` bytes at most.  If they stand for more, but for no more than that with capped arrays,
then they are taken for `0xFFFF` bytes. -/
theorem sizeMismatch_iff (hsite : site ∈ p.sites root)
    (hstatement : site.line.statement = .nonunary mnemonic mode operand)
    (hmnemonic : mnemonic = .addsp ∨ mnemonic = .subsp) (htags : site.tags.isEmpty = false)
    (hcomplete : site.complete p.declaredTypes = true) :
    let types := site.types p.declaredTypes
    let moved := (operand.value p.symbols (p.inst site.owner).table).toNat
    p.annotate.2.errors = (p.sites root).flatMap p.traceErrors ∧
      (p.ReportsMismatch site ↔ DataType.cappedExtent types % 0x10000 ≠ moved) ∧
      (p.ReportsMismatch site → DataType.totalExtent types ≠ moved) ∧
      (DataType.totalExtent types ≤ 0xFFFF →
        (p.ReportsMismatch site ↔ DataType.totalExtent types ≠ moved)) ∧
      (DataType.cappedExtent types ≤ 0xFFFF → 0xFFFF < DataType.totalExtent types →
        (p.ReportsMismatch site ↔ moved ≠ 0xFFFF)) := by
  intro types moved
  have hreports : p.ReportsMismatch site ↔ DataType.cappedExtent types % 0x10000 ≠ moved :=
    reportsMismatch_iff hstatement hmnemonic htags hcomplete
  have hcases : DataType.cappedExtent types = DataType.totalExtent types ∨
      0xFFFF ≤ DataType.cappedExtent types ∧ 0xFFFF < DataType.totalExtent types :=
    DataType.totalExtentWith_cases types
  have hmoved : moved < 0x10000 := UInt16.toNat_lt _
  refine ⟨errors_annotate hsite htags, hreports, fun h => ?_, fun hle => ?_, fun hle hlt => ?_⟩
  · rw [hreports] at h
    omega
  · rw [hreports]
    omega
  · rw [hreports]
    omega

/-- A record that is declared before one of its fields is, and the call of a macro that removes
one. -/
def recordSource : String := "rec: .EQUATE 0 ;#n #1c10a\nn: .EQUATE 0 ;#2d\n@POP 12\n.END\n"

/-- A macro that moves the stack pointer. -/
def popLibrary : MacroLibrary := ⟨[⟨"POP", 1, .user, "@POP 1\nADDSP $1,i ;#rec,#1c\n.END\n"⟩]⟩

/-- A record and a byte take thirteen bytes, and not twelve. -/
theorem sizeMismatch_iff_record :
    ∃ p, Linked recordSource .userProgram popLibrary none {} p ∧
      ∃ site ∈ p.sites root, site.line.statement = .nonunary .addsp .immediate (.unsigned 12) ∧
        DataType.totalExtent (site.types p.declaredTypes) = 13 ∧ p.ReportsMismatch site ∧
        ∃ tagged allocated,
          traceFault site.rootLine (.sizeMismatch tagged allocated) ∈ p.annotate.2.errors := by
  obtain ⟨q, hq⟩ : ∃ q, q = throughPhases recordSource .userProgram popLibrary none {} := ⟨_, rfl⟩
  obtain ⟨hreports, site, hsite, hstatement, htags, hcomplete, hextent⟩ : q.2 = [] ∧
      ∃ site ∈ q.1.sites root, site.line.statement = .nonunary .addsp .immediate (.unsigned 12) ∧
        site.tags.isEmpty = false ∧ site.complete q.1.declaredTypes = true ∧
        DataType.totalExtent (site.types q.1.declaredTypes) = 13 := by
    rw [hq, throughPhases, ofSource_of_chars recordSource rfl]
    decide +kernel
  have h : Linked recordSource .userProgram popLibrary none {} q.1 := by
    subst hq
    exact linked_of_throughPhases hreports
  obtain ⟨herrors, -, -, hiff, -⟩ := sizeMismatch_iff hsite hstatement (.inl rfl) htags hcomplete
  have hreported : q.1.ReportsMismatch site := by
    refine (hiff (by omega)).2 ?_
    rw [hextent]
    exact (by decide : 13 ≠ (12 : UInt16).toNat)
  refine ⟨q.1, h, site, hsite, hstatement, hextent, hreported, ?_⟩
  obtain ⟨tagged, allocated, hmem⟩ := hreported
  exact ⟨tagged, allocated, herrors ▸ List.mem_flatMap.2 ⟨site, hsite, hmem⟩⟩

/-- A line that moves the stack pointer by `0xFFFF` bytes and is tagged with a longer array. -/
def longArraySource : String := "SUBSP 65535,i ;#2d40000a\n.END\n"

/-- The array takes 80000 bytes, which is not what the line moves, and nothing is reported. -/
theorem long_array_not_reported :
    ∃ p, Linked longArraySource .userProgram {} none {} p ∧ p.annotate.2.tagged = true ∧
      p.annotate.2.errors = [] ∧ p.annotate.2.warnings = [] ∧
      ∃ site ∈ p.sites root, site.line.statement = .nonunary .subsp .immediate (.unsigned 65535) ∧
        site.tags.isEmpty = false ∧ site.complete p.declaredTypes = true ∧
        DataType.totalExtent (site.types p.declaredTypes) = 80000 := by
  obtain ⟨q, hq⟩ : ∃ q, q = throughPhases longArraySource .userProgram {} none {} := ⟨_, rfl⟩
  obtain ⟨hreports, hfacts⟩ : q.2 = [] ∧ q.1.annotate.2.tagged = true ∧
      q.1.annotate.2.errors = [] ∧ q.1.annotate.2.warnings = [] ∧
      ∃ site ∈ q.1.sites root, site.line.statement = .nonunary .subsp .immediate (.unsigned 65535) ∧
        site.tags.isEmpty = false ∧ site.complete q.1.declaredTypes = true ∧
        DataType.totalExtent (site.types q.1.declaredTypes) = 80000 := by
    rw [hq, throughPhases, ofSource_of_chars longArraySource rfl]
    decide +kernel
  subst hq
  exact ⟨_, linked_of_throughPhases hreports, hfacts⟩

end Program

end Pep10
