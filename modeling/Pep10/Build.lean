import Pep10.Program.Assembly
import Pep10.Program.Inclusion
import Pep10.Program.Listing
import Pep10.Program.Relocation
import Pep10.Program.Tracing

/-!
# Building programs

A build takes a source text through all phases: it finds the modules that the program includes,
assembles them, links them, and annotates the result for tracing.  The phases stop at the first one
that has something to report.  Errors about trace tags never fail a build.
-/

namespace Pep10

/-- What a successful build gives. -/
structure Output where
  program : Program
  code : List UInt8
  /-- The first address, and the one behind the last. -/
  bounds : Nat × Nat
  /-- Known of operating systems only. -/
  burn : Option Burn
  traced : TraceSummary
  /-- Warnings, and errors of tracing. -/
  diagnostics : Log
  bytesPerLine : Nat

/-- The symbols that an operating system is expected to declare for the simulator. -/
def deviceSymbols : List String := ["charIn", "charOut", "diskIn", "pwrOff"]

/-- The addresses that an operating system keeps at the end of its ROM. -/
inductive MemoryVector where
  | userStack
  | systemStack
  | diskIn
  | charIn
  | charOut
  | powerOff
  | start
  | loader
  | trap
  deriving DecidableEq, Repr

/-- The distance of a vector below the `.BURN` operand. -/
def MemoryVector.offset : MemoryVector → Nat
  | userStack => 17
  | systemStack => 15
  | diskIn => 13
  | charIn => 11
  | charOut => 9
  | powerOff => 7
  | start => 5
  | loader => 3
  | trap => 1

namespace Output

/-- The object code as text. -/
def objectText (o : Output) : String := Pep10.objectText o.code o.bytesPerLine

/-- The symbols that the program exports. -/
def exports (o : Output) : List ExportedSymbol :=
  let p := o.program
  (p.symbols.table p.rootTable).symbols.filterMap fun s =>
    if s.exported then (p.symbols.value? p.rootTable s.name).map (ExportedSymbol.mk s.name)
    else none

/-- The word at a position of the object code. -/
def wordAt? (code : List UInt8) (position : Nat) : Option UInt16 :=
  match code.drop position with
  | high :: low :: _ => some (Text.bigEndian [high, low])
  | _ => none

/-- The address that an operating system keeps in a memory vector. -/
def vector? (o : Output) (v : MemoryVector) : Option UInt16 :=
  match o.burn with
  | none => none
  | some burn =>
    if v.offset + burn.startRom.toNat ≤ burn.argument.toNat then
      wordAt? o.code (burn.argument.toNat - v.offset - burn.startRom.toNat)
    else none

end Output

namespace Program

/-- The warnings about device symbols that an operating system does not declare. -/
def deviceWarnings (p : Program) : List Report :=
  if !p.isSystem then []
  else
    let declared := fun name => ((p.symbols.table p.rootTable).find? name).any Symbol.defined
    (deviceSymbols.filter fun name => !declared name).map fun name =>
      ⟨(p.module root).lines.length, ⟨.warning, .backEnd, .link (.missingSymbol name)⟩⟩

/-- The first address and the one behind the last. -/
def bounds (p : Program) : Nat × Nat :=
  let start := ((p.inst root).lines.findSome? Line.address).elim 0 UInt16.toNat
  (start, start + p.byteCount root)

/-- What a build gives, once the program has been linked. -/
def output (p : Program) (options : Options) : Output :=
  let (p, traced) := p.annotate
  { program := p
    code := p.codeOf root
    bounds := p.bounds
    burn := if p.isSystem then some (p.inst root).burn else none
    traced
    diagnostics :=
      ({} : Log).reportAll (traced.warnings ++ traced.errors ++ p.deviceWarnings)
    bytesPerLine := options.bytesPerLine }

end Program

/-- The text of a failed build. -/
def failureMessage (log : Log) : String :=
  "assembly failed on " ++ Text.decimal log.reportedLines ++ " lines"

/-- Builds a program of the given kind.  A failed build gives the log of the program with the
reports that ended it.  The library comes back with the system calls that were registered. -/
def build (options : Options) (lib : MacroLibrary) (kind : ModuleKind) (source : String)
    (exports : Option (List ExportedSymbol)) : MacroLibrary × Except Log Output :=
  match (Program.ofSource source kind).findIncludes lib with
  | (p, r :: rs) => (lib, .error (p.log.reportAll (r :: rs)))
  | (p, []) =>
    match p.assemble lib with
    | (p, lib, r :: rs) => (lib, .error (p.log.reportAll (r :: rs)))
    | (p, lib, []) =>
      match p.link exports options with
      | (p, r :: rs) => (lib, .error (p.log.reportAll (r :: rs)))
      | (p, []) => (lib, .ok (p.output options))

/-- Builds a user program, against an operating system if there is one. -/
def buildUser (options : Options) (lib : MacroLibrary) (source : String) (os : Option Output) :
    MacroLibrary × Except Log Output :=
  build options lib .userProgram source (os.map Output.exports)

/-- Builds an operating system.  Its system calls replace those of an earlier one. -/
def buildSystem (options : Options) (lib : MacroLibrary) (source : String) :
    MacroLibrary × Except Log Output :=
  build options lib.clearCalls .operatingSystem source none

end Pep10
