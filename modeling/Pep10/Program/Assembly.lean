import Pep10.Line.Reader
import Pep10.Program.Attribution

/-!
# Assembling the instances of a program

The instances that can be reached from the root are assembled level by level: the source lines of
an instance are read one by one up to its `.END`, and the instances that they call form the next
level.  The first error ends the assembly.  What lines have left in the symbol table and in the
library of macros stays there, also if a later line fails.
-/

namespace Pep10

/-- What reading lines of an instance changes. -/
structure Draft where
  table : SymbolTable
  library : MacroLibrary

/-- Enters a mark. -/
def Draft.enter (d : Draft) (mark : Mark) : Draft :=
  match mark with
  | .declare name => { d with table := d.table.declare name }
  | .mention name => { d with table := d.table.mention name }
  | .assign name value => { d with table := d.table.assign name (.numeric value) }
  | .publish name => { d with table := d.table.publish name }
  | .offer call name => { d with library := (d.library.registerCall? call name).getD d.library }

/-- The `.BURN` directives among some lines: how many there are, and what the last one asks for. -/
def Burn.ofLines (lines : List Line) : Burn :=
  lines.foldl
    (fun burn line =>
      match line.statement with
      | .directive .burn operand =>
        { burn with count := burn.count + 1, argument := operand.constant }
      | _ => burn)
    {}

namespace Program

/-- The instance of the named macro with the given arguments. -/
def instanceNamed? (p : Program) (name : String) (args : List String) : Option Nat :=
  match p.moduleNamed? name with
  | none => none
  | some m => p.instance? m args

/-- What reading a line of the program may consult. -/
def readContext (p : Program) (lib : MacroLibrary) : ReadContext :=
  ⟨p.isSystem, lib, p.instanceNamed?⟩

/-- Reads source lines from the given line number on, up to the one that ends the module.  A
failure tells the line and the error. -/
def readLines (p : Program) :
    Nat → List String → Draft → Draft × Except (Nat × LineError) (List Line)
  | number, [], draft => (draft, .error (number, .missingEnd))
  | number, text :: rest, draft =>
    let reading := Reader.line (p.readContext draft.library) number (tokenize text)
    let draft := reading.marks.foldl Draft.enter draft
    match reading.outcome with
    | .error e => (draft, .error (number, e))
    | .ok line =>
      if line.statement == .endMark then (draft, .ok [line])
      else
        match p.readLines (number + 1) rest draft with
        | (draft, .error e) => (draft, .error e)
        | (draft, .ok lines) => (draft, .ok (line :: lines))

/-- The state of an assembly: the program, the library, the instances called so far on this level,
and the report that ended the assembly. -/
structure Progress where
  program : Program
  library : MacroLibrary
  called : List Nat := []
  failure : Option Report := none

/-- Assembles an instance that has not been assembled. -/
def Progress.assembleInstance (s : Progress) (id : Nat) : Progress :=
  let p := s.program
  let table := (p.inst id).table
  let (draft, result) := p.readLines 0 (p.sourceOf id) ⟨p.symbols.table table, s.library⟩
  let p := p.modifyTable table fun _ => draft.table
  match result with
  | .ok lines =>
    { s with
      program := p.modifyInstance id fun i =>
        { i with lines, burn := Burn.ofLines lines, assembled := true }
      library := draft.library
      called := s.called ++ lines.filterMap fun line => line.statement.target? }
  | .error (line, e) =>
    let d := Diagnostic.ofLine e
    let p := p.addDiagnostic id line d
    { s with program := p, library := draft.library, failure := some ⟨p.rootLineOf id line, d⟩ }

/-- Assembles an instance unless that has been done, or the assembly has failed. -/
def Progress.visit (s : Progress) (id : Nat) : Progress :=
  if s.failure.isSome || (s.program.inst id).assembled then s else s.assembleInstance id

/-- Assembles the given instances, then those that they call, and so on for `n` levels. -/
def Progress.run : Nat → List Nat → Progress → Progress
  | 0, _, s => s
  | n + 1, ids, s =>
    let s := ids.foldl visit { s with called := [] }
    if s.called.isEmpty then s else run n s.called s

/-- Assembles all instances that can be reached from the root.  Every level but the last assembles
an instance, so that there need be no more levels than instances, and one.  There is no report on
success. -/
def assemble (p : Program) (lib : MacroLibrary) : Program × MacroLibrary × List Report :=
  let s := Progress.run (p.instances.size + 1) [root] { program := p, library := lib }
  (s.program, s.library, s.failure.toList)

end Program

end Pep10
