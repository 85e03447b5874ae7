import Pep10.Line.Placement
import Pep10.Program.Basic

/-!
# Linking

The lines of a program are given addresses in the order of its expansion, from zero on.  Every call
gets a copy of the instance that it is bound to, so that labels inside the expansions of a macro do
not clash.  A symbol is looked up in the module that uses it, then in the root, then among the
symbols that an operating system exports.

A line with an error takes no room, and linking goes on behind it, so that all errors of a module
are found at once; of the errors in an expansion, the first one is repeated on the line of the call.
-/

namespace Pep10

/-- A symbol that an operating system makes known to user programs. -/
structure ExportedSymbol where
  name : String
  value : UInt16
  deriving DecidableEq, Repr

/-- An error and the number of the line that it is on. -/
abbrev Fault := Nat × LinkError

/-- Where linking stands. -/
structure Linker where
  program : Program
  /-- The number of bytes placed so far. -/
  next : Nat := 0
  /-- Whether the lack of memory has been reported. -/
  overflowed : Bool := false
  /-- The table of imported symbols. -/
  imports : Option Nat := none

namespace Linker

/-- The address that comes next, modulo the size of memory. -/
def address (l : Linker) : UInt16 := UInt16.ofNat l.next

/-- Changes a symbol table. -/
def modifyTable (l : Linker) (table : Nat) (f : SymbolTable → SymbolTable) : Linker :=
  { l with program := l.program.modifyTable table f }

/-! ### Imports -/

/-- The table that holds the exports of an operating system. -/
def importTable (exports : List ExportedSymbol) : SymbolTable :=
  exports.foldl (fun t e => (t.declare e.name).assign e.name (.numeric e.value)) {}

/-- The symbols of a table, those with an imported name standing for the import. -/
def importInto (imports : Nat) (imported : SymbolTable) (t : SymbolTable) : SymbolTable :=
  ⟨t.symbols.map fun s =>
    match imported.indexOf? s.name with
    | some i => { s.declared with value := .external ⟨imports, i⟩ }
    | none => s⟩

/-- The start of linking.  Only user programs import symbols. -/
def start (p : Program) (exports : Option (List ExportedSymbol)) : Linker :=
  match exports with
  | none => { program := p }
  | some exports =>
    if p.isSystem then { program := p }
    else
      let imports := p.symbols.size
      let imported := importTable exports
      let p := { p with symbols := p.symbols.push imported }
      { program := p.modifyTable p.rootTable (importInto imports imported),
        imports := some imports }

/-! ### Symbols -/

/-- Declares the label of a line at the address of the line.  The label of an `.EQUATE` has a
value already. -/
def bindLabel (l : Linker) (table : Nat) (line : Line) : Except LinkError Linker :=
  match line.label with
  | none => .ok l
  | some name =>
    match (l.program.symbols.table table).find? name with
    | none => .ok l
    | some s =>
      if s.multiplyDefined then
        match s.value with
        | .external _ => .error (.redefinedExport name)
        | _ => .error (.multiplyDefined name)
      else if line.statement.isEquate then .ok l
      else .ok (l.modifyTable table fun t => t.assign name (.location l.address 0))

/-- Whether a table declares a name. -/
def declares (l : Linker) (table : Nat) (name : String) : Bool :=
  ((l.program.symbols.table table).find? name).any Symbol.defined

/-- The imported symbol of the given name. -/
def import? (l : Linker) (name : String) : Option SymbolRef :=
  match l.imports with
  | none => none
  | some table => ((l.program.symbols.table table).indexOf? name).map (SymbolRef.mk table)

/-- Makes the root declare a name, if there is an import of that name. -/
def importToRoot (l : Linker) (name : String) : Option Linker :=
  match l.import? name with
  | none => none
  | some ref =>
    some <| l.modifyTable l.program.rootTable fun t =>
      (t.mention name).update name fun s => { s with defined := true, value := .external ref }

/-- Lets a symbol of the table stand for the symbol of the same name in the root. -/
def referToRoot (l : Linker) (table : Nat) (name : String) : Linker :=
  match (l.program.symbols.table l.program.rootTable).indexOf? name with
  | none => l
  | some i =>
    l.modifyTable table fun t => t.assign name (.external ⟨l.program.rootTable, i⟩)

/-- Finds the declaration of a symbol that is used in the instance `id`. -/
def resolve (l : Linker) (id table : Nat) (name : String) : Option Linker :=
  if l.declares table name then some l
  else if id == Program.root then none
  else if l.declares l.program.rootTable name then some (l.referToRoot table name)
  else (l.importToRoot name).map fun l => l.referToRoot table name

/-- Finds the declaration of the symbol that is a line's operand. -/
def bindOperand (l : Linker) (id table : Nat) (line : Line) : Except LinkError Linker :=
  match line.statement.operand?.bind Operand.symbol? with
  | none => .ok l
  | some name =>
    match l.resolve id table name with
    | none => .error (.undefined name)
    | some l => .ok l

/-! ### Lines -/

/-- Passes over a line that takes the given number of bytes.  The lack of memory is reported
once. -/
def advance (l : Linker) (size : Nat) : Linker × Option LinkError :=
  if l.next + size > 0xFFFF && !l.overflowed then
    ({ l with next := l.next + size, overflowed := true }, some .exceededMemory)
  else ({ l with next := l.next + size }, none)

/-- Copies the instance that is called on a line of the instance `id`. -/
def copyFor (l : Linker) (id number target : Nat) : Linker :=
  let copy := l.program.instances.size
  let p := l.program.copyInstance target
  { l with program := p.modifyModule (p.inst id).moduleId fun m => m.setCall number copy }

/-- Logs the errors in the expansion of a call. -/
def logAll (l : Linker) (id : Nat) (faults : List Fault) : Linker :=
  { l with
    program := faults.foldl (fun p (number, e) => p.addDiagnostic id number (.ofLink e))
      l.program }

/-- Links the call of an instance: a copy of it is linked by `linkChild`, and the line is bound to
the copy. -/
def linkCall (linkChild : Linker → Nat → Linker × List Fault) (id : Nat) (l : Linker)
    (line : Line) (name : String) (args : List String) (target : Nat) :
    Linker × Line × List Fault :=
  let copy := l.program.instances.size
  let (l, faults) := linkChild (l.copyFor id line.number target) copy
  (l.logAll copy faults, { line with statement := .call name args copy },
    (faults.take 1).map fun fault => (line.number, fault.2))

/-- Links a line of the instance `id`. -/
def linkLine (linkChild : Linker → Nat → Linker × List Fault) (id table : Nat) (l : Linker)
    (line : Line) : Linker × Line × List Fault :=
  let line := line.startingAt l.address.toNat
  match l.bindLabel table line with
  | .error e => (l, line, [(line.number, e)])
  | .ok l =>
    match l.bindOperand id table line with
    | .error e => (l, line, [(line.number, e)])
    | .ok l =>
      match line.statement with
      | .call name args target => linkCall linkChild id l line name args target
      | _ =>
        let (l, e) := l.advance (line.size l.program.symbols table).toNat
        (l, line, e.toList.map fun e => (line.number, e))

/-- Links lines of the instance `id` in turn. -/
def linkLines (linkChild : Linker → Nat → Linker × List Fault) (id table : Nat) :
    Linker → List Line → Linker × List Line × List Fault
  | l, [] => (l, [], [])
  | l, line :: rest =>
    let (l, line, faults) := linkLine linkChild id table l line
    let (l, lines, more) := linkLines linkChild id table l rest
    (l, line :: lines, faults ++ more)

/-- The address of the last `.BURN` among some lines, or the given one if there is none. -/
def burnAddress (lines : List Line) (otherwise : UInt16) : UInt16 :=
  lines.foldl
    (fun address line => if line.statement.isBurn then line.address.getD address else address)
    otherwise

/-- The instance with its linked lines. -/
def withLines (lines : List Line) (i : Instance) : Instance :=
  { i with
    lines
    burn := { i.burn with address := burnAddress lines i.burn.address }
    linked := true }

/-- Links an instance and what it calls, down to the given depth. -/
def linkInstance : Nat → Linker → Nat → Linker × List Fault
  | 0, l, _ => (l, [])
  | depth + 1, l, id =>
    let i := l.program.inst id
    let (l, lines, faults) := linkLines (linkInstance depth) id i.table l i.lines
    ({ l with program := l.program.modifyInstance id (withLines lines) }, faults)

end Linker

end Pep10
