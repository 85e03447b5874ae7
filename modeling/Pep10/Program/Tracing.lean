import Pep10.Program.Expansion
import Pep10.Trace.Declaration

/-!
# Tracing

Once a program uses trace tags, every line of its expansion is given the commands by which a
debugger follows the globals, the stack and the heap.  Lines that move the stack pointer must then
carry tags, and the tags must account for the number of bytes moved.  Object code and addresses are
left alone.
-/

namespace Pep10

open Trace

/-- How tracing went. -/
inductive TraceStatus where
  | success
  | successWithWarnings
  | failure
  deriving DecidableEq, Repr

/-- What came of tracing. -/
structure TraceSummary where
  /-- Whether the program uses trace tags at all. -/
  tagged : Bool := false
  warnings : List Report := []
  errors : List Report := []
  deriving DecidableEq, Repr

/-- How tracing went, by the worst diagnostic. -/
def TraceSummary.status (a : TraceSummary) : TraceStatus :=
  if !a.errors.isEmpty then .failure
  else if !a.warnings.isEmpty then .successWithWarnings
  else .success

/-- A warning about trace tags. -/
def traceWarning (line : Nat) (e : TraceError) : Report :=
  ⟨line, ⟨.warning, .backEnd, .trace e⟩⟩

/-- An error about trace tags. -/
def traceFault (line : Nat) (e : TraceError) : Report :=
  ⟨line, ⟨.error, .backEnd, .trace e⟩⟩

/-- What one line contributes: the commands on it and the diagnostics about it. -/
structure LineTrace where
  commands : List Command := []
  warnings : List Report := []
  errors : List Report := []

namespace Site

/-- The trace words in the comment of a line. -/
def tags (site : Site) : Tags := (site.line.comment.map Tags.ofComment).getD {}

/-- The name that data on the line gets. -/
def name (site : Site) : String := site.line.label.getD ""

/-- The type that the line declares, if it does. -/
def declaration? (site : Site) : Option Declaration :=
  if site.line.statement.isEquate && !site.tags.isEmpty then
    some ⟨site.rootLine, site.name, site.tags.tags⟩
  else none

/-- The types of the tags on a line, as far as they have one. -/
def types (declared : Types) (site : Site) : List DataType :=
  site.tags.tags.filterMap (Tag.type? declared site.name)

/-- The tags on a line that name no type. -/
def unresolved (declared : Types) (site : Site) : List String :=
  site.tags.tags.filterMap fun
    | .symbol name => if (declared.find? name).isSome then none else some name
    | _ => none

/-- The warnings about the tags of a line. -/
def tagWarnings (declared : Types) (site : Site) : List Report :=
  site.tags.malformed.map (fun tag => traceWarning site.rootLine (.malformedTag tag)) ++
    (site.unresolved declared).map fun name => traceWarning site.rootLine (.unresolved name)

/-- Whether all tags of a line are well formed and have a type. -/
def complete (declared : Types) (site : Site) : Bool :=
  (site.unresolved declared).isEmpty && site.tags.malformed.isEmpty

end Site

/-- What a trap does: it pushes the process control block, swaps to the trace of the system, and
opens a frame. -/
def trapCommands : List Command :=
  [.push .current .stack .processControlBlock, .swap, .setFrame .next]

/-- The commands on an instruction without operand. -/
def unaryCommands : Mnemonic → List Command
  | .ret => [.pop .current .stack .returnAddress, .setFrame .previous]
  | .sret => [.pop .current .stack .processControlBlock, .swap]
  | .movasp => [.swap]
  | .uscall => trapCommands
  | _ => []

/-- The commands on a call: the return address is pushed, and a call of `malloc` allocates the
tagged data on the heap. -/
def callTrace (declared : Types) (site : Site) (operand : Operand) : LineTrace :=
  let commands := [.push .next .stack .returnAddress, .setFrame .next]
  if operand.symbol? == some "malloc" then
    { commands := commands ++ (site.types declared).map (Command.push .none .heap)
      warnings := site.tagWarnings declared }
  else { commands }

/-- The frame that a change of the stack pointer is about. -/
def stackFrame (mnemonic : Mnemonic) (hint : Option FrameHint) : Frame :=
  match mnemonic, hint with
  | .subsp, some .params => .next
  | .subsp, some .locals => .current
  | _, _ => .deduced

/-- The commands on a change of the stack pointer by `allocated` bytes. -/
def stackTrace (declared : Types) (site : Site) (mnemonic : Mnemonic) (allocated : UInt16) :
    LineTrace :=
  if site.tags.isEmpty then
    { errors := [traceFault site.rootLine (.missingTags mnemonic.name)] }
  else
    let types := site.types declared
    let tagged := DataType.totalSize types
    let frame := stackFrame mnemonic site.tags.hint
    let command := if mnemonic == .subsp then Command.push else Command.pop
    { commands := types.map (command frame .stack)
      warnings := site.tagWarnings declared
      errors :=
        if site.complete declared && tagged != allocated then
          [traceFault site.rootLine (.sizeMismatch tagged allocated)]
        else [] }

/-- The commands on reserved or initialised data. -/
def dataTrace (declared : Types) (site : Site) : LineTrace :=
  if site.tags.isEmpty then {}
  else
    { commands := (site.types declared).map (Command.push .none .globals)
      warnings := site.tagWarnings declared }

namespace Program

/-- What a line of the expansion contributes. -/
def traceAt (p : Program) (declared : Types) (site : Site) : LineTrace :=
  match site.line.statement with
  | .directive .block _ | .directive .byte _ | .directive .word _ => dataTrace declared site
  | .unary mnemonic => { commands := unaryCommands mnemonic }
  | .nonunary .scall _ _ => { commands := trapCommands }
  | .nonunary .call _ operand => callTrace declared site operand
  | .nonunary .subsp _ operand =>
    stackTrace declared site .subsp (operand.value p.symbols (p.inst site.owner).table)
  | .nonunary .addsp _ operand =>
    stackTrace declared site .addsp (operand.value p.symbols (p.inst site.owner).table)
  | _ => {}

/-- Puts commands on a line. -/
def setTrace (p : Program) (site : Site) (commands : List Command) : Program :=
  p.modifyInstance site.owner fun i =>
    { i with lines := i.lines.modify site.index fun line => { line with trace := commands } }

/-- Annotates a program that uses trace tags. -/
def annotate (p : Program) : Program × TraceSummary :=
  let sites := p.sites root
  if sites.all fun site => site.tags.isEmpty then (p, {})
  else
    let (declared, left) := Declaration.resolveAll (sites.filterMap Site.declaration?)
    let traces := sites.map fun site => (site, p.traceAt declared site)
    let unresolved := left.flatMap fun d =>
      (d.missing declared).map fun name => traceWarning d.line (.unresolved name)
    (traces.foldl (fun p (site, trace) => p.setTrace site trace.commands) p,
      { tagged := true
        warnings := unresolved ++ traces.flatMap fun (_, trace) => trace.warnings
        errors := traces.flatMap fun (_, trace) => trace.errors })

end Program

end Pep10
