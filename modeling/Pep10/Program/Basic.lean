import Pep10.Diagnostic.Log
import Pep10.Digraph.Basic
import Pep10.Line.Basic
import Pep10.Macro.Placeholder

/-!
# Programs

A program consists of modules and of instances of modules.  The root module is the source text that
is being assembled; every other module is the body of a macro.  An instance is a module together
with arguments for its placeholders, and it has lines and a symbol table of its own.  Modules,
instances and symbol tables are numbered in the order of their creation, the root having the
number zero.
-/

namespace Pep10

/-- What a module is. -/
inductive ModuleKind where
  | macroBody
  | operatingSystem
  | userProgram
  deriving DecidableEq, Repr, Inhabited

/-- A piece of source text. -/
structure Module where
  name : String
  kind : ModuleKind
  lines : List String
  /-- The instance that is called on a line, by line. -/
  calls : List (Nat × Nat) := []
  deriving DecidableEq, Repr, Inhabited

/-- What is known of the `.BURN` directives of an instance. -/
structure Burn where
  count : Nat := 0
  argument : UInt16 := 0
  address : UInt16 := 0
  startRom : UInt16 := 0
  deriving DecidableEq, Repr, Inhabited

/-- A module with arguments for its placeholders. -/
structure Instance where
  moduleId : Nat
  args : List String
  table : Nat
  lines : List Line := []
  burn : Burn := {}
  assembled : Bool := false
  linked : Bool := false
  deriving DecidableEq, Repr, Inhabited

/-- The modules and the instances that take part in an assembly run. -/
structure Program where
  modules : Array Module := #[]
  instances : Array Instance := #[]
  symbols : SymbolStore := {}
  /-- Which module calls which. -/
  includes : Digraph := {}
  log : Log := {}
  deriving DecidableEq, Repr, Inhabited

namespace Module

/-- The instance that is called on a line. -/
def callAt? (m : Module) (line : Nat) : Option Nat :=
  (m.calls.find? fun call => call.1 == line).map Prod.snd

/-- Records the instance that is called on a line. -/
def setCall (m : Module) (line target : Nat) : Module :=
  { m with calls := Ordered.set (fun a b => a.1 < b.1) (line, target) m.calls }

end Module

namespace Program

/-- The number of the root module and of its instance. -/
def root : Nat := 0

/-- The name of the root module, which no macro can have. -/
def rootName : String := "@@main@@"

/-! ### Access -/

/-- The module with the given number. -/
def module (p : Program) (m : Nat) : Module := p.modules.getD m default

/-- The instance with the given number. -/
def inst (p : Program) (id : Nat) : Instance := p.instances.getD id default

/-- Whether the program is an operating system. -/
def isSystem (p : Program) : Bool := (p.module root).kind == .operatingSystem

/-- The symbol table of the root. -/
def rootTable (p : Program) : Nat := (p.inst root).table

/-- The module with the given name, in either case. -/
def moduleNamed? (p : Program) (name : String) : Option Nat :=
  p.modules.findIdx? fun m => Text.sameName m.name name

/-- The instances of a module, in the order of their creation. -/
def instancesOf (p : Program) (m : Nat) : List Nat :=
  (List.range p.instances.size).filter fun id => (p.inst id).moduleId == m

/-- The first instance of a module whose arguments agree with the given ones up to case. -/
def instance? (p : Program) (m : Nat) (args : List String) : Option Nat :=
  (p.instancesOf m).find? fun id => Text.sameNames (p.inst id).args args

/-- The source lines of an instance, with its arguments in place of the placeholders. -/
def sourceOf (p : Program) (id : Nat) : List String :=
  (p.module (p.inst id).moduleId).lines.map (Placeholder.substitute (p.inst id).args)

/-! ### Change -/

/-- Changes an instance. -/
def modifyInstance (p : Program) (id : Nat) (f : Instance → Instance) : Program :=
  { p with instances := p.instances.modify id f }

/-- Changes a module. -/
def modifyModule (p : Program) (m : Nat) (f : Module → Module) : Program :=
  { p with modules := p.modules.modify m f }

/-- Changes a symbol table. -/
def modifyTable (p : Program) (table : Nat) (f : SymbolTable → SymbolTable) : Program :=
  { p with symbols := p.symbols.modify table f }

/-- Adds a diagnostic on a line of an instance. -/
def addDiagnostic (p : Program) (id line : Nat) (d : Diagnostic) : Program :=
  { p with log := p.log.add id line d }

/-- Adds a module, whose number is the number of modules before. -/
def addModule (p : Program) (name : String) (kind : ModuleKind) (text : String) : Program :=
  { p with
    modules := p.modules.push { name, kind, lines := Text.lines text }
    includes := p.includes.addVertex p.modules.size }

/-- Adds an instance, whose number is the number of instances before, with an empty symbol
table. -/
def addInstance (p : Program) (m : Nat) (args : List String) : Program :=
  { p with
    instances := p.instances.push { moduleId := m, args, table := p.symbols.size }
    symbols := p.symbols.push {} }

/-- Adds a copy of an instance, whose number is the number of instances before, with a copy of
its symbol table. -/
def copyInstance (p : Program) (id : Nat) : Program :=
  { p with
    instances := p.instances.push { p.inst id with table := p.symbols.size }
    symbols := p.symbols.push (p.symbols.table (p.inst id).table) }

/-- The number of the module with the given name, which is added as a macro body if need be. -/
def ensureModule (p : Program) (name body : String) : Program × Nat :=
  match p.moduleNamed? name with
  | some m => (p, m)
  | none => (p.addModule name .macroBody body, p.modules.size)

/-- The number of the instance with the given arguments, which is added if need be. -/
def ensureInstance (p : Program) (m : Nat) (args : List String) : Program × Nat :=
  match p.instance? m args with
  | some id => (p, id)
  | none => (p.addInstance m args, p.instances.size)

/-- The program that consists of a root module alone. -/
def ofSource (text : String) (kind : ModuleKind) : Program :=
  (({} : Program).addModule rootName kind text).addInstance root []

end Program

end Pep10
