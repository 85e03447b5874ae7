import Pep10.Macro.Call
import Pep10.Macro.Library
import Pep10.Program.Attribution

/-!
# The modules that a program includes

Starting with the root, the lines of every module are searched for macro calls.  A called macro
becomes a module, and the call becomes an instance of it, unless they exist already; modules found
on the way are searched in turn.  There are no more modules to search than there are at the start
and macros in the library.  In the end no module may include itself, directly or not.
-/

namespace Pep10.Program

/-- Checks a call on a line of the module `m` and gives the macro that is called. -/
def checkCall (p : Program) (lib : MacroLibrary) (m : Nat) (call : MacroCall) :
    Except IncludeError Macro :=
  match lib.get? call.name with
  | none => .error .noSuchMacro
  | some found =>
    if found.arity != call.args.length then .error .wrongArity
    else if Text.sameName found.name (p.module m).name then .error .selfReference
    else
      match call.args.findSome? fun arg => Placeholder.first? arg.toList with
      | some placeholder => .error (.badArgument (String.ofList placeholder))
      | none => .ok found

/-- Enters a call on a line of the module `m`. -/
def enterCall (p : Program) (m line : Nat) (found : Macro) (args : List String) : Program :=
  let (p, child) := p.ensureModule found.name found.body
  let p := { p with includes := p.includes.addEdge m child }
  let (p, id) := p.ensureInstance child args
  p.modifyModule m fun owner => owner.setCall line id

/-- Searches one line of the module `m`. -/
def searchLine (p : Program) (lib : MacroLibrary) (m line : Nat) (text : String) :
    Except IncludeError Program :=
  match MacroCall.ofLine? text with
  | .error e => .error e
  | .ok none => .ok p
  | .ok (some call) =>
    match p.checkCall lib m call with
    | .error e => .error e
    | .ok found => .ok (p.enterCall m line found call.args)

/-- Searches lines of the module `m` from the given line number on. -/
def searchLines (lib : MacroLibrary) (m : Nat) :
    Nat → List String → Program → Program × Option (Nat × IncludeError)
  | _, [], p => (p, none)
  | line, text :: rest, p =>
    match p.searchLine lib m line text with
    | .error e => (p, some (line, e))
    | .ok p => searchLines lib m (line + 1) rest p

/-- Searches at most `n` modules from the module `m` on.  A failure tells the module, the line and
the error. -/
def searchModules (lib : MacroLibrary) :
    Nat → Nat → Program → Program × Option (Nat × Nat × IncludeError)
  | 0, _, p => (p, none)
  | n + 1, m, p =>
    if m < p.modules.size then
      match searchLines lib m 0 (p.module m).lines p with
      | (p, some failure) => (p, some (m, failure))
      | (p, none) => searchModules lib n (m + 1) p
    else (p, none)

/-- The first root line that calls a module from which a cycle of inclusion can be reached. -/
def circularLine (p : Program) : Nat :=
  (p.rootLineCalling? fun id => p.includes.prune.contains (p.inst id).moduleId).getD 0

/-- Logs an error on a line of the module `m` and reports it on a root line. -/
def failInclude (p : Program) (m line : Nat) (e : IncludeError) : Program × List Report :=
  let d := Diagnostic.ofInclude e
  let rootLine := if m == root then line else (p.rootLineFor? m).getD 0
  match p.instancesOf m with
  | [] => (p, [⟨rootLine, d⟩])
  | id :: _ => (p.addDiagnostic id line d, [⟨rootLine, d⟩])

/-- Finds the modules and the instances that a program needs.  There is no report on success. -/
def findIncludes (p : Program) (lib : MacroLibrary) : Program × List Report :=
  match searchModules lib (p.modules.size + lib.macros.length) 0 p with
  | (p, some (m, line, e)) => p.failInclude m line e
  | (p, none) =>
    if p.includes.prune.isEmpty then (p, [])
    else p.failInclude root p.circularLine .circular

end Pep10.Program
