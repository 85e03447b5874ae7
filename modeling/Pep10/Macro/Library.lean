import Pep10.Macro.Basic
import Pep10.Ordered

/-!
# The library of macros

A library holds macros whose names differ in more than ASCII case.  It refuses a macro whose name
is taken, or whose header is malformed or gives another name.
-/

namespace Pep10

/-- The macros that programs may call, in the order in which they were registered. -/
structure MacroLibrary where
  macros : List Macro := []
  deriving DecidableEq, Repr, Inhabited

namespace MacroLibrary

/-- The macro with the given name, in either case. -/
def get? (lib : MacroLibrary) (name : String) : Option Macro :=
  lib.macros.find? fun m => Text.sameName m.name name

/-- Whether a macro of the given name exists. -/
def contains (lib : MacroLibrary) (name : String) : Bool := (lib.get? name).isSome

/-- The library with one more macro, unless the macro is refused. -/
def register? (lib : MacroLibrary) (kind : MacroKind) (name text : String) :
    Option MacroLibrary :=
  if lib.contains name then none
  else
    match Macro.header? text with
    | none => none
    | some (declared, arity) =>
      if Text.sameName declared name then some ⟨lib.macros ++ [⟨name, arity, kind, text⟩]⟩
      else none

/-- The library with the macro of one more system call, unless the macro is refused. -/
def registerCall? (lib : MacroLibrary) (call : SystemCall) (name : String) :
    Option MacroLibrary :=
  lib.register? .system name (call.text name)

/-- The macros of one kind, by name. -/
def ofKind (lib : MacroLibrary) (kind : MacroKind) : List Macro :=
  Ordered.sort (fun a b => a.name < b.name) (lib.macros.filter fun m => m.kind == kind)

/-- The library without its system calls. -/
def clearCalls (lib : MacroLibrary) : MacroLibrary :=
  ⟨lib.macros.filter fun m => m.kind != .system⟩

end MacroLibrary

end Pep10
