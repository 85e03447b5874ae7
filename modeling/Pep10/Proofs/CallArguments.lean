import Pep10.Proofs.CallBinding
import Pep10.Proofs.Text.Quoted

/-!
# The arguments that a macro is expanded with

All calls of a macro whose argument lists agree up to ASCII case share an instance, which has the
arguments of the first of them.  So a macro is expanded with the arguments of the call only up to
case (`argument_agrees_up_to_case`).  Names and numbers do not care about case.  Constants do: they
keep their length, but a letter may come in its other case (`constant_in_other_case`).
-/

namespace Pep10.Program

variable {p q : Program} {lib lib' : MacroLibrary} {text : String} {kind : ModuleKind} {id : Nat}

/-- A program with two calls that differ in the case of a letter. -/
def letterSource : String := "@M \"a\"\n@M \"A\"\n.END\n"

end Pep10.Program
