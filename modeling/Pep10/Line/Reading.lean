import Pep10.Diagnostic.Cause
import Pep10.Macro.Library

/-!
# Readings

Reading a line leaves marks: names it declares or mentions, values it assigns, system calls it
offers.  Marks that were left before an error remain, so a reading is a list of marks together with
an outcome.  Readings are combined in sequence, and the first error ends the sequence.
-/

namespace Pep10

/-- What a line leaves behind for the module that it belongs to. -/
inductive Mark where
  /-- The symbol is declared here. -/
  | declare (name : String)
  /-- The symbol is used here. -/
  | mention (name : String)
  /-- The symbol is given a constant value. -/
  | assign (name : String) (value : UInt16)
  /-- The symbol is exported. -/
  | publish (name : String)
  /-- The symbol is offered as a system call. -/
  | offer (call : SystemCall) (name : String)
  deriving DecidableEq, Repr

/-- The marks that reading has left, and what came of it. -/
structure Reading (α : Type) where
  marks : List Mark
  outcome : Except LineError α

namespace Reading

variable {α β : Type}

/-- A reading that succeeds without a mark. -/
def done (a : α) : Reading α := ⟨[], .ok a⟩

/-- A reading that fails. -/
def fail (e : LineError) : Reading α := ⟨[], .error e⟩

/-- A reading that leaves one mark. -/
def leave (m : Mark) : Reading Unit := ⟨[m], .ok ()⟩

/-- One reading after another. -/
def andThen (r : Reading α) (f : α → Reading β) : Reading β :=
  match r.outcome with
  | .error e => ⟨r.marks, .error e⟩
  | .ok a => ⟨r.marks ++ (f a).marks, (f a).outcome⟩

instance : Monad Reading where
  pure := done
  bind := andThen

/-- A computation that leaves no marks. -/
def ofExcept (x : Except LineError α) : Reading α := ⟨[], x⟩

end Reading

end Pep10
