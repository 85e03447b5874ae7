import Pep10.Diagnostic.Cause

/-!
# Diagnostics

A diagnostic is a cause with its severity and the stage that found it.  A report places a
diagnostic on a line of the root module.
-/

namespace Pep10

/-- How bad a diagnostic is. -/
inductive Severity where
  | warning
  | error
  deriving DecidableEq, Repr

/-- The half of the assembler that found a diagnostic. -/
inductive Stage where
  | frontEnd
  | backEnd
  deriving DecidableEq, Repr

/-- A cause with its severity and the stage that found it. -/
structure Diagnostic where
  severity : Severity
  stage : Stage
  cause : Cause
  deriving DecidableEq, Repr

namespace Diagnostic

/-- How a diagnostic is shown: as a comment that tells its severity and its cause. -/
def text (d : Diagnostic) : String :=
  match d.severity with
  | .warning => ";WARNING: " ++ d.cause.message
  | .error => ";ERROR: " ++ d.cause.message

/-- An error in finding the included macros. -/
def ofInclude (e : IncludeError) : Diagnostic := ⟨.error, .frontEnd, .inclusion e⟩

/-- An error in reading a line. -/
def ofLine (e : LineError) : Diagnostic := ⟨.error, .frontEnd, .line e⟩

/-- An error in linking. -/
def ofLink (e : LinkError) : Diagnostic := ⟨.error, .backEnd, .link e⟩

end Diagnostic

/-- A diagnostic on a line of the root module. -/
structure Report where
  line : Nat
  diagnostic : Diagnostic
  deriving DecidableEq, Repr

end Pep10
