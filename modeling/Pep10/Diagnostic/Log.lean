import Pep10.Diagnostic.Basic
import Pep10.Ordered
import Pep10.Text.Split

/-!
# The log of an assembly run

The log keeps each diagnostic where it arose, by instance and line, and as a report on the root
line that it is attributed to.  Both lists are kept in order; diagnostics on one line stay in the
order in which they were found.
-/

namespace Pep10

/-- A diagnostic on a line of some instance of a module. -/
structure LogEntry where
  owner : Nat
  line : Nat
  diagnostic : Diagnostic
  deriving DecidableEq, Repr

/-- Entries are ordered by instance, then by line. -/
def LogEntry.before (a b : LogEntry) : Bool :=
  a.owner < b.owner || (a.owner == b.owner && a.line < b.line)

/-- Reports are ordered by line. -/
def Report.before (a b : Report) : Bool := a.line < b.line

/-- The diagnostics of an assembly run. -/
structure Log where
  entries : List LogEntry := []
  reports : List Report := []
  deriving DecidableEq, Repr, Inhabited

namespace Log

/-- Adds a diagnostic on a line of an instance. -/
def add (log : Log) (owner line : Nat) (d : Diagnostic) : Log :=
  { log with entries := Ordered.insert LogEntry.before ⟨owner, line, d⟩ log.entries }

/-- Adds a report on a root line. -/
def report (log : Log) (r : Report) : Log :=
  { log with reports := Ordered.insert Report.before r log.reports }

/-- Adds several reports in turn. -/
def reportAll (log : Log) (rs : List Report) : Log := rs.foldl report log

/-- Whether nothing was logged. -/
def isEmpty (log : Log) : Bool := log.entries.isEmpty && log.reports.isEmpty

/-- Whether some report is an error. -/
def hasErrors (log : Log) : Bool := log.reports.any fun r => r.diagnostic.severity == .error

/-- The lines of an instance that have diagnostics. -/
def linesOf (log : Log) (owner : Nat) : List Nat :=
  ((log.entries.filter fun e => e.owner == owner).map LogEntry.line).eraseDups

/-- The diagnostics on a line of an instance. -/
def diagnosticsAt (log : Log) (owner line : Nat) : List Diagnostic :=
  (log.entries.filter fun e => e.owner == owner && e.line == line).map LogEntry.diagnostic

/-- The number of root lines that have reports. -/
def reportedLines (log : Log) : Nat := (log.reports.map Report.line).eraseDups.length

/-- The texts of some reports, each ended by a line feed. -/
def reportText (reports : List Report) : String :=
  String.join (reports.map fun r => r.diagnostic.text ++ "\n")

/-- The root source with every report below the line that it belongs to.  Reports beyond the last
line are put at the end. -/
def annotate (log : Log) (source : String) : String :=
  let lines := Text.lines source
  let body := lines.zipIdx.map fun (line, i) =>
    line ++ "\n" ++ reportText (log.reports.filter fun r => r.line == i)
  String.join body ++ reportText (log.reports.filter fun r => lines.length ≤ r.line)

end Log

end Pep10
