import Pep10.Console

/-!
# The program on the command line

Reads the source text from standard input and prints what the command gives for it.
-/

namespace Pep10

/-- Reads what is left on a stream. -/
partial def readAll (stream : IO.FS.Stream) (text : String) : IO String := do
  let line ← stream.getLine
  if line.isEmpty then return text else readAll stream (text ++ line)

end Pep10

/-- Assembles standard input. -/
def main : IO UInt32 := do
  let source ← Pep10.readAll (← IO.getStdin) ""
  let (text, success) := Pep10.command source
  IO.print text
  return if success then 0 else 1
