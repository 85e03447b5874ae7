import Pep10.Trace.Type

/-!
# Trace commands

What a debugger does when it passes a line: it pushes or pops data on the globals, the stack or
the heap, moves between stack frames, or swaps one trace for another.
-/

namespace Pep10.Trace

/-- What a command does. -/
inductive Action where
  | push
  | pop
  | setFrame
  | swap
  deriving DecidableEq, Repr

/-- The stack frame that a command is about. -/
inductive Frame where
  | next
  | current
  | previous
  | deduced
  | none
  deriving DecidableEq, Repr

/-- The region that a command is about. -/
inductive Region where
  | globals
  | stack
  | heap
  | swap
  deriving DecidableEq, Repr

/-- A step of a debugger. -/
structure Command where
  action : Action
  frame : Frame
  region : Region
  data : Option DataType
  deriving DecidableEq, Repr

namespace Command

/-- Pushes data. -/
def push (frame : Frame) (region : Region) (data : DataType) : Command :=
  ⟨.push, frame, region, some data⟩

/-- Pops data. -/
def pop (frame : Frame) (region : Region) (data : DataType) : Command :=
  ⟨.pop, frame, region, some data⟩

/-- Moves to another stack frame. -/
def setFrame (frame : Frame) : Command := ⟨.setFrame, frame, .stack, none⟩

/-- Swaps one trace for another. -/
def swap : Command := ⟨.swap, .none, .swap, none⟩

end Command

end Pep10.Trace
