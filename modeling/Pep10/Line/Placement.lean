import Pep10.Line.Basic

/-!
# Lines at an address

An `.ALIGN` line fills up to the next multiple of its operand, so its size depends on where it
stands.
-/

namespace Pep10

/-- The distance from an address up to the next multiple of `n`. -/
def paddingUp (n : UInt16) (address : Int) : UInt16 := UInt16.ofInt (-address % n.toNat)

/-- The distance from an address down to the previous multiple of `n`. -/
def paddingDown (n : UInt16) (address : Int) : UInt16 := UInt16.ofInt (address % n.toNat)

/-- A statement that starts at an address. -/
def Statement.startingAt (address : Int) : Statement → Statement
  | align (.unsigned n) _ => align (.unsigned n) (paddingUp n address)
  | s => s

/-- Whether an address is one of the machine's memory. -/
def inMemory (address : Int) : Bool := 0 ≤ address && address ≤ 0xFFFF

/-- A line that starts at an address.  Where there is no memory, or no address is called for, the
line has none. -/
def Line.startingAt (address : Int) (line : Line) : Line :=
  { line with
    statement := line.statement.startingAt address
    address :=
      if line.statement.isAddressable && inMemory address then some (UInt16.ofInt address)
      else none }

end Pep10
