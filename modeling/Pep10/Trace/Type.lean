/-!
# Types of traced data

A debugger that follows the stack and the heap of a program needs to know the shape of what is
pushed there.  Shapes are built from five primitive formats; sizes are counted in sixteen bits.
-/

namespace Pep10.Trace

/-- How a primitive value is shown; the digit is its width in bytes. -/
inductive Format where
  | char1
  | decimal1
  | decimal2
  | hex1
  | hex2
  deriving DecidableEq, Repr

namespace Format

/-- All formats. -/
def all : List Format := [char1, decimal1, decimal2, hex1, hex2]

/-- The name of a format in trace tags. -/
def name : Format → String
  | char1 => "1c"
  | decimal1 => "1d"
  | decimal2 => "2d"
  | hex1 => "1h"
  | hex2 => "2h"

/-- The format with the given name, in either case. -/
def ofName? (name : List Char) : Option Format :=
  all.find? fun format => format.name.toList == name.map Char.toLower

/-- The width of a format in bytes. -/
def size : Format → UInt16
  | char1 | decimal1 | hex1 => 1
  | decimal2 | hex2 => 2

end Format

/-- The shape of traced data. -/
inductive DataType where
  | primitive (name : String) (format : Format)
  | array (name : String) (format : Format) (length : UInt16)
  | struct (name : String) (fields : List DataType)
  deriving Repr, Inhabited

/-- The product of two words, or the largest word if the product is no word. -/
def saturatingMul (a b : UInt16) : UInt16 := UInt16.ofNat (min (a.toNat * b.toNat) 0xFFFF)

namespace DataType

/-- The name of a piece of traced data. -/
def name : DataType → String
  | primitive name _ => name
  | array name _ _ => name
  | struct name _ => name

mutual

/-- The number of bytes that traced data takes. -/
def size : DataType → UInt16
  | primitive _ format => format.size
  | array _ format length => saturatingMul format.size length
  | struct _ fields => totalSize fields

/-- The number of bytes that several pieces of traced data take together. -/
def totalSize : List DataType → UInt16
  | [] => 0
  | t :: ts => t.size + totalSize ts

end

/-- The same shape under another name. -/
def renamed (newName : String) : DataType → DataType
  | primitive _ format => primitive newName format
  | array _ format length => array newName format length
  | struct _ fields => struct newName fields

/-- The return address that a call pushes. -/
def returnAddress : DataType := primitive "retAddr" .hex2

/-- The process control block that a trap pushes. -/
def processControlBlock : DataType :=
  struct "pcb"
    [primitive "NZVC" .hex1, primitive "A" .hex2, primitive "X" .hex2, primitive "PC" .hex2,
     primitive "SP" .hex2, primitive "IS" .hex1, primitive "OS" .hex2]

mutual

/-- Equality of shapes can be decided. -/
def decEq : (a b : DataType) → Decidable (a = b)
  | primitive n f, primitive m g =>
    if h : n = m ∧ f = g then isTrue (by rw [h.1, h.2])
    else isFalse fun e => h (by cases e; exact ⟨rfl, rfl⟩)
  | array n f k, array m g l =>
    if h : n = m ∧ f = g ∧ k = l then isTrue (by rw [h.1, h.2.1, h.2.2])
    else isFalse fun e => h (by cases e; exact ⟨rfl, rfl, rfl⟩)
  | struct n fs, struct m gs =>
    if h : n = m then
      match decEqFields fs gs with
      | isTrue e => isTrue (by rw [h, e])
      | isFalse e => isFalse fun e' => e (by cases e'; rfl)
    else isFalse fun e => h (by cases e; rfl)
  | primitive .., array .. => isFalse nofun
  | primitive .., struct .. => isFalse nofun
  | array .., primitive .. => isFalse nofun
  | array .., struct .. => isFalse nofun
  | struct .., primitive .. => isFalse nofun
  | struct .., array .. => isFalse nofun

/-- Equality of lists of shapes can be decided. -/
def decEqFields : (as bs : List DataType) → Decidable (as = bs)
  | [], [] => isTrue rfl
  | a :: as, b :: bs =>
    match decEq a b, decEqFields as bs with
    | isTrue h, isTrue t => isTrue (by rw [h, t])
    | isFalse h, _ => isFalse fun e => h (by cases e; rfl)
    | _, isFalse t => isFalse fun e => t (by cases e; rfl)
  | [], _ :: _ => isFalse nofun
  | _ :: _, [] => isFalse nofun

end

instance : DecidableEq DataType := decEq

end DataType

end Pep10.Trace
