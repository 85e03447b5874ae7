import Pep10.Symbol.Table

/-!
# The symbol tables of a program

Every instance of a module has a symbol table of its own.  A symbol can stand for a symbol of
another table, and its value is found by following such references.  As many steps are followed as
there are tables, and one more; a chain that goes on beyond that has no value.
-/

namespace Pep10

/-- All symbol tables of a program, by number. -/
structure SymbolStore where
  tables : Array SymbolTable := #[]
  deriving DecidableEq, Repr, Inhabited

namespace SymbolStore

/-- The number of tables, which is also the number that the next table will have. -/
def size (s : SymbolStore) : Nat := s.tables.size

/-- The table with the given number. -/
def table (s : SymbolStore) (i : Nat) : SymbolTable := s.tables.getD i {}

/-- Adds a table. -/
def push (s : SymbolStore) (t : SymbolTable) : SymbolStore := ⟨s.tables.push t⟩

/-- Changes a table. -/
def modify (s : SymbolStore) (i : Nat) (f : SymbolTable → SymbolTable) : SymbolStore :=
  ⟨s.tables.modify i f⟩

/-- The symbol at the given place. -/
def symbol? (s : SymbolStore) (ref : SymbolRef) : Option Symbol :=
  (s.table ref.table).symbols[ref.symbol]?

/-- Changes the symbol at the given place. -/
def modifyAt (s : SymbolStore) (ref : SymbolRef) (f : Symbol → Symbol) : SymbolStore :=
  s.modify ref.table fun t => ⟨t.symbols.modify ref.symbol f⟩

/-- The value found from a place by following at most `n` symbols. -/
def follow (s : SymbolStore) : Nat → SymbolRef → Option UInt16
  | 0, _ => none
  | n + 1, ref =>
    match (s.symbol? ref).map Symbol.value with
    | none | some .empty => none
    | some (.numeric value) => some value
    | some (.location base offset) => some (base + offset)
    | some (.external next) => s.follow n next

/-- The value of the symbol at a place, if it has one. -/
def valueAt? (s : SymbolStore) (ref : SymbolRef) : Option UInt16 := s.follow (s.size + 1) ref

/-- The value of the symbol with the given name in a table, if it has one. -/
def value? (s : SymbolStore) (table : Nat) (name : String) : Option UInt16 :=
  match (s.table table).indexOf? name with
  | some symbol => s.valueAt? ⟨table, symbol⟩
  | none => none

end SymbolStore

end Pep10
