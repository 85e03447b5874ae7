/-!
# Symbol tables

A symbol table keeps one symbol for each name, in the order in which the names were first met.
The position of a symbol in its table never changes and serves as its number.
-/

namespace Pep10

/-- The place of a symbol: the number of a table and the number of the symbol in it. -/
structure SymbolRef where
  table : Nat
  symbol : Nat
  deriving DecidableEq, Repr

/-- What is known of the value of a symbol. -/
inductive SymbolValue where
  | empty
  | numeric (value : UInt16)
  /-- An address, as a base and a distance from it. -/
  | location (base offset : UInt16)
  /-- The value of another symbol. -/
  | external (ref : SymbolRef)
  deriving DecidableEq, Repr, Inhabited

/-- A symbol of a module. -/
structure Symbol where
  name : String
  value : SymbolValue := .empty
  /-- Whether the module declares the symbol. -/
  defined : Bool := false
  /-- Whether the module declares the symbol more than once. -/
  multiplyDefined : Bool := false
  exported : Bool := false
  deriving DecidableEq, Repr

/-- The symbol after a declaration; a second one is remembered as such. -/
def Symbol.declared (s : Symbol) : Symbol :=
  { s with defined := true, multiplyDefined := s.multiplyDefined || s.defined }

/-- The symbols of a module. -/
structure SymbolTable where
  symbols : List Symbol := []
  deriving DecidableEq, Repr, Inhabited

namespace SymbolTable

/-- The number of the symbol with the given name. -/
def indexOf? (t : SymbolTable) (name : String) : Option Nat :=
  t.symbols.findIdx? fun s => s.name == name

/-- The symbol with the given name. -/
def find? (t : SymbolTable) (name : String) : Option Symbol :=
  t.symbols.find? fun s => s.name == name

/-- The number of symbols. -/
def size (t : SymbolTable) : Nat := t.symbols.length

/-- Makes sure that there is a symbol of the given name. -/
def mention (t : SymbolTable) (name : String) : SymbolTable :=
  match t.find? name with
  | some _ => t
  | none => ⟨t.symbols ++ [{ name }]⟩

/-- Changes the symbol with the given name. -/
def update (t : SymbolTable) (name : String) (f : Symbol → Symbol) : SymbolTable :=
  ⟨t.symbols.map fun s => if s.name == name then f s else s⟩

/-- Declares the symbol with the given name. -/
def declare (t : SymbolTable) (name : String) : SymbolTable :=
  (t.mention name).update name Symbol.declared

/-- Gives a value to the symbol with the given name. -/
def assign (t : SymbolTable) (name : String) (value : SymbolValue) : SymbolTable :=
  t.update name fun s => { s with value }

/-- Exports the symbol with the given name. -/
def publish (t : SymbolTable) (name : String) : SymbolTable :=
  t.update name fun s => { s with exported := true }

end SymbolTable

end Pep10
