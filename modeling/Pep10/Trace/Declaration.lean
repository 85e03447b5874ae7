import Pep10.Trace.Tag

/-!
# Declared types

A tagged `.EQUATE` line declares a type under its label.  Declarations may refer to one another in
any order.  They are entered in rounds: a round goes through the declarations that are left and
enters those whose tags all have a type.  Every round that changes anything enters one, so that
there need be no more rounds than declarations.
-/

namespace Pep10.Trace

/-- The declaration of a type. -/
structure Declaration where
  /-- The root line that the declaration comes from. -/
  line : Nat
  name : String
  tags : List Tag
  deriving DecidableEq, Repr

/-- The types declared so far, the latest first. -/
abbrev Types := List (String × DataType)

/-- The type with the given name. -/
def Types.find? (types : Types) (name : String) : Option DataType := types.lookup name

/-- The type that a tag stands for.  Data of a format is named as given, a declared type keeps its
own name. -/
def Tag.type? (types : Types) (name : String) : Tag → Option DataType
  | primitive format => some (.primitive name format)
  | array format length => some (.array name format length)
  | symbol declared => types.find? declared

namespace Declaration

/-- The type made of the types of the tags: a single format is renamed, all else is a struct. -/
def typeOf (name : String) (tags : List Tag) (fields : List DataType) : DataType :=
  match tags, fields with
  | [.primitive _], [field] => field.renamed name
  | [.array ..], [field] => field.renamed name
  | _, _ => .struct name fields

/-- The type that a declaration declares, if all its tags have a type. -/
def type? (types : Types) (d : Declaration) : Option DataType :=
  (d.tags.mapM (Tag.type? types "")).map (typeOf d.name d.tags)

/-- Goes through declarations once; gives the types and the declarations that are left. -/
def round : Types → List Declaration → Types × List Declaration
  | types, [] => (types, [])
  | types, d :: rest =>
    match d.type? types with
    | some t => round ((d.name, t) :: types) rest
    | none =>
      let (types, left) := round types rest
      (types, d :: left)

/-- Goes through declarations `n` times. -/
def rounds : Nat → Types → List Declaration → Types × List Declaration
  | 0, types, left => (types, left)
  | n + 1, types, left =>
    let (types, left) := round types left
    rounds n types left

/-- Enters all declarations that can be entered; gives the types and the declarations that are
left. -/
def resolveAll (declarations : List Declaration) : Types × List Declaration :=
  rounds declarations.length [] declarations

/-- The names in the tags of a declaration that have no type. -/
def missing (types : Types) (d : Declaration) : List String :=
  d.tags.filterMap fun
    | .symbol name => if (types.find? name).isSome then none else some name
    | _ => none

end Declaration

end Pep10.Trace
