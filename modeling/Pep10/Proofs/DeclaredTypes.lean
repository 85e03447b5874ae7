import Pep10.Proofs.Trace.Resolution
import Pep10.Program.Tracing

/-!
# The types that a program declares

The tagged `.EQUATE` lines of a program declare types for its trace tags, in any order.  A
declaration whose tags cannot be unfolded is left without a type, and tracing warns about every name
in its tags that has no type (`declarations_unfold`).
-/

namespace Pep10

open Trace
open Relation (TransGen)

/-- The warnings about a declaration: one for each name in its tags that has no type. -/
def Trace.Declaration.warnings (types : Types) (d : Declaration) : List Report :=
  (d.references.filter fun name => (types.find? name).isNone).map fun name =>
    traceWarning d.line (.unresolved name)

namespace Program

variable {p : Program} {site : Site} {w : Report} {types : Types}

/-- The types that the lines of the expansion declare, in their order. -/
def declarations (p : Program) : List Declaration := (p.sites root).filterMap Site.declaration?

/-- A program that declares a type has tags. -/
lemma declarations_eq_nil (h : ((p.sites root).all fun site => site.tags.isEmpty) = true) :
    p.declarations = [] := by
  refine List.filterMap_eq_nil_iff.2 fun site hsite => ?_
  have hempty := List.all_eq_true.1 h site hsite
  rw [Site.declaration?, hempty]
  simp

/-- A line whose own tags bring about a warning declares no type. -/
lemma declaration?_eq_none_of_mem_warnings (h : w ∈ (p.traceAt types site).warnings) :
    site.declaration? = none := by
  rw [Site.declaration?, if_neg]
  intro hdeclares
  rw [Bool.and_eq_true] at hdeclares
  have hequate := hdeclares.1
  unfold traceAt at h
  unfold Statement.isEquate at hequate
  split at hequate
  next operand hstatement =>
    rw [hstatement] at h
    cases h
  · cases hequate

/-- The warnings of a program are those about the declarations that are left and those about other
lines. -/
lemma warnings_annotate (p : Program) :
    ∃ others, p.annotate.2.warnings =
        (Declaration.resolveAll p.declarations).2.flatMap
          (Declaration.warnings (Declaration.resolveAll p.declarations).1) ++ others ∧
      ∀ w ∈ others, ∃ site ∈ p.sites root, site.declaration? = none ∧
        w ∈ (p.traceAt (Declaration.resolveAll p.declarations).1 site).warnings := by
  unfold annotate
  dsimp only
  split
  next hempty =>
    rw [declarations_eq_nil hempty]
    exact ⟨[], rfl, nofun⟩
  next =>
    refine ⟨(p.sites root).flatMap fun site =>
      (p.traceAt (Declaration.resolveAll p.declarations).1 site).warnings, ?_, fun w hw => ?_⟩
    · simp only [Declaration.missing_eq, List.flatMap_map]
      rfl
    · obtain ⟨site, hsite, hmem⟩ := List.mem_flatMap.1 hw
      exact ⟨site, hsite, declaration?_eq_none_of_mem_warnings hmem, hmem⟩

/-- For declarations under different names, the rounds come to an end, and the types that they enter
do not depend on the order.  A declared name has a type exactly if everything it refers to, directly
or not, is declared and no chain of references from it runs into a cycle; its type is what unfolding
the tags gives.  The declarations without a type are left, each of them with one warning for every
tag that names no type and with at least one in all, and it is these warnings that a program with
the declarations gets for them. -/
theorem declarations_unfold (ds : List Declaration) (hnames : (ds.map Declaration.name).Nodup) :
    let types := (Declaration.resolveAll ds).1
    let left := (Declaration.resolveAll ds).2
    Declaration.round types left = (types, left) ∧
      (∀ ds' : List Declaration, ds'.Perm ds → ∀ name,
        (Declaration.resolveAll ds').1.find? name = types.find? name) ∧
      (∀ name, (types.find? name).isSome = true ↔
        Declaration.Declares ds name ∧
          (∀ m, TransGen (Declaration.Refers ds) name m → Declaration.Declares ds m) ∧
          ¬ReachesCycle (Declaration.Refers ds) name) ∧
      (∀ name t, types.find? name = some t ↔ Declaration.Unfolds ds name t) ∧
      left = ds.filter (fun d => (types.find? d.name).isNone) ∧
      (∀ d ∈ left, d.warnings types ≠ []) ∧
      ∀ p : Program, p.declarations = ds →
        ∃ others, p.annotate.2.warnings = left.flatMap (Declaration.warnings types) ++ others ∧
          ∀ w ∈ others, ∃ site ∈ p.sites root, site.declaration? = none ∧
            w ∈ (p.traceAt types site).warnings := by
  intro types left
  obtain ⟨hdone, hstuck⟩ := Declaration.resolveAll_done ds
  refine ⟨hdone, fun ds' => Declaration.find?_resolveAll_perm hnames, fun name => ?_,
    fun name t => Declaration.find?_resolveAll_iff hnames, (Declaration.resolveAll_enters hnames).2,
    fun d hd => ?_, fun p hp => ?_⟩
  · rw [Option.isSome_iff_exists]
    simp only [types, Declaration.find?_resolveAll_iff hnames]
    rw [Declaration.exists_unfolds_iff hnames]
    exact ⟨fun h => ⟨h.declares, h.reaches, h.acyclic⟩, fun ⟨h₁, h₂, h₃⟩ => ⟨h₁, h₂, h₃⟩⟩
  · have hmissing := Declaration.missing_ne_nil (hstuck d hd)
    rw [Declaration.missing_eq] at hmissing
    rw [Declaration.warnings, Ne, List.map_eq_nil_iff]
    exact hmissing
  · subst hp
    exact warnings_annotate p

/-- A record whose parts are declared behind it, a record that holds itself, one that holds this
one, and one with parts that are not declared. -/
def recordDeclarations : List Declaration :=
  [⟨0, "line", [.symbol "point", .symbol "point", .array .char1 8]⟩, ⟨1, "chain", [.symbol "chain"]⟩,
   ⟨2, "point", [.primitive .decimal2, .symbol "byte"]⟩, ⟨3, "net", [.symbol "line", .symbol "chain"]⟩,
   ⟨4, "byte", [.primitive .hex1]⟩, ⟨5, "lost", [.symbol "nil", .symbol "byte", .symbol "nil"]⟩]

/-- The type of a point that the records above amount to. -/
def pointType : DataType := .struct "point" [.primitive "" .decimal2, .primitive "byte" .hex1]

/-- The record is entered in whatever order its parts are declared, and three others are left. -/
theorem declarations_unfold_records :
    (recordDeclarations.map Declaration.name).Nodup ∧
      (∀ ds : List Declaration, ds.Perm recordDeclarations → (Declaration.resolveAll ds).1.find? "line" =
        some (.struct "line" [pointType, pointType, .array "" .char1 8])) ∧
      Declaration.Unfolds recordDeclarations "line"
        (.struct "line" [pointType, pointType, .array "" .char1 8]) ∧
      ¬Declaration.Grounded recordDeclarations "net" ∧
      (Declaration.resolveAll recordDeclarations).2.flatMap
          (Declaration.warnings (Declaration.resolveAll recordDeclarations).1) =
        [traceWarning 1 (.unresolved "chain"), traceWarning 3 (.unresolved "chain"),
          traceWarning 5 (.unresolved "nil"), traceWarning 5 (.unresolved "nil")] := by
  have hnames : (recordDeclarations.map Declaration.name).Nodup := by decide
  have hline : (Declaration.resolveAll recordDeclarations).1.find? "line" =
      some (.struct "line" [pointType, pointType, .array "" .char1 8]) := by decide
  have hnet : (Declaration.resolveAll recordDeclarations).1.find? "net" = none := by decide
  obtain ⟨-, hperm, hsome, hunfolds, -⟩ := declarations_unfold recordDeclarations hnames
  refine ⟨hnames, fun ds hds => (hperm ds hds "line").trans hline, (hunfolds "line" _).1 hline, ?_,
    by decide⟩
  intro hnet'
  have htyped := (hsome "net").2 ⟨hnet'.declares, hnet'.reaches, hnet'.acyclic⟩
  rw [hnet] at htyped
  cases htyped

end Program

end Pep10
