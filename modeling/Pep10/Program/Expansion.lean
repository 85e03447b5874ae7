import Pep10.Program.Basic

/-!
# The expansion of a program

A macro call stands for the lines of the instance that it is bound to, which may contain further
calls.  The expansion of an instance lists all these lines in the order of their addresses, each
call followed by the lines that it stands for.  Calls cannot be nested more deeply than there are
instances unless an instance calls itself, directly or not; the expansion stops at that depth.
-/

namespace Pep10

/-- A line in an expansion. -/
structure Site where
  /-- The instance that the line belongs to. -/
  owner : Nat
  /-- The position of the line in its instance. -/
  index : Nat
  /-- The number of the root line that the site comes from. -/
  rootLine : Nat
  line : Line
  deriving DecidableEq, Repr

namespace Program

/-- The instances that an instance calls, in the order of the calls. -/
def callsOf (p : Program) (id : Nat) : List Nat :=
  (p.inst id).lines.filterMap fun line => line.statement.target?

/-- The sites of an instance down to the given depth.  `rootLine` is the root line that calls the
instance, if it is not the root itself. -/
def sitesFrom (p : Program) : Nat → Option Nat → Nat → List Site
  | 0, _, _ => []
  | depth + 1, rootLine, id =>
    (p.inst id).lines.zipIdx.flatMap fun (line, index) =>
      let number := rootLine.getD line.number
      ⟨id, index, number, line⟩ ::
        match line.statement with
        | .call _ _ target => p.sitesFrom depth (some number) target
        | _ => []

/-- The expansion of an instance. -/
def sites (p : Program) (id : Nat) : List Site := p.sitesFrom p.instances.size none id

/-- The number of bytes at a site. -/
def sizeAt (p : Program) (site : Site) : UInt16 :=
  site.line.size p.symbols (p.inst site.owner).table

/-- The object code at a site. -/
def codeAt (p : Program) (site : Site) : List UInt8 :=
  site.line.code p.symbols (p.inst site.owner).table

/-- The number of bytes that the expansion of an instance takes. -/
def byteCount (p : Program) (id : Nat) : Nat :=
  (p.sites id).foldr (fun site count => (p.sizeAt site).toNat + count) 0

/-- The object code of the expansion of an instance. -/
def codeOf (p : Program) (id : Nat) : List UInt8 := (p.sites id).flatMap p.codeAt

/-- The given instances, then those that they call, and so on for `n` levels. -/
def levels (p : Program) : Nat → List Nat → List Nat
  | 0, _ => []
  | n + 1, ids => ids ++ p.levels n (ids.flatMap p.callsOf)

/-- An instance and the instances that it calls, directly or not, level by level. -/
def reachable (p : Program) (id : Nat) : List Nat := p.levels p.instances.size [id]

end Program

end Pep10
