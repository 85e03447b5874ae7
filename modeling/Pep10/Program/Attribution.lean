import Pep10.Digraph.Route
import Pep10.Program.Expansion

/-!
# Attribution to root lines

The user sees the root module only, so a diagnostic inside a macro is attributed to the root line
that brought the macro in.
-/

namespace Pep10.Program

/-- The first root line that calls an instance satisfying `q`. -/
def rootLineCalling? (p : Program) (q : Nat → Bool) : Option Nat :=
  ((p.module root).calls.find? fun call => q call.2).map Prod.fst

/-- The first root line that calls the given module. -/
def rootLineIncluding? (p : Program) (m : Nat) : Option Nat :=
  p.rootLineCalling? fun id => (p.inst id).moduleId == m

/-- The first root line that calls the first module on a shortest way of inclusion from the root
to the given module. -/
def rootLineFor? (p : Program) (m : Nat) : Option Nat :=
  match p.includes.shortestPath? root m with
  | some (first :: _) => p.rootLineIncluding? first
  | _ => none

/-- The instances that an instance calls, as far as its lines or its module tell. -/
def callees (p : Program) (id : Nat) : List Nat :=
  p.callsOf id ++ (p.module (p.inst id).moduleId).calls.map Prod.snd

/-- Whether calls lead from one instance to another. -/
def leadsTo (p : Program) (source target : Nat) : Bool :=
  Route.reaches p.callees p.instances.size source target

/-- The first root line whose call leads to the given instance. -/
def rootLineReaching? (p : Program) (target : Nat) : Option Nat :=
  p.rootLineCalling? fun id => p.leadsTo id target

/-- The root line that a line of an instance is attributed to. -/
def rootLineOf (p : Program) (id line : Nat) : Nat :=
  let m := (p.inst id).moduleId
  if m == root then line
  else ((p.rootLineReaching? id).or (p.rootLineFor? m)).getD 0

end Pep10.Program
