import Pep10.Ordered

/-!
# Directed graphs

A finite directed graph on numbers.  Vertices and edges are kept in ascending order, so that
everything computed from a graph is independent of the order in which it was built.
-/

namespace Pep10

/-- A directed graph. -/
structure Digraph where
  vertices : List Nat := []
  edges : List (Nat × Nat) := []
  deriving DecidableEq, Repr, Inhabited

namespace Digraph

/-- Edges are ordered by source, then by target. -/
def edgeBefore (a b : Nat × Nat) : Bool := a.1 < b.1 || (a.1 == b.1 && a.2 < b.2)

/-- Adds a vertex. -/
def addVertex (g : Digraph) (v : Nat) : Digraph :=
  { g with vertices := Ordered.set (fun a b => a < b) v g.vertices }

/-- Adds an edge, and with it the two vertices that it joins. -/
def addEdge (g : Digraph) (source target : Nat) : Digraph :=
  let g := (g.addVertex target).addVertex source
  { g with edges := Ordered.set edgeBefore (source, target) g.edges }

/-- The number of vertices. -/
def size (g : Digraph) : Nat := g.vertices.length

/-- Whether `v` is a vertex. -/
def contains (g : Digraph) (v : Nat) : Bool := g.vertices.contains v

/-- Whether there is no vertex. -/
def isEmpty (g : Digraph) : Bool := g.vertices.isEmpty

/-- The targets of the edges from `v`, in ascending order. -/
def successors (g : Digraph) (v : Nat) : List Nat :=
  (g.edges.filter fun e => e.1 == v).map Prod.snd

/-! ### Pruning -/

/-- Whether no edge leaves `v`. -/
def isLeaf (g : Digraph) (v : Nat) : Bool := (g.successors v).isEmpty

/-- The graph without its leaves and without the edges that lead to them. -/
def dropLeaves (g : Digraph) : Digraph where
  vertices := g.vertices.filter fun v => !g.isLeaf v
  edges := g.edges.filter fun e => !g.isLeaf e.2

/-- Drops leaves a number of times. -/
def dropLeavesTimes : Nat → Digraph → Digraph
  | 0, g => g
  | n + 1, g => dropLeavesTimes n g.dropLeaves

/-- Drops leaves until there are none.  As long as there are some, each round takes a vertex, so
that there need be no more rounds than vertices.  What is left are the vertices from which a cycle
can be reached. -/
def prune (g : Digraph) : Digraph := dropLeavesTimes g.size g

end Digraph

end Pep10
