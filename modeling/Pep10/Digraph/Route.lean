import Pep10.Digraph.Basic

/-!
# Shortest routes

Breadth-first search from a start, layer by layer.  A route is kept from its end back to the
start, so that it is extended at the front.  Every vertex is reached by at most one route, the
first one found in the order of the search.
-/

namespace Pep10

/-- The vertices of a route, from its end back to its start. -/
abbrev Route := List Nat

namespace Route

/-- What a search knows: the vertices reached so far, and the routes of the layer under way. -/
structure Layer where
  seen : List Nat
  routes : List Route

/-- Extends `route` to the vertex `v`, unless `v` has been reached before. -/
def Layer.visit (route : Route) (layer : Layer) (v : Nat) : Layer :=
  if layer.seen.contains v then layer
  else ⟨v :: layer.seen, layer.routes ++ [v :: route]⟩

/-- Extends `route` to all successors of its end. -/
def Layer.extend (successors : Nat → List Nat) (layer : Layer) (route : Route) : Layer :=
  match route with
  | [] => layer
  | v :: _ => (successors v).foldl (visit route) layer

/-- The next layer: all one-step extensions of the routes of this one. -/
def Layer.next (successors : Nat → List Nat) (layer : Layer) : Layer :=
  layer.routes.foldl (extend successors) ⟨layer.seen, []⟩

/-- The routes of this layer and of the `n` layers behind it, in the order of the search. -/
def Layer.routesWithin (successors : Nat → List Nat) : Nat → Layer → List Route
  | 0, layer => layer.routes
  | n + 1, layer => layer.routes ++ routesWithin successors n (layer.next successors)

/-- All routes from `start` with at most `n` steps that the search finds. -/
def fromStart (successors : Nat → List Nat) (n start : Nat) : List Route :=
  Layer.routesWithin successors n ⟨[start], [[start]]⟩

/-- Whether a route of at most `n` steps leads from `start` to `target`. -/
def reaches (successors : Nat → List Nat) (n start target : Nat) : Bool :=
  (fromStart successors n start).any fun route => route.head? == some target

end Route

/-- The vertices on a shortest way from `source` to `target`, without `source` itself. -/
def Digraph.shortestPath? (g : Digraph) (source target : Nat) : Option (List Nat) :=
  ((Route.fromStart g.successors g.size source).find? fun route => route.head? == some target).map
    fun route => route.reverse.drop 1

end Pep10
