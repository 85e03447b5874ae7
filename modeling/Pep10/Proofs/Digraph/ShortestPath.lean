import Mathlib.Data.List.Chain
import Pep10.Proofs.Digraph.Route

/-!
# Shortest paths

A search goes through the vertices in the order of their distance from the start.  The routes of the
layer number `k` take `k` steps, and whatever a walk of `k` steps leads to has been seen in that
layer (`mem_seen_layerAt`).  So the first route to a vertex is as short as any walk to it
(`length_le_of_find?_eq_some`), and the path that is read off it backwards is a shortest one
(`shortestPath?_isLeast`).
-/

namespace Pep10

open Relation (ReflTransGen)

namespace Route

variable {successors : Nat → List Nat} {start v w k n : Nat} {route rest : Route}

/-! ### Layers by number -/

/-- The layer that a search from `start` has reached after `k` steps. -/
def layerAt (successors : Nat → List Nat) (start : Nat) : Nat → Layer
  | 0 => ⟨[start], [[start]]⟩
  | k + 1 => (layerAt successors start k).next successors

/-- The search finds the routes of its layers, one layer after another. -/
lemma fromStart_eq (successors : Nat → List Nat) (n start : Nat) :
    fromStart successors n start =
      (List.range (n + 1)).flatMap fun k => (layerAt successors start k).routes := by
  have hfrom : ∀ n k, (layerAt successors start k).routesWithin successors n =
      (List.range' k (n + 1)).flatMap fun j => (layerAt successors start j).routes := by
    intro n
    induction n with
    | zero =>
      intro k
      rw [Nat.zero_add, List.range'_one, List.flatMap_singleton, Layer.routesWithin]
    | succ n ih =>
      intro k
      rw [List.range'_succ, List.flatMap_cons, Layer.routesWithin]
      exact congrArg _ (ih (k + 1))
  rw [List.range_eq_range']
  exact hfrom n 0

lemma mem_fromStart : route ∈ fromStart successors n start ↔
    ∃ k ≤ n, route ∈ (layerAt successors start k).routes := by
  rw [fromStart_eq, List.mem_flatMap]
  simp only [List.mem_range, Nat.lt_succ_iff]

/-- The routes of a layer have as many steps as its number says. -/
lemma length_of_mem_layerAt (h : route ∈ (layerAt successors start k).routes) :
    route.length = k + 1 := by
  induction k generalizing route with
  | zero =>
    obtain rfl := List.mem_singleton.1 h
    rfl
  | succ k ih =>
    obtain ⟨u, v, rest, rfl, hmem, -⟩ := exists_of_mem_next h
    rw [List.length_cons, ih hmem]

/-- A search finds shorter routes first. -/
lemma pairwise_length_fromStart (successors : Nat → List Nat) (n start : Nat) :
    (fromStart successors n start).Pairwise fun r r' => r.length ≤ r'.length := by
  rw [fromStart_eq, List.pairwise_flatMap]
  constructor
  · intro k _
    refine List.pairwise_of_forall_mem_list fun r hr r' hr' => ?_
    rw [length_of_mem_layerAt hr, length_of_mem_layerAt hr']
  · refine List.pairwise_lt_range.imp fun {i j} hij r hr r' hr' => ?_
    rw [length_of_mem_layerAt hr, length_of_mem_layerAt hr']
    omega

/-! ### Distances -/

lemma nodup_layerAt (successors : Nat → List Nat) (start k : Nat) :
    (layerAt successors start k).seen.Nodup := by
  induction k with
  | zero => exact List.nodup_singleton start
  | succ k ih => exact (Layer.Fresh.next ih).nodup

/-- What has been seen in a layer has a route in that layer or in an earlier one. -/
lemma exists_route_of_mem_seen (h : v ∈ (layerAt successors start k).seen) :
    ∃ j ≤ k, ∃ rest, v :: rest ∈ (layerAt successors start j).routes := by
  induction k with
  | zero =>
    obtain rfl := List.mem_singleton.1 h
    exact ⟨0, Nat.le_refl 0, [], List.mem_cons_self⟩
  | succ k ih =>
    rcases (Layer.Fresh.next (nodup_layerAt successors start k)).headed v h with hold | hroute
    · obtain ⟨j, hj, hroute⟩ := ih hold
      exact ⟨j, Nat.le_succ_of_le hj, hroute⟩
    · exact ⟨k + 1, Nat.le_refl _, hroute⟩

/-- A later layer has seen what an earlier one has. -/
lemma mem_seen_layerAt_of_le {j : Nat} (hjk : j ≤ k) (h : v ∈ (layerAt successors start j).seen) :
    v ∈ (layerAt successors start k).seen := by
  induction hjk with
  | refl => exact h
  | step _ ih => exact mem_seen_next.2 (.inr ih)

/-- One step behind what has been seen in a layer, everything has been seen in the next one. -/
lemma mem_seen_layerAt_succ (h : v ∈ (layerAt successors start k).seen) (hw : w ∈ successors v) :
    w ∈ (layerAt successors start (k + 1)).seen := by
  -- The route to `v` was extended one layer later, which need not be this one.
  obtain ⟨j, hj, rest, hroute⟩ := exists_route_of_mem_seen h
  have hnext : w ∈ (layerAt successors start (j + 1)).seen := mem_seen_next.2 (.inl ⟨v, rest, hroute, hw⟩)
  exact mem_seen_layerAt_of_le (Nat.succ_le_succ hj) hnext

/-- The end of a route has been seen in the layer that the number of its steps gives. -/
lemma mem_seen_layerAt (h : IsRoute successors start (v :: rest)) :
    v ∈ (layerAt successors start rest.length).seen := by
  generalize hr : v :: rest = r at h
  induction h generalizing v rest with
  | start =>
    cases hr
    exact List.mem_cons_self
  | step _ hstep ih =>
    cases hr
    exact mem_seen_layerAt_succ (ih rfl) hstep

/-- The first route to a vertex that a search finds is as short as any. -/
lemma length_le_of_find?_eq_some
    (hfind : (fromStart successors n start).find? (fun r => r.head? == some v) = some route)
    (h : IsRoute successors start (v :: rest)) : route.length ≤ (v :: rest).length := by
  obtain ⟨-, before, behind, hsplit, hbefore⟩ := List.find?_eq_some_iff_append.1 hfind
  have hmem : route ∈ fromStart successors n start := List.mem_of_find?_eq_some hfind
  obtain ⟨j, hj, hrest⟩ := exists_route_of_mem_seen (mem_seen_layerAt h)
  obtain ⟨rest', hrest⟩ := hrest
  have hlength : (v :: rest').length = j + 1 := length_of_mem_layerAt hrest
  by_cases hjn : j ≤ n
  · -- The other route has been found, too, and not before this one.
    have hmem' : v :: rest' ∈ before ++ route :: behind := by
      rw [← hsplit]
      exact mem_fromStart.2 ⟨j, hjn, hrest⟩
    have hle : route.length ≤ (v :: rest').length := by
      have hpairs := pairwise_length_fromStart successors n start
      rw [hsplit, List.pairwise_append, List.pairwise_cons] at hpairs
      rcases List.mem_append.1 hmem' with hmem' | hmem'
      · have hnot := hbefore _ hmem'
        simp at hnot
      · rcases List.mem_cons.1 hmem' with heq | hmem'
        · rw [heq]
        · exact hpairs.2.1.1 _ hmem'
    rw [hlength] at hle
    simp only [List.length_cons]
    omega
  · obtain ⟨k, hk, hroute⟩ := mem_fromStart.1 hmem
    rw [length_of_mem_layerAt hroute, List.length_cons]
    omega

/-- A route is a chain of steps that goes back to the start. -/
lemma isRoute_iff : IsRoute successors start route ↔
    List.IsChain (fun w v => w ∈ successors v) route ∧ route.getLast? = some start := by
  constructor
  · intro h
    induction h with
    | start => exact ⟨.singleton _, rfl⟩
    | step _ hstep ih => exact ⟨List.isChain_cons_cons.2 ⟨hstep, ih.1⟩, by rw [List.getLast?_cons_cons, ih.2]⟩
  · rintro ⟨hchain, hlast⟩
    induction route with
    | nil => cases hlast
    | cons w rest ih =>
      cases rest with
      | nil =>
        cases hlast
        exact .start
      | cons v rest =>
        obtain ⟨hstep, hchain⟩ := List.isChain_cons_cons.1 hchain
        rw [List.getLast?_cons_cons] at hlast
        exact .step (ih hchain hlast) hstep

end Route

namespace Digraph

variable {g : Digraph} {source target u v : Nat} {path : List Nat}

/-! ### Graphs and paths -/

/-- The graphs that can be built by adding vertices and edges. -/
inductive Built : Digraph → Prop
  | empty : Built {}
  | addVertex {g : Digraph} (h : Built g) (v : Nat) : Built (g.addVertex v)
  | addEdge {g : Digraph} (h : Built g) (source target : Nat) : Built (g.addEdge source target)

lemma Built.ends (h : g.Built) : g.Ends := by
  induction h with
  | empty => nofun
  | addVertex _ v ih => exact fun e he => mem_vertices_addVertex.2 (.inr (ih e he))
  | addEdge _ source target ih =>
    intro e he
    rw [mem_vertices_addEdge]
    rcases mem_edges_addEdge.1 he with rfl | he
    · exact .inr (.inl rfl)
    · exact .inr (.inr (ih e he))

/-- The vertices of `path` lead from `source` to `target`: `source` has an edge to the first of
them, each of them has one to the next, and the last one is `target`.  An empty path leads nowhere
else. -/
def IsPath (g : Digraph) (source : Nat) (path : List Nat) (target : Nat) : Prop :=
  List.IsChain g.Edge (source :: path) ∧ (source :: path).getLast? = some target

/-- A path read backwards, with its start, is a route that ends at the target. -/
lemma isPath_iff : g.IsPath source path target ↔
    Route.IsRoute g.successors source (source :: path).reverse ∧
      (source :: path).reverse.head? = some target := by
  have hlast : (source :: path).reverse.getLast? = some source := by
    rw [List.getLast?_reverse, List.head?_cons]
  have hchain : List.IsChain (fun w v => w ∈ g.successors v) (source :: path).reverse ↔
      List.IsChain g.Edge (source :: path) := by
    rw [List.isChain_reverse]
    simp only [mem_successors]
  rw [IsPath, Route.isRoute_iff, hchain, List.head?_reverse]
  simp only [hlast, and_true]

lemma IsPath.reflTransGen (h : g.IsPath source path target) : ReflTransGen g.Edge source target := by
  obtain ⟨hroute, hhead⟩ := isPath_iff.1 h
  obtain ⟨rest, hrest⟩ := List.head?_eq_some_iff.1 hhead
  rw [hrest] at hroute
  rw [← step_successors]
  exact hroute.reflTransGen

/-! ### The search for a path -/

/-- A path that is found comes from the first route to the target. -/
lemma find?_of_shortestPath? (h : g.shortestPath? source target = some path) :
    (Route.fromStart g.successors g.size source).find? (fun route => route.head? == some target) =
      some (source :: path).reverse := by
  obtain ⟨route, hfind, rfl⟩ := Option.map_eq_some_iff.1 h
  have hroute := Route.isRoute_of_mem_fromStart (List.mem_of_find?_eq_some hfind)
  have hstart : route.reverse.head? = some source := by
    rw [List.head?_reverse]
    exact (Route.isRoute_iff.1 hroute).2
  obtain ⟨path, hpath⟩ := List.head?_eq_some_iff.1 hstart
  rw [hfind, hpath, List.drop_one, List.tail_cons, ← hpath, List.reverse_reverse]

/-- What is found is a path. -/
lemma isPath_of_shortestPath? (h : g.shortestPath? source target = some path) :
    g.IsPath source path target := by
  have hfind := find?_of_shortestPath? h
  refine isPath_iff.2 ⟨Route.isRoute_of_mem_fromStart (List.mem_of_find?_eq_some hfind), ?_⟩
  simpa using List.find?_some hfind

/-- No path is shorter than the one that is found. -/
lemma length_le_of_shortestPath? (h : g.shortestPath? source target = some path) {path' : List Nat}
    (hpath' : g.IsPath source path' target) : path.length ≤ path'.length := by
  obtain ⟨hroute, hhead⟩ := isPath_iff.1 hpath'
  obtain ⟨rest, hrest⟩ := List.head?_eq_some_iff.1 hhead
  rw [hrest] at hroute
  have hle := Route.length_le_of_find?_eq_some (find?_of_shortestPath? h) hroute
  rw [← hrest] at hle
  simpa using hle

/-- A path is found to everything that can be reached, also from a number that is no vertex. -/
lemma isSome_shortestPath? (hends : g.Ends) (h : ReflTransGen g.Edge source target) :
    (g.shortestPath? source target).isSome = true := by
  rw [← step_successors] at h
  obtain ⟨rest, hmem⟩ := Route.exists_route_of_reflTransGen (n := g.size) (source :: g.vertices)
    (fun a _ b hb => List.mem_cons_of_mem _ (hends _ (mem_successors.1 hb))) (Nat.le_refl _)
    List.mem_cons_self h
  rw [shortestPath?, Option.isSome_map, List.find?_isSome]
  exact ⟨_, hmem, by simp⟩

/-- In a graph that has been built by adding vertices and edges, a path is found exactly to what can
be reached.  It leads from the source to the target along edges, and no other such path has fewer
edges. -/
theorem shortestPath?_isLeast (h : g.Built) (source target : Nat) :
    ((∃ path, g.shortestPath? source target = some path) ↔ ReflTransGen g.Edge source target) ∧
      ∀ path, g.shortestPath? source target = some path →
        g.IsPath source path target ∧
          ∀ path', g.IsPath source path' target → path.length ≤ path'.length := by
  constructor
  · constructor
    · rintro ⟨path, hpath⟩
      exact (isPath_of_shortestPath? hpath).reflTransGen
    · intro hreach
      exact Option.isSome_iff_exists.1 (isSome_shortestPath? h.ends hreach)
  · intro path hpath
    exact ⟨isPath_of_shortestPath? hpath, fun path' => length_le_of_shortestPath? hpath⟩

/-- A graph with two ways from 1 to 4, the longer one of which is entered first, with a cycle and a
loop on the other one, and with a vertex apart. -/
def detour : Digraph :=
  [(1, 2), (2, 3), (3, 4), (4, 1), (1, 5), (5, 5), (5, 4)].foldl (fun g e => g.addEdge e.1 e.2)
    (({} : Digraph).addVertex 9)

/-- The shorter way is found, and none to the vertex apart. -/
theorem shortestPath?_isLeast_detour :
    detour.Built ∧ detour.shortestPath? 1 4 = some [5, 4] ∧
      (∀ path, detour.IsPath 1 path 4 → 2 ≤ path.length) ∧ ¬ReflTransGen detour.Edge 1 9 := by
  have hbuilt : detour.Built :=
    ((((((((Built.empty.addVertex 9).addEdge 1 2).addEdge 2 3).addEdge 3 4).addEdge 4 1).addEdge 1 5).addEdge
      5 5).addEdge 5 4)
  have hfound : detour.shortestPath? 1 4 = some [5, 4] := by decide
  have hnone : detour.shortestPath? 1 9 = none := by decide
  refine ⟨hbuilt, hfound, ((shortestPath?_isLeast hbuilt 1 4).2 [5, 4] hfound).2, fun hreach => ?_⟩
  obtain ⟨path, hpath⟩ := (shortestPath?_isLeast hbuilt 1 9).1.2 hreach
  rw [hnone] at hpath
  cases hpath

end Digraph

end Pep10
