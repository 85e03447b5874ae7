import Pep10.Proofs.Digraph.ShortestPath

/-!
# The cyclic part of a graph

Each round of pruning keeps some vertices and all edges between them (`dropLeaves_eq_induced`), and
so do several rounds one after the other (`exists_dropLeavesTimes_eq_induced`).  The rounds come to
a graph without leaves before there are more of them than vertices (`exists_rounds`), and that graph
is the part induced by the vertices from which a cycle can be reached (`prune_eq_induced`).
-/

namespace Pep10.Digraph

open Relation (TransGen)

variable {g : Digraph} {p q : Nat → Prop} [DecidablePred p] [DecidablePred q] {v : Nat}

/-! ### Induced parts -/

/-- The part of a graph that consists of the vertices with a property and of all edges between
them. -/
def induced (g : Digraph) (p : Nat → Prop) [DecidablePred p] : Digraph where
  vertices := g.vertices.filter fun v => p v
  edges := g.edges.filter fun e => p e.1 ∧ p e.2

lemma induced_induced : (g.induced p).induced q = g.induced fun v => p v ∧ q v := by
  simp only [induced, List.filter_filter, Digraph.mk.injEq]
  constructor
  · refine List.filter_congr fun v _ => ?_
    rw [Bool.and_comm, Bool.decide_and]
  · refine List.filter_congr fun e _ => ?_
    rw [Bool.eq_iff_iff, Bool.and_eq_true, decide_eq_true_eq, decide_eq_true_eq, decide_eq_true_eq]
    tauto

/-- Only what a property says about the vertices matters. -/
lemma induced_congr (hclosed : g.Closed) (hends : g.Ends) (h : ∀ v ∈ g.vertices, p v ↔ q v) :
    g.induced p = g.induced q := by
  simp only [induced, Digraph.mk.injEq]
  constructor
  · exact List.filter_congr fun v hv => decide_eq_decide.2 (h v hv)
  · exact List.filter_congr fun e he =>
      decide_eq_decide.2 (and_congr (h e.1 (hclosed e he)) (h e.2 (hends e he)))

lemma mem_vertices_induced : v ∈ (g.induced p).vertices ↔ v ∈ g.vertices ∧ p v := by
  simp [induced]

lemma Built.closed (h : g.Built) : g.Closed := by
  induction h with
  | empty => nofun
  | addVertex _ v ih => exact ih.addVertex v
  | addEdge _ source target ih => exact ih.addEdge source target

/-! ### Rounds of pruning -/

/-- No vertex is a leaf. -/
def Leafless (g : Digraph) : Prop := ∀ v ∈ g.vertices, g.isLeaf v = false

/-- One round keeps the vertices that are no leaves.  The edges that it drops are those with a leaf
at one end, since no edge starts at a leaf. -/
lemma dropLeaves_eq_induced (g : Digraph) : g.dropLeaves = g.induced fun v => g.isLeaf v = false := by
  simp only [dropLeaves, induced, Digraph.mk.injEq]
  constructor
  · exact List.filter_congr fun v _ => by rw [Bool.decide_eq_false]
  · refine List.filter_congr fun e he => ?_
    rw [Bool.eq_iff_iff, Bool.not_eq_true', decide_eq_true_eq, and_iff_right (isLeaf_of_mem_edges he)]

lemma exists_dropLeavesTimes_eq_induced (n : Nat) (g : Digraph) :
    ∃ keep : Nat → Bool, dropLeavesTimes n g = g.induced fun v => keep v = true := by
  induction n generalizing g with
  | zero => exact ⟨fun _ => true, by simp [dropLeavesTimes, induced]⟩
  | succ n ih =>
    obtain ⟨keep, hkeep⟩ := ih g.dropLeaves
    refine ⟨fun v => !g.isLeaf v && keep v, ?_⟩
    rw [dropLeavesTimes, hkeep, dropLeaves_eq_induced, induced_induced]
    simp only [Bool.and_eq_true, Bool.not_eq_true']

lemma dropLeavesTimes_add (m n : Nat) (g : Digraph) :
    dropLeavesTimes (m + n) g = dropLeavesTimes n (dropLeavesTimes m g) := by
  induction m generalizing g with
  | zero => rw [Nat.zero_add, dropLeavesTimes]
  | succ m ih => rw [Nat.succ_add, dropLeavesTimes, dropLeavesTimes, ih]

/-- No leaf is left by as many rounds as there are vertices. -/
lemma leafless_prune (hends : g.Ends) : g.prune.Leafless := fun _ hv =>
  isLeaf_eq_false_iff.2 (exists_edge_dropLeavesTimes hends (Nat.le_refl g.size) hv)

/-- Rounds that are made as long as there are leaves come to an end, and what they leave is what
pruning gives. -/
lemma exists_rounds (hends : g.Ends) :
    ∃ n ≤ g.size, (∀ k < n, ¬(dropLeavesTimes k g).Leafless) ∧ (dropLeavesTimes n g).Leafless ∧
      dropLeavesTimes n g = g.prune := by
  classical
  have hex : ∃ n, (dropLeavesTimes n g).Leafless := ⟨g.size, leafless_prune hends⟩
  have hleast : (dropLeavesTimes (Nat.find hex) g).Leafless := Nat.find_spec hex
  have hle : Nat.find hex ≤ g.size := Nat.find_min' hex (leafless_prune hends)
  refine ⟨Nat.find hex, hle, fun k => Nat.find_min hex, hleast, ?_⟩
  -- The rounds that pruning makes beyond these find nothing to drop.
  obtain ⟨hends', -, -⟩ := dropLeavesTimes_sub hends (Nat.find hex)
  have hstay := dropLeavesTimes_eq_self hends' (fun v hv => isLeaf_eq_false_iff.1 (hleast v hv))
    (g.size - Nat.find hex)
  rw [← dropLeavesTimes_add, Nat.add_sub_cancel' hle] at hstay
  exact hstay.symm

/-! ### What is left -/

/-- A vertex that is left has a successor that is left. -/
lemma exists_next_prune (hends : g.Ends) (hv : v ∈ g.prune.vertices) :
    ∃ w ∈ g.prune.vertices, g.prune.Edge v w := by
  obtain ⟨w, hw⟩ := exists_edge_dropLeavesTimes hends (Nat.le_refl g.size) hv
  exact ⟨w, (dropLeavesTimes_sub hends g.size).1 _ hw, hw⟩

/-- Everything is dropped exactly if there is no cycle. -/
lemma isEmpty_prune_iff (hclosed : g.Closed) (hends : g.Ends) :
    g.prune.isEmpty = true ↔ ∀ v, ¬TransGen g.Edge v v := by
  rw [isEmpty, List.isEmpty_iff, List.eq_nil_iff_forall_not_mem]
  constructor
  · intro hempty v hcycle
    obtain ⟨w, hvw, -⟩ := TransGen.head'_iff.1 hcycle
    exact hempty v ((mem_vertices_prune hends).2 ⟨hclosed _ hvw, v, .refl, hcycle⟩)
  · intro hacyclic v hv
    obtain ⟨-, w, -, hcycle⟩ := (mem_vertices_prune hends).1 hv
    exact hacyclic w hcycle

open Classical in
/-- In a graph that has been built by adding vertices and edges, dropping leaves as long as there
are some comes to an end, after no more rounds than there are vertices.  What is left are exactly
the vertices from which a cycle can be reached, with all edges between them.  So nothing is left if
and only if there is no cycle, and whatever is left has a successor that is left. -/
theorem prune_eq_induced (h : g.Built) :
    (∃ n ≤ g.size, (∀ k < n, ¬(dropLeavesTimes k g).Leafless) ∧ (dropLeavesTimes n g).Leafless ∧
      dropLeavesTimes n g = g.prune) ∧
    g.prune = g.induced (ReachesCycle g.Edge) ∧
    (g.prune.isEmpty = true ↔ ∀ v, ¬TransGen g.Edge v v) ∧
    ∀ v ∈ g.prune.vertices, ∃ w ∈ g.prune.vertices, g.prune.Edge v w := by
  refine ⟨exists_rounds h.ends, ?_, isEmpty_prune_iff h.closed h.ends, fun v => exists_next_prune h.ends⟩
  obtain ⟨keep, hkeep⟩ := exists_dropLeavesTimes_eq_induced g.size g
  change g.prune = _ at hkeep
  rw [hkeep]
  refine induced_congr h.closed h.ends fun v hv => ?_
  have hleft : v ∈ g.prune.vertices ↔ keep v = true := by
    rw [hkeep, mem_vertices_induced, and_iff_right hv]
  rw [← hleft, mem_vertices_prune h.ends, and_iff_right hv]

/-- A graph with a way into a cycle, a way out of it, and a vertex apart. -/
def lasso : Digraph :=
  [(1, 2), (2, 3), (3, 2), (3, 4), (4, 5), (1, 5)].foldl (fun g e => g.addEdge e.1 e.2)
    (({} : Digraph).addVertex 6)

open Classical in
/-- The way into the cycle is left with the cycle, the way out of it is not. -/
theorem prune_eq_induced_lasso :
    lasso.Built ∧ lasso.prune = ⟨[1, 2, 3], [(1, 2), (2, 3), (3, 2)]⟩ ∧ ReachesCycle lasso.Edge 1 ∧
      ¬ReachesCycle lasso.Edge 4 := by
  have hbuilt : lasso.Built :=
    (((((((Built.empty.addVertex 6).addEdge 1 2).addEdge 2 3).addEdge 3 2).addEdge 3 4).addEdge 4 5).addEdge
      1 5)
  have hprune : lasso.prune = ⟨[1, 2, 3], [(1, 2), (2, 3), (3, 2)]⟩ := by decide
  have hvertices := congrArg Digraph.vertices (prune_eq_induced hbuilt).2.1
  have hmem : ∀ v ∈ lasso.vertices, ReachesCycle lasso.Edge v ↔ v ∈ [1, 2, 3] := by
    intro v hv
    rw [hprune] at hvertices
    change [1, 2, 3] = _ at hvertices
    rw [hvertices, mem_vertices_induced, and_iff_right hv]
  refine ⟨hbuilt, hprune, (hmem 1 (by decide)).2 (by decide), fun hcycle => ?_⟩
  have hfour := (hmem 4 (by decide)).1 hcycle
  revert hfour
  decide

end Pep10.Digraph
