import Mathlib.Tactic.Common
import Pep10.Digraph.Basic

/-!
# Graphs that can be pruned away

A graph of which nothing is left when leaves are dropped over and over has no cycle.  The proof
gives every vertex a rank, the number of rounds that it survives, and every edge goes down in rank.
-/

namespace Pep10

/-- Putting a member into an ordered list adds that member and nothing else. -/
lemma Ordered.mem_set {α : Type} {lt : α → α → Bool}
    (htri : ∀ a b, lt a b = false → lt b a = false → a = b) {a x : α} {l : List α} :
    x ∈ set lt a l ↔ x = a ∨ x ∈ l := by
  induction l with
  | nil => simp [set]
  | cons b l ih =>
    rw [set]
    split
    · rw [List.mem_cons]
    next hab =>
      split
      · rw [List.mem_cons, ih, List.mem_cons]
        grind
      next hba =>
        obtain rfl := htri a b (by simpa using hab) (by simpa using hba)
        rw [List.mem_cons]
        grind

namespace Digraph

variable {g : Digraph} {u v w : Nat} {e : Nat × Nat}

lemma mem_vertices_addVertex : w ∈ (g.addVertex v).vertices ↔ w = v ∨ w ∈ g.vertices := by
  refine Ordered.mem_set fun a b hab hba => ?_
  simp only [decide_eq_false_iff_not] at hab hba
  omega

lemma mem_edges_addEdge : e ∈ (g.addEdge u v).edges ↔ e = (u, v) ∨ e ∈ g.edges := by
  refine Ordered.mem_set fun a b hab hba => ?_
  simp only [edgeBefore, Bool.or_eq_false_iff, Bool.and_eq_false_iff, decide_eq_false_iff_not,
    beq_eq_false_iff_ne] at hab hba
  ext <;> omega

/-- Every edge starts at a vertex. -/
def Closed (g : Digraph) : Prop := ∀ e ∈ g.edges, e.1 ∈ g.vertices

lemma Closed.addVertex (h : g.Closed) (v : Nat) : (g.addVertex v).Closed :=
  fun e he => mem_vertices_addVertex.2 (.inr (h e he))

lemma Closed.addEdge (h : g.Closed) (u v : Nat) : (g.addEdge u v).Closed := by
  intro e he
  change e.1 ∈ ((g.addVertex v).addVertex u).vertices
  rw [mem_vertices_addVertex, mem_vertices_addVertex]
  rcases mem_edges_addEdge.1 he with rfl | he
  · exact .inl rfl
  · exact .inr (.inr (h e he))

/-- A vertex from which an edge starts is no leaf. -/
lemma isLeaf_of_mem_edges (h : e ∈ g.edges) : g.isLeaf e.1 = false := by
  rw [isLeaf, List.isEmpty_eq_false_iff, successors, Ne, List.map_eq_nil_iff,
    List.filter_eq_nil_iff]
  exact fun hall => hall e h (by simp)

lemma Closed.dropLeaves (h : g.Closed) : g.dropLeaves.Closed := by
  intro e he
  have hedge : e ∈ g.edges := (List.mem_filter.1 he).1
  exact List.mem_filter.2 ⟨h e hedge, by simp [isLeaf_of_mem_edges hedge]⟩

/-- If nothing is left after some rounds of pruning, then edges go down in rank. -/
lemma exists_rank_of_dropLeavesTimes {n : Nat} (hg : g.Closed)
    (h : (dropLeavesTimes n g).isEmpty = true) :
    ∃ rank : Nat → Nat, ∀ e ∈ g.edges, rank e.2 < rank e.1 := by
  induction n generalizing g with
  | zero =>
    refine ⟨fun _ => 0, fun e he => ?_⟩
    have hmem := hg e he
    have hnil : g.vertices = [] := List.isEmpty_iff.1 h
    rw [hnil] at hmem
    cases hmem
  | succ n ih =>
    obtain ⟨rank, hrank⟩ := ih hg.dropLeaves h
    -- A leaf goes in this round, all other vertices go one round later than without it.
    refine ⟨fun v => if g.isLeaf v then 0 else rank v + 1, fun e he => ?_⟩
    have hsource := isLeaf_of_mem_edges he
    cases htarget : g.isLeaf e.2 with
    | true => simp [hsource, htarget]
    | false =>
      have := hrank e (List.mem_filter.2 ⟨he, by simp [htarget]⟩)
      simpa [hsource, htarget] using this

/-- Edges of a graph that is pruned away go down in rank, so that there is no cycle. -/
theorem exists_rank (hg : g.Closed) (h : g.prune.isEmpty = true) :
    ∃ rank : Nat → Nat, ∀ e ∈ g.edges, rank e.2 < rank e.1 :=
  exists_rank_of_dropLeavesTimes hg h

end Digraph

end Pep10
