import Mathlib.Data.Fintype.Pigeonhole
import Mathlib.Data.Set.Finite.Basic
import Mathlib.Logic.Relation
import Pep10.Proofs.Digraph.Pruning

/-!
# The vertices from which a cycle can be reached

Dropping leaves over and over leaves exactly the vertices from which a cycle can be reached.  Such a
vertex always has a successor of the same kind, so that it is no leaf in any round.  Conversely
there are rounds enough for all leaves to go, and a walk among finitely many vertices that never
meets a leaf comes back to where it has been.
-/

namespace Pep10

/-! ### Walks into a cycle -/

section Relation

open Relation (ReflTransGen TransGen)

variable {α β : Type} {r : α → α → Prop} {a b : α}

/-- A walk from `a` leads into a cycle. -/
def ReachesCycle (r : α → α → Prop) (a : α) : Prop := ∃ b, ReflTransGen r a b ∧ TransGen r b b

namespace ReachesCycle

lemma of_reflTransGen (hab : ReflTransGen r a b) (hb : ReachesCycle r b) : ReachesCycle r a := by
  obtain ⟨c, hbc, hc⟩ := hb
  exact ⟨c, hab.trans hbc, hc⟩

/-- The walk can be started: its next vertex leads into a cycle, too. -/
lemma exists_next (h : ReachesCycle r a) : ∃ b, r a b ∧ ReachesCycle r b := by
  obtain ⟨c, hac, hc⟩ := h
  rcases hac.cases_head with rfl | ⟨b, hab, hbc⟩
  · -- The walk stands on the cycle and goes round.
    obtain ⟨b, hab, hba⟩ := TransGen.head'_iff.1 hc
    exact ⟨b, hab, a, hba, hc⟩
  · exact ⟨b, hab, c, hbc, hc⟩

/-- Among finitely many members each of which has a successor among them, every walk comes back. -/
lemma of_finite {s : Set α} (hs : s.Finite) (hnext : ∀ a ∈ s, ∃ b ∈ s, r a b) (ha : a ∈ s) :
    ReachesCycle r a := by
  choose next hmem hstep using hnext
  let step : s → s := fun x => ⟨next x x.2, hmem x x.2⟩
  have hwalk : ∀ n (x : s), ReflTransGen r x (step^[n] x) := by
    intro n x
    induction n generalizing x with
    | zero => exact .refl
    | succ n ih => exact (ih (step x)).head (hstep x x.2)
  have : Finite s := hs
  obtain ⟨i, j, hne, heq⟩ := Finite.exists_ne_map_eq_of_infinite fun n => step^[n] ⟨a, ha⟩
  wlog hlt : i < j generalizing i j
  · exact this j i hne.symm heq.symm (by omega)
  refine ⟨step^[i] ⟨a, ha⟩, hwalk i ⟨a, ha⟩, ?_⟩
  -- Between the two visits there is at least one step.
  have hsplit : step^[j] ⟨a, ha⟩ = step^[j - i - 1] (step (step^[i] ⟨a, ha⟩)) := by
    rw [← Function.iterate_succ_apply, ← Function.iterate_add_apply]
    congr 1
    omega
  have hback := hwalk (j - i - 1) (step (step^[i] ⟨a, ha⟩))
  rw [← hsplit, ← heq] at hback
  exact .head' (hstep _ (step^[i] ⟨a, ha⟩).2) hback

/-- Walks of one relation are walks of another one under a map. -/
lemma map {s : β → β → Prop} {f : α → β} (hf : ∀ a b, r a b → s (f a) (f b)) (h : ReachesCycle r a) :
    ReachesCycle s (f a) := by
  obtain ⟨b, hab, hb⟩ := h
  exact ⟨f b, hab.lift f hf, hb.lift f hf⟩

end ReachesCycle

end Relation

namespace Digraph

variable {g : Digraph} {u v w n : Nat}

/-- An edge leads from one vertex to another. -/
def Edge (g : Digraph) (u v : Nat) : Prop := (u, v) ∈ g.edges

/-- Every edge ends at a vertex. -/
def Ends (g : Digraph) : Prop := ∀ e ∈ g.edges, e.2 ∈ g.vertices

lemma mem_vertices_addEdge :
    w ∈ (g.addEdge u v).vertices ↔ w = u ∨ w = v ∨ w ∈ g.vertices := by
  change w ∈ ((g.addVertex v).addVertex u).vertices ↔ _
  rw [mem_vertices_addVertex, mem_vertices_addVertex]

/-! ### One round of pruning -/

/-- A vertex is no leaf exactly if an edge leaves it. -/
lemma isLeaf_eq_false_iff : g.isLeaf v = false ↔ ∃ w, g.Edge v w := by
  constructor
  · intro h
    rw [isLeaf, List.isEmpty_eq_false_iff, successors, Ne, List.map_eq_nil_iff,
      List.filter_eq_nil_iff] at h
    push Not at h
    obtain ⟨⟨source, target⟩, hmem, heq⟩ := h
    obtain rfl : source = v := by simpa using heq
    exact ⟨target, hmem⟩
  · rintro ⟨w, hw⟩
    exact isLeaf_of_mem_edges hw

lemma mem_vertices_dropLeaves : v ∈ g.dropLeaves.vertices ↔ v ∈ g.vertices ∧ ∃ w, g.Edge v w := by
  rw [dropLeaves, List.mem_filter, Bool.not_eq_eq_eq_not, Bool.not_true, isLeaf_eq_false_iff]

lemma edge_dropLeaves : g.dropLeaves.Edge u v ↔ g.Edge u v ∧ ∃ w, g.Edge v w := by
  rw [Edge, dropLeaves, List.mem_filter, Bool.not_eq_eq_eq_not, Bool.not_true, isLeaf_eq_false_iff]
  rfl

lemma Ends.dropLeaves (h : g.Ends) : g.dropLeaves.Ends := by
  rintro ⟨u, v⟩ he
  obtain ⟨hedge, hnext⟩ := edge_dropLeaves.1 he
  exact mem_vertices_dropLeaves.2 ⟨h _ hedge, hnext⟩

/-- A graph in which an edge leaves every vertex stays as it is. -/
lemma dropLeaves_eq_self (hg : g.Ends) (h : ∀ v ∈ g.vertices, ∃ w, g.Edge v w) : g.dropLeaves = g := by
  have hleaf : ∀ v ∈ g.vertices, (!g.isLeaf v) = true := fun v hv => by
    rw [isLeaf_eq_false_iff.2 (h v hv), Bool.not_false]
  have hvertices : g.vertices.filter (fun v => !g.isLeaf v) = g.vertices := List.filter_eq_self.2 hleaf
  have hedges : g.edges.filter (fun e => !g.isLeaf e.2) = g.edges :=
    List.filter_eq_self.2 fun e he => hleaf e.2 (hg e he)
  rw [dropLeaves, hvertices, hedges]

/-- As long as there is a leaf, a round takes a vertex. -/
lemma size_dropLeaves_lt (hv : v ∈ g.vertices) (hleaf : ∀ w, ¬g.Edge v w) : g.dropLeaves.size < g.size := by
  refine List.length_filter_lt_length_iff_exists.2 ⟨v, hv, ?_⟩
  rw [Bool.not_eq_true, Bool.not_eq_false']
  by_contra hne
  obtain ⟨w, hw⟩ := isLeaf_eq_false_iff.1 (Bool.not_eq_true _ ▸ hne)
  exact hleaf w hw

/-! ### All rounds -/

/-- What is left is part of the graph, and its edges end at its vertices. -/
lemma dropLeavesTimes_sub (hg : g.Ends) (n : Nat) :
    (dropLeavesTimes n g).Ends ∧ (∀ v ∈ (dropLeavesTimes n g).vertices, v ∈ g.vertices) ∧
      ∀ u v, (dropLeavesTimes n g).Edge u v → g.Edge u v := by
  induction n generalizing g with
  | zero => exact ⟨hg, fun _ h => h, fun _ _ h => h⟩
  | succ n ih =>
    obtain ⟨hends, hvertices, hedges⟩ := ih hg.dropLeaves
    exact ⟨hends, fun v hv => (mem_vertices_dropLeaves.1 (hvertices v hv)).1,
      fun u v huv => (edge_dropLeaves.1 (hedges u v huv)).1⟩

lemma dropLeavesTimes_eq_self (hg : g.Ends) (h : ∀ v ∈ g.vertices, ∃ w, g.Edge v w) (n : Nat) :
    dropLeavesTimes n g = g := by
  induction n with
  | zero => rfl
  | succ n ih => rw [dropLeavesTimes, dropLeaves_eq_self hg h, ih]

/-- After as many rounds as there are vertices no leaf is left. -/
lemma exists_edge_dropLeavesTimes (hg : g.Ends) (hn : g.size ≤ n)
    (hv : v ∈ (dropLeavesTimes n g).vertices) : ∃ w, (dropLeavesTimes n g).Edge v w := by
  induction n generalizing g with
  | zero =>
    have hnil : g.vertices = [] := List.length_eq_zero_iff.1 (Nat.le_zero.1 hn)
    change v ∈ g.vertices at hv
    rw [hnil] at hv
    cases hv
  | succ n ih =>
    by_cases hleaf : ∀ u ∈ g.vertices, ∃ w, g.Edge u w
    · rw [dropLeavesTimes_eq_self hg hleaf] at hv ⊢
      exact hleaf v hv
    · push Not at hleaf
      obtain ⟨u, hu, hnone⟩ := hleaf
      have hlt := size_dropLeaves_lt hu hnone
      exact ih hg.dropLeaves (by omega) hv

/-- Vertices of a set in which each has a successor survive all rounds. -/
lemma mem_dropLeavesTimes {s : Set Nat} (hs : ∀ v ∈ s, ∃ w ∈ s, g.Edge v w) (hv : v ∈ s)
    (hmem : v ∈ g.vertices) (n : Nat) : v ∈ (dropLeavesTimes n g).vertices := by
  induction n generalizing g with
  | zero => exact hmem
  | succ n ih =>
    refine ih (fun u hu => ?_) (mem_vertices_dropLeaves.2 ⟨hmem, ?_⟩)
    · obtain ⟨w, hw, huw⟩ := hs u hu
      obtain ⟨x, -, hwx⟩ := hs w hw
      exact ⟨w, hw, edge_dropLeaves.2 ⟨huw, x, hwx⟩⟩
    · obtain ⟨w, -, hvw⟩ := hs v hv
      exact ⟨w, hvw⟩

/-- What pruning leaves are the vertices from which a cycle can be reached. -/
theorem mem_vertices_prune (hg : g.Ends) :
    v ∈ g.prune.vertices ↔ v ∈ g.vertices ∧ ReachesCycle g.Edge v := by
  obtain ⟨hends, hvertices, hedges⟩ := dropLeavesTimes_sub hg g.size
  constructor
  · intro hv
    refine ⟨hvertices v hv, ?_⟩
    refine ReachesCycle.of_finite (s := { u | u ∈ g.prune.vertices }) (List.finite_toSet _) ?_ hv
    intro u hu
    obtain ⟨w, hw⟩ := exists_edge_dropLeavesTimes hg (Nat.le_refl _) hu
    exact ⟨w, hends _ hw, hedges u w hw⟩
  · rintro ⟨hmem, hcycle⟩
    refine mem_dropLeavesTimes (s := { u | ReachesCycle g.Edge u }) (fun u hu => ?_) hcycle hmem g.size
    obtain ⟨w, huw, hw⟩ := ReachesCycle.exists_next hu
    exact ⟨w, hw, huw⟩

end Digraph

end Pep10
