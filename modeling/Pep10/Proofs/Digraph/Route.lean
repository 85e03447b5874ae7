import Mathlib.Data.List.Perm.Subperm
import Mathlib.Logic.Relation
import Pep10.Proofs.Digraph.Cycles
import Pep10.Digraph.Route

/-!
# What a search for routes finds

A search finds routes only (`isRoute_of_mem_fromStart`), and among the vertices of a finite set that
no step leaves, as many layers as there are vertices suffice for everything that can be reached
(`exists_route_of_reflTransGen`).  The reason is that a layer without a route leaves nothing to be
found, and every other layer takes at least one vertex.
-/

namespace Pep10

open Relation (ReflTransGen)

namespace Route

variable {successors : Nat → List Nat} {start u v w n : Nat} {route rest : Route} {layer : Layer}
  {base whole : List Nat}

/-! ### Routes -/

/-- A step leads from a vertex to one of its successors. -/
def Step (successors : Nat → List Nat) (a b : Nat) : Prop := b ∈ successors a

/-- The vertices of a route from its end back to the start. -/
inductive IsRoute (successors : Nat → List Nat) (start : Nat) : Route → Prop
  | start : IsRoute successors start [start]
  | step {v w : Nat} {rest : Route} (hroute : IsRoute successors start (v :: rest))
      (hstep : w ∈ successors v) : IsRoute successors start (w :: v :: rest)

/-- The end of a route can be reached. -/
lemma IsRoute.reflTransGen (h : IsRoute successors start (v :: rest)) :
    ReflTransGen (Step successors) start v := by
  generalize hr : v :: rest = r at h
  induction h generalizing v rest with
  | start =>
    cases hr
    exact .refl
  | step _ hstep ih =>
    cases hr
    exact (ih rfl).tail hstep

/-- A route that ends elsewhere begins with a step. -/
lemma IsRoute.exists_first (h : IsRoute successors start (v :: rest)) (hne : v ≠ start) :
    ∃ first path, (v :: rest).reverse.drop 1 = first :: path ∧ first ∈ successors start ∧
      ReflTransGen (Step successors) first v := by
  -- A route that goes through the start again has a first step all the same.
  have hlong : ∀ {r}, IsRoute successors start r → ∀ {v u rest}, r = v :: u :: rest →
      ∃ first path, r.reverse.drop 1 = first :: path ∧ first ∈ successors start ∧
        ReflTransGen (Step successors) first v := by
    intro r hr
    induction hr with
    | start => nofun
    | @step v w rest hroute hstep ih =>
      rintro _ _ _ ⟨⟩
      cases hroute with
      | start => exact ⟨w, [], rfl, hstep, .refl⟩
      | step hroute hstep' =>
        obtain ⟨first, path, hpath, hfirst, hreach⟩ := ih rfl
        refine ⟨first, path ++ [w], ?_, hfirst, hreach.tail hstep⟩
        rw [List.reverse_cons, List.drop_append_of_le_length (by simp), hpath, List.cons_append]
  cases h with
  | start => exact absurd rfl hne
  | step hroute hstep => exact hlong (.step hroute hstep) rfl

/-! ### What is found is a route -/

lemma exists_of_mem_visit {r : Route} (h : r ∈ (layer.visit route v).routes) :
    r ∈ layer.routes ∨ r = v :: route := by
  unfold Layer.visit at h
  split at h
  · exact .inl h
  · exact (List.mem_append.1 h).imp_right List.mem_singleton.1

lemma exists_of_mem_extend {r : Route} (h : r ∈ (layer.extend successors route).routes) :
    r ∈ layer.routes ∨ ∃ v u rest, r = v :: u :: rest ∧ route = u :: rest ∧ v ∈ successors u := by
  cases route with
  | nil => exact .inl h
  | cons u rest =>
    have hfold : ∀ (vs : List Nat) (layer : Layer), r ∈ (vs.foldl (Layer.visit (u :: rest)) layer).routes →
        r ∈ layer.routes ∨ ∃ v ∈ vs, r = v :: u :: rest := by
      intro vs
      induction vs with
      | nil => exact fun _ h => .inl h
      | cons v vs ih =>
        intro layer h
        rcases ih _ h with h | ⟨w, hw, heq⟩
        · rcases exists_of_mem_visit h with h | heq
          · exact .inl h
          · exact .inr ⟨v, List.mem_cons_self, heq⟩
        · exact .inr ⟨w, List.mem_cons_of_mem _ hw, heq⟩
    rcases hfold _ layer h with h | ⟨v, hv, heq⟩
    · exact .inl h
    · exact .inr ⟨v, u, rest, heq, rfl, hv⟩

/-- The routes of the next layer extend those of this one by a step. -/
lemma exists_of_mem_next {r : Route} (h : r ∈ (layer.next successors).routes) :
    ∃ v u rest, r = v :: u :: rest ∧ u :: rest ∈ layer.routes ∧ v ∈ successors u := by
  have hfold : ∀ (routes : List Route) (acc : Layer),
      r ∈ (routes.foldl (Layer.extend successors) acc).routes →
      r ∈ acc.routes ∨ ∃ v u rest, r = v :: u :: rest ∧ u :: rest ∈ routes ∧ v ∈ successors u := by
    intro routes
    induction routes with
    | nil => exact fun _ h => .inl h
    | cons route routes ih =>
      intro acc h
      rcases ih _ h with h | ⟨v, u, rest, heq, hmem, hv⟩
      · rcases exists_of_mem_extend h with h | ⟨v, u, rest, heq, rfl, hv⟩
        · exact .inl h
        · exact .inr ⟨v, u, rest, heq, List.mem_cons_self, hv⟩
      · exact .inr ⟨v, u, rest, heq, List.mem_cons_of_mem _ hmem, hv⟩
  exact (hfold _ _ h).resolve_left List.not_mem_nil

lemma isRoute_next (h : ∀ r ∈ layer.routes, IsRoute successors start r) :
    ∀ r ∈ (layer.next successors).routes, IsRoute successors start r := by
  intro r hr
  obtain ⟨v, u, rest, rfl, hmem, hv⟩ := exists_of_mem_next hr
  exact .step (h _ hmem) hv

/-- A search from a start finds routes from that start. -/
lemma isRoute_of_mem_fromStart (h : route ∈ fromStart successors n start) :
    IsRoute successors start route := by
  have hwithin : ∀ (n : Nat) (layer : Layer), (∀ r ∈ layer.routes, IsRoute successors start r) →
      ∀ r ∈ layer.routesWithin successors n, IsRoute successors start r := by
    intro n
    induction n with
    | zero => exact fun _ h => h
    | succ n ih =>
      intro layer h r hr
      rcases List.mem_append.1 hr with hr | hr
      · exact h r hr
      · exact ih _ (isRoute_next h) r hr
  refine hwithin n _ (fun r hr => ?_) route h
  obtain rfl := List.mem_singleton.1 hr
  exact .start

/-! ### What can be reached is found -/

lemma mem_seen_visit : w ∈ (layer.visit route v).seen ↔ w = v ∨ w ∈ layer.seen := by
  unfold Layer.visit
  split
  next hseen =>
    refine ⟨.inr, ?_⟩
    rintro (rfl | hw)
    · simpa using hseen
    · exact hw
  · exact List.mem_cons

lemma mem_seen_extend : w ∈ (layer.extend successors (u :: rest)).seen ↔
    w ∈ successors u ∨ w ∈ layer.seen := by
  change w ∈ ((successors u).foldl (Layer.visit (u :: rest)) layer).seen ↔ _
  generalize successors u = vs
  induction vs generalizing layer with
  | nil => simp
  | cons v vs ih =>
    rw [List.foldl_cons, ih, mem_seen_visit, List.mem_cons]
    grind

/-- The next layer has seen what this one has, and the successors of the ends of its routes. -/
lemma mem_seen_next : w ∈ (layer.next successors).seen ↔
    (∃ u rest, u :: rest ∈ layer.routes ∧ w ∈ successors u) ∨ w ∈ layer.seen := by
  have hfold : ∀ (routes : List Route) (acc : Layer),
      w ∈ (routes.foldl (Layer.extend successors) acc).seen ↔
        (∃ u rest, u :: rest ∈ routes ∧ w ∈ successors u) ∨ w ∈ acc.seen := by
    intro routes
    induction routes with
    | nil => simp
    | cons route routes ih =>
      intro acc
      rw [List.foldl_cons, ih]
      cases route with
      | nil => simp [Layer.extend]
      | cons u rest =>
        rw [mem_seen_extend]
        simp only [List.mem_cons, List.cons.injEq]
        constructor
        · rintro (⟨u', rest', hmem, hw⟩ | hw | hw)
          · exact .inl ⟨u', rest', .inr hmem, hw⟩
          · exact .inl ⟨u, rest, .inl ⟨rfl, rfl⟩, hw⟩
          · exact .inr hw
        · rintro (⟨u', rest', ⟨rfl, rfl⟩ | hmem, hw⟩ | hw)
          · exact .inr (.inl hw)
          · exact .inl ⟨u', rest', hmem, hw⟩
          · exact .inr (.inr hw)
  exact hfold _ _

/-- What a layer under way knows, `base` being what had been seen before: every vertex that is new
has a route of its own. -/
structure Layer.Fresh (base : List Nat) (layer : Layer) : Prop where
  nodup : layer.seen.Nodup
  length_eq : layer.seen.length = base.length + layer.routes.length
  headed : ∀ v ∈ layer.seen, v ∈ base ∨ ∃ rest, v :: rest ∈ layer.routes
  heads : ∀ v rest, v :: rest ∈ layer.routes → v ∈ layer.seen

lemma Layer.Fresh.visit (h : Fresh base layer) (route : Route) (v : Nat) :
    Fresh base (layer.visit route v) := by
  unfold Layer.visit
  split
  · exact h
  next hseen =>
    refine ⟨List.nodup_cons.2 ⟨by simpa using hseen, h.nodup⟩, ?_, fun w hw => ?_, fun w rest hw => ?_⟩
    · simp only [List.length_cons, List.length_append, List.length_nil, h.length_eq]
      omega
    · rcases List.mem_cons.1 hw with rfl | hw
      · exact .inr ⟨route, List.mem_append_right _ (List.mem_singleton.2 rfl)⟩
      · exact (h.headed w hw).imp_right fun ⟨rest, hmem⟩ => ⟨rest, List.mem_append_left _ hmem⟩
    · rcases List.mem_append.1 hw with hw | hw
      · exact List.mem_cons_of_mem _ (h.heads w rest hw)
      · cases List.mem_singleton.1 hw
        exact List.mem_cons_self

lemma Layer.Fresh.extend (h : Fresh base layer) (route : Route) :
    Fresh base (layer.extend successors route) := by
  cases route with
  | nil => exact h
  | cons u rest =>
    exact List.foldlRecOn (successors u) (Layer.visit (u :: rest)) h fun _ h v _ => h.visit _ v

lemma Layer.Fresh.next (h : layer.seen.Nodup) : Fresh layer.seen (layer.next successors) := by
  have hstart : Fresh layer.seen { layer with routes := [] } := ⟨h, rfl, fun v hv => .inl hv, nofun⟩
  exact List.foldlRecOn layer.routes (Layer.extend successors) hstart fun _ h route _ => h.extend route

/-- What the search keeps from layer to layer: of a vertex that has been seen, either a route is at
hand or all successors have been seen, too. -/
structure Layer.Explores (successors : Nat → List Nat) (whole : List Nat) (layer : Layer) : Prop where
  nodup : layer.seen.Nodup
  subset : ∀ v ∈ layer.seen, v ∈ whole
  heads : ∀ v rest, v :: rest ∈ layer.routes → v ∈ layer.seen
  frontier : ∀ v ∈ layer.seen, (∃ rest, v :: rest ∈ layer.routes) ∨ ∀ w ∈ successors v, w ∈ layer.seen

namespace Layer.Explores

/-- The next layer sees the successors of everything that has been seen. -/
lemma mem_seen_next (h : layer.Explores successors whole) (hu : u ∈ layer.seen) (hv : v ∈ successors u) :
    v ∈ (layer.next successors).seen := by
  rcases h.frontier u hu with ⟨rest, hmem⟩ | hseen
  · exact Route.mem_seen_next.2 (.inl ⟨u, rest, hmem, hv⟩)
  · exact Route.mem_seen_next.2 (.inr (hseen v hv))

lemma next (h : layer.Explores successors whole) (hclosed : ∀ a ∈ whole, ∀ b ∈ successors a, b ∈ whole) :
    (layer.next successors).Explores successors whole := by
  have hfresh : Layer.Fresh layer.seen (layer.next successors) := .next h.nodup
  refine ⟨hfresh.nodup, fun a ha => ?_, hfresh.heads, fun a ha => ?_⟩
  · rcases Route.mem_seen_next.1 ha with ⟨b, rest, hmem, hab⟩ | ha
    · exact hclosed b (h.subset b (h.heads b rest hmem)) a hab
    · exact h.subset a ha
  · rcases hfresh.headed a ha with hold | hmem
    · exact .inr fun b hb => h.mem_seen_next hold hb
    · exact .inl hmem

/-- When a layer has found nothing new, everything that can be reached has been seen. -/
lemma mem_seen_of_routes_nil (h : layer.Explores successors whole) (hroutes : (layer.next successors).routes = [])
    (hu : u ∈ layer.seen) (hreach : ReflTransGen (Step successors) u v) : v ∈ layer.seen := by
  induction hreach with
  | refl => exact hu
  | tail _ hstep ih =>
    refine ((Layer.Fresh.next h.nodup).headed _ (h.mem_seen_next ih hstep)).resolve_right ?_
    rintro ⟨rest, hmem⟩
    rw [hroutes] at hmem
    cases hmem

end Layer.Explores

/-- In a finite set of vertices that no step leaves, the search finds a route to everything that can
be reached from a vertex that has been seen, unless that has been seen before. -/
lemma exists_route_of_layer (layer : Layer) (h : layer.Explores successors whole)
    (hclosed : ∀ a ∈ whole, ∀ b ∈ successors a, b ∈ whole) (hlength : whole.length ≤ n + layer.seen.length)
    (hu : u ∈ layer.seen) (hreach : ReflTransGen (Step successors) u v) :
    v ∈ layer.seen ∨ ∃ rest, v :: rest ∈ layer.routesWithin successors n := by
  induction n generalizing layer with
  | zero =>
    -- Everything has been seen.
    have hall : whole ⊆ layer.seen :=
      ((h.nodup.subperm h.subset).perm_of_length_le (by omega)).symm.subset
    refine .inl (hall ?_)
    induction hreach with
    | refl => exact h.subset u hu
    | tail _ hstep ih => exact hclosed _ ih _ hstep
  | succ n ih =>
    have hfresh : Layer.Fresh layer.seen (layer.next successors) := .next h.nodup
    cases hroutes : (layer.next successors).routes with
    | nil => exact .inl (h.mem_seen_of_routes_nil hroutes hu hreach)
    | cons route routes =>
      -- Every route of the next layer takes a vertex, so that one layer less suffices from there.
      have hgrows : layer.seen.length < (layer.next successors).seen.length := by
        rw [hfresh.length_eq, hroutes, List.length_cons]
        omega
      rcases ih (layer.next successors) (h.next hclosed) (by omega) (mem_seen_next.2 (.inr hu)) with
        hseen | ⟨rest, hmem⟩
      · refine (hfresh.headed v hseen).imp_right fun ⟨rest, hmem⟩ => ⟨rest, ?_⟩
        refine List.mem_append_right _ ?_
        cases n with
        | zero => exact hmem
        | succ n => exact List.mem_append_left _ hmem
      · exact .inr ⟨rest, List.mem_append_right _ hmem⟩

/-- In a finite set of vertices that no step leaves, the search finds a route to everything that can
be reached from the start. -/
lemma exists_route_of_reflTransGen (whole : List Nat) (hclosed : ∀ a ∈ whole, ∀ b ∈ successors a, b ∈ whole)
    (hlength : whole.length ≤ n + 1) (hstart : start ∈ whole)
    (hreach : ReflTransGen (Step successors) start v) :
    ∃ rest, v :: rest ∈ fromStart successors n start := by
  have hexplores : Layer.Explores successors whole ⟨[start], [[start]]⟩ :=
    ⟨List.nodup_singleton start, by simpa using hstart, by simp, by simp⟩
  rcases exists_route_of_layer _ hexplores hclosed hlength List.mem_cons_self hreach with hseen | hfound
  · obtain rfl := List.mem_singleton.1 hseen
    refine ⟨[], ?_⟩
    cases n with
    | zero => exact List.mem_cons_self
    | succ n => exact List.mem_append_left _ List.mem_cons_self
  · exact hfound

/-- As many layers as there are vertices suffice. -/
theorem reaches_iff (hclosed : ∀ a < n, ∀ b ∈ successors a, b < n) (hstart : start < n) :
    reaches successors n start v = true ↔ ReflTransGen (Step successors) start v := by
  rw [reaches, List.any_eq_true]
  constructor
  · rintro ⟨route, hmem, hhead⟩
    have hroute := isRoute_of_mem_fromStart hmem
    cases route with
    | nil => cases hhead
    | cons u rest =>
      obtain rfl : u = v := by simpa using hhead
      exact hroute.reflTransGen
  · intro hreach
    obtain ⟨rest, hmem⟩ : ∃ rest, v :: rest ∈ fromStart successors n start :=
      exists_route_of_reflTransGen (List.range n) (by simpa using hclosed) (by simp)
        (by simpa using hstart) hreach
    exact ⟨_, hmem, by simp⟩

end Route

namespace Digraph

variable {g : Digraph} {source target : Nat}

lemma mem_successors {u v : Nat} : v ∈ g.successors u ↔ g.Edge u v := by
  simp only [successors, List.mem_map, List.mem_filter, beq_iff_eq, Edge]
  constructor
  · rintro ⟨⟨a, b⟩, ⟨hmem, rfl⟩, rfl⟩
    exact hmem
  · exact fun h => ⟨(u, v), ⟨h, rfl⟩, rfl⟩

lemma step_successors : Route.Step g.successors = g.Edge := by
  funext u v
  exact propext mem_successors

/-- If a vertex can be reached from another one, then a path is found, and its first vertex is a
step ahead. -/
lemma exists_shortestPath? (hends : g.Ends) (hsource : source ∈ g.vertices) (hne : target ≠ source)
    (hreach : ReflTransGen g.Edge source target) :
    ∃ first path, g.shortestPath? source target = some (first :: path) ∧ g.Edge source first ∧
      ReflTransGen g.Edge first target := by
  rw [← step_successors] at hreach ⊢
  obtain ⟨rest, hmem⟩ := Route.exists_route_of_reflTransGen (n := g.size) g.vertices
    (fun a _ b hb => hends _ (mem_successors.1 hb)) (Nat.le_succ _) hsource hreach
  rw [shortestPath?]
  cases hfind : (Route.fromStart g.successors g.size source).find?
      fun route => route.head? == some target with
  | none =>
    have hnot := List.find?_eq_none.1 hfind _ hmem
    simp at hnot
  | some route =>
    have hroute := Route.isRoute_of_mem_fromStart (List.mem_of_find?_eq_some hfind)
    have hhead : route.head? = some target := by simpa using List.find?_some hfind
    cases route with
    | nil => cases hhead
    | cons v rest =>
      cases hhead
      obtain ⟨first, path, hpath, hfirst, hrest⟩ := hroute.exists_first hne
      exact ⟨first, path, congrArg some hpath, hfirst, hrest⟩

end Digraph

end Pep10
