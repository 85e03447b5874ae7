import Mathlib.Algebra.Order.Ring.Nat
import Mathlib.Data.List.Perm.Basic
import Pep10.Proofs.Program.Descent
import Pep10.Proofs.Program.Rom

/-!
# Copies and originals

Linking binds every call to a copy of its own, with a symbol table of its own, and leaves the
instances that are copied alone.  The first half is said by intervals: the calls in an expansion, in
order, lead to the instances of an interval.  The second half is a frame property of relocation: it
writes to the instances of the interval and to the root, and to their symbol tables, and to nothing
else.
-/

namespace Pep10

/-- The instance that is called at a site. -/
def Site.target? (site : Site) : Option Nat := site.line.statement.target?

namespace Program

variable {p p' q : Program} {lo mid hi table depth id index i : Nat} {lines lines' : List Line}
  {rootLine : Option Nat} {emits : Bool} {a a' b start below : Int}

/-! ### The instances of an expansion -/

/-- The interval of a call and of what comes behind it. -/
lemma range'_call (hlo : lo + 1 ≤ mid) (hhi : mid ≤ hi) :
    List.range' lo (hi - lo) =
      lo :: (List.range' (lo + 1) (mid - (lo + 1)) ++ List.range' mid (hi - mid)) := by
  obtain ⟨m, rfl⟩ := Nat.exists_eq_add_of_le hlo
  obtain ⟨n, rfl⟩ := Nat.exists_eq_add_of_le hhi
  rw [Nat.add_sub_cancel_left, Nat.add_sub_cancel_left, List.range'_append_1, ← List.range'_succ]
  congr 1
  omega

/-- The calls at the sites of some lines lead to the instances of the interval, in order. -/
lemma Spans.targets_sites (h : Spans p lo lines hi) (hdepth : hi - lo ≤ depth) :
    (p.sitesOfLines depth rootLine id index lines).filterMap Site.target? =
      List.range' lo (hi - lo) := by
  induction h generalizing depth rootLine id index with
  | nil => rw [Nat.sub_self]; rfl
  | @plain lo hi line _ hline _ ih =>
    have hsite : Site.target? ⟨id, index, rootLine.getD line.number, line⟩ = none := hline
    rw [sitesOfLines_plain hline, List.filterMap_cons_none hsite, ih hdepth]
  | @call lo mid hi line _ hline hbody hrest ihbody ihrest =>
    have h1 := hbody.le
    have h2 := hrest.le
    obtain ⟨depth, rfl⟩ : ∃ d, depth = d + 1 := ⟨depth - 1, by omega⟩
    have hsite : Site.target? ⟨id, index, rootLine.getD line.number, line⟩ = some lo := hline
    rw [sitesOfLines_call hline, List.filterMap_cons_some hsite, List.filterMap_append,
      ihbody (by omega), ihrest (by omega), range'_call h1 h2]

/-- Lines are counted site by site: those at hand and those of the instances in the interval. -/
lemma Spans.countP_sites (h : Spans p lo lines hi) (hdepth : hi - lo ≤ depth)
    (f : Nat → Line → Bool) :
    (p.sitesOfLines depth rootLine id index lines).countP (fun site => f site.owner site.line) =
      lines.countP (f id) +
        ((List.range' lo (hi - lo)).map fun j => (p.inst j).lines.countP (f j)).sum := by
  induction h generalizing depth rootLine id index with
  | nil => rw [Nat.sub_self]; rfl
  | plain hline _ ih =>
    rw [sitesOfLines_plain hline, List.countP_cons, List.countP_cons, ih hdepth]
    dsimp only
    omega
  | @call lo mid hi line _ hline hbody hrest ihbody ihrest =>
    have h1 := hbody.le
    have h2 := hrest.le
    obtain ⟨depth, rfl⟩ : ∃ d, depth = d + 1 := ⟨depth - 1, by omega⟩
    rw [sitesOfLines_call hline, List.countP_cons, List.countP_cons, List.countP_append,
      ihbody (by omega), ihrest (by omega), range'_call h1 h2, List.map_cons, List.sum_cons,
      List.map_append, List.sum_append]
    dsimp only
    omega

lemma levels_append (n : Nat) (ids ids' : List Nat) :
    (p.levels n (ids ++ ids')).Perm (p.levels n ids ++ p.levels n ids') := by
  induction n generalizing ids ids' with
  | zero => exact .nil
  | succ n ih =>
    rw [levels, levels, levels, List.flatMap_append, List.append_assoc, List.append_assoc]
    refine .append_left ids ?_
    refine ((ih _ _).append_left ids').trans ?_
    rw [← List.append_assoc, ← List.append_assoc]
    exact List.perm_append_comm.append_right _

/-- Level by level, some lines call the instances of the interval, each of them once. -/
lemma Spans.levels_perm (h : Spans p lo lines hi) {n : Nat} (hn : hi - lo ≤ n) :
    (p.levels n (lines.filterMap fun line => line.statement.target?)).Perm
      (List.range' lo (hi - lo)) := by
  induction h generalizing n with
  | nil => rw [Nat.sub_self, List.filterMap_nil, levels_nil]; rfl
  | plain hline _ ih =>
    rw [List.filterMap_cons_none (f := fun line : Line => line.statement.target?) hline]
    exact ih hn
  | @call lo mid hi line rest hline hbody hrest ihbody ihrest =>
    have h1 := hbody.le
    have h2 := hrest.le
    obtain ⟨n, rfl⟩ : ∃ m, n = m + 1 := ⟨n - 1, by omega⟩
    have hcalled : p.levels (n + 1) [lo] = lo :: p.levels n (p.callsOf lo) := by
      rw [levels, List.flatMap_singleton]
      rfl
    rw [List.filterMap_cons_some (f := fun line : Line => line.statement.target?) hline,
      range'_call h1 h2]
    refine (levels_append (n + 1) [lo] _).trans ?_
    rw [hcalled]
    exact ((ihbody (by omega)).cons lo).append (ihrest (by omega))

/-- The instances that can be reached from the root are the root and those of the interval. -/
lemma Spans.reachable_perm (h : Spans p lo (p.inst root).lines p.instances.size) (hlo : root < lo) :
    (p.reachable root).Perm (root :: List.range' lo (p.instances.size - lo)) := by
  have hle := h.le
  have hroot : p.reachable root = root :: p.levels (p.instances.size - 1) (p.callsOf root) := by
    rw [reachable, show p.instances.size = p.instances.size - 1 + 1 by omega, levels,
      List.flatMap_singleton]
    rfl
  rw [hroot]
  exact (h.levels_perm (by omega)).cons root

lemma Spans.mem_reachable_iff (h : Spans p lo (p.inst root).lines p.instances.size) (hlo : root < lo)
    {id : Nat} : id ∈ p.reachable root ↔ id = root ∨ lo ≤ id ∧ id < p.instances.size := by
  have hle := h.le
  rw [(h.reachable_perm hlo).mem_iff, List.mem_cons, List.mem_range'_1]
  omega

/-! ### What relocation leaves alone -/

/-- Moving a label changes one symbol table. -/
lemma table_moveLabel (line : Line) (a : Int) (hne : i ≠ table) :
    (p.moveLabel table line a).symbols.table i = p.symbols.table i := by
  unfold moveLabel
  split
  · rfl
  · split
    · rfl
    · exact SymbolStore.table_modify_ne hne

/-- Laying lines out changes the symbol tables of the instances that are laid out. -/
lemma Lays.table_eq (h : Lays emits lo hi table p a lines p' a' lines') (hne : i ≠ table)
    (hother : ∀ j, lo ≤ j → j < hi → i ≠ (p.inst j).table) :
    p'.symbols.table i = p.symbols.table i := by
  induction h with
  | nil => rfl
  | plain _ _ ih => rw [ih hne (by simpa using hother), table_moveLabel _ _ hne]
  | @call lo mid hi table p p₁ p' a a₁ a' line rest rest' body _ hlt hbody hrest ihbody ihrest =>
    have h1 := hbody.le
    have h2 := hrest.le
    have htable : ∀ j, ((p₁.setLines lo body).inst j).table = (p.inst j).table := by
      intro j
      have hj := hbody.reshaped.table_eq j
      rw [inst_moveLabel] at hj
      by_cases hlo : j = lo
      · subst hlo
        rw [inst_setLines_self (by rw [hbody.reshaped.size_eq, instances_moveLabel]; exact hlt), ← hj]
      · rw [inst_setLines_ne hlo, hj]
    rw [ihrest hne fun j hj hj' => by rw [htable]; exact hother j (by omega) hj']
    change p₁.symbols.table i = _
    rw [ihbody (hother lo (Nat.le_refl _) (by omega)) fun j hj hj' => by
      rw [inst_moveLabel]; exact hother j (by omega) (by omega), table_moveLabel _ _ hne]

/-- Laying lines out up to an end changes the symbol tables of the instances that are laid out. -/
lemma LaysBefore.table_eq (h : LaysBefore lo hi table p b lines p' a lines') (hne : i ≠ table)
    (hother : ∀ j, lo ≤ j → j < hi → i ≠ (p.inst j).table) :
    p'.symbols.table i = p.symbols.table i := by
  induction h with
  | nil => rfl
  | plain _ _ _ _ ih => rw [table_moveLabel _ _ hne, ih hne hother]
  | @call lo mid hi table p p₁ p₂ a a₁ b b₁ line line' rest rest' body _ hlt hrest _ _ hbody ih =>
    have h1 := hbody.le
    have h2 := hrest.le
    change p₂.symbols.table i = _
    have hbody' : ∀ j, lo ≤ j → j < hi → i ≠ (p₁.inst j).table := fun j hj hj' => by
      rw [hrest.reshaped.table_eq]
      exact hother j hj hj'
    rw [hbody.table_eq (hbody' lo (Nat.le_refl _) (by omega)) fun j hj hj' => by
      rw [inst_moveLabel]; exact hbody' j (by omega) (by omega), table_moveLabel _ _ hne,
      ih hne fun j hj hj' => hother j (by omega) hj']

namespace Relocates

/-- Relocation leaves the instances alone that were copied. -/
lemma inst_eq (h : Relocates p q lo start below) (hid : id < lo) (hne : id ≠ root) :
    q.inst id = p.inst id := by
  obtain ⟨mid, p₁, p₂, a₁, ram', rom', hlays, hbefore, hothers, -⟩ := h.layout
  have hmid := hbefore.le
  rw [hothers id hne, hbefore.reshaped.inst_eq id (.inl hid),
    hlays.reshaped.inst_eq id (.inl (by omega))]

/-- Relocation leaves the symbol tables alone that belong neither to the root nor to a copy. -/
lemma table_eq (h : Relocates p q lo start below) (hne : i ≠ p.rootTable)
    (hother : ∀ j, lo ≤ j → j < p.instances.size → i ≠ (p.inst j).table) :
    q.symbols.table i = p.symbols.table i := by
  obtain ⟨mid, p₁, p₂, a₁, ram', rom', hlays, hbefore, -, -, -, hsymbols, -⟩ := h.layout
  have h1 := hbefore.le
  have h2 := hlays.le
  rw [hsymbols, hbefore.table_eq hne fun j hj hj' => by
    rw [hlays.reshaped.table_eq]; exact hother j hj (by omega),
    hlays.table_eq hne fun j hj hj' => hother j (by omega) hj']

end Relocates

end Program

end Pep10
