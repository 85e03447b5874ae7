import Mathlib.Data.Finset.Card
import Mathlib.Data.Finset.Range
import Pep10.Proofs.Program.Expansion
import Pep10.Proofs.Program.Reading

/-!
# Assembled programs

What is known of a program when it has been assembled.  `Assembling` is the invariant of the
assembly: an instance is as fresh as it was found, or its lines have been read and its symbol table
records them, and the instances that it calls have been assembled or are waiting for their turn.
All these can be reached from the root, and the library has grown by the system calls that their
lines offer.  `Assembles` tells what changes when one instance is assembled, and the invariant is
shown to be kept by that.

`Ready` collects what linking can rely on: all instances that are called have been assembled, and
calls go down in rank, the rank being less than the number of instances.
-/

namespace Pep10.Program

variable {p q : Program} {lib : MacroLibrary} {text : String} {kind : ModuleKind}
  {id : Nat} {pending rest : List Nat} {s : Progress}

/-! ### Ranks of instances -/

/-- The number of instances whose module ranks lower than the module of the given instance. -/
def instanceRank (p : Program) (rank : Nat → Nat) (id : Nat) : Nat :=
  ((Finset.range p.instances.size).filter fun j =>
    rank (p.inst j).moduleId < rank (p.inst id).moduleId).card

/-- There are fewer ranks than instances. -/
lemma instanceRank_lt {rank : Nat → Nat} (hid : id < p.instances.size) :
    p.instanceRank rank id < p.instances.size := by
  have hsub : (Finset.range p.instances.size).filter (fun j =>
      rank (p.inst j).moduleId < rank (p.inst id).moduleId) ⊂ Finset.range p.instances.size := by
    refine Finset.filter_ssubset.2 ⟨id, Finset.mem_range.2 hid, Nat.lt_irrefl _⟩
  simpa [instanceRank] using Finset.card_lt_card hsub

/-- An instance of a module with a lower rank has a lower rank. -/
lemma instanceRank_lt_of_lt {rank : Nat → Nat} {target : Nat} (htarget : target < p.instances.size)
    (h : rank (p.inst target).moduleId < rank (p.inst id).moduleId) :
    p.instanceRank rank target < p.instanceRank rank id := by
  refine Finset.card_lt_card (Finset.ssubset_iff_subset_ne.2 ⟨fun j hj => ?_, fun heq => ?_⟩)
  · rw [Finset.mem_filter] at hj ⊢
    exact ⟨hj.1, Nat.lt_trans hj.2 h⟩
  · have hmem : target ∈ (Finset.range p.instances.size).filter fun j =>
        rank (p.inst j).moduleId < rank (p.inst id).moduleId :=
      Finset.mem_filter.2 ⟨Finset.mem_range.2 htarget, h⟩
    rw [← heq, Finset.mem_filter] at hmem
    exact Nat.lt_irrefl _ hmem.2

/-! ### The invariant -/

/-- The lines of an instance have been read, and their marks have been entered into its symbol
table. -/
structure Assembled (p : Program) (lib : MacroLibrary) (id : Nat) (i : Instance)
    (table : SymbolTable) : Prop where
  reads : ReadsLines p lib 0 (p.sourceOf id) i.lines
  table_eq : table = (i.lines.flatMap Line.marks).foldl SymbolTable.enter {}
  burn_eq : i.burn = Burn.ofLines i.lines

/-- The symbol table of an assembled instance records its lines. -/
lemma Assembled.records {i : Instance} {table : SymbolTable} (h : Assembled p lib id i table) :
    table.Records (i.lines.flatMap Line.marks) := by
  rw [h.table_eq]
  exact Line.records_lines SymbolTable.records_nil i.lines

/-- The invariant of the assembly of a program `p`. -/
structure Assembling (p : Program) (lib : MacroLibrary) (s : Progress) (pending : List Nat) :
    Prop where
  modules_eq : s.program.modules = p.modules
  size_eq : s.program.instances.size = p.instances.size
  symbols_eq : s.program.symbols.size = p.symbols.size
  inst_eq : ∀ id, (s.program.inst id).moduleId = (p.inst id).moduleId ∧
    (s.program.inst id).args = (p.inst id).args ∧ (s.program.inst id).table = (p.inst id).table
  library : lib.Extends s.library
  offered : ∀ m ∈ s.library.macros, m ∈ lib.macros ∨ ∃ id < p.instances.size,
    (s.program.inst id).assembled = true ∧ ∃ line ∈ (s.program.inst id).lines, line.statement.Offers m
  fresh : ∀ id < p.instances.size, (s.program.inst id).assembled = false →
    s.program.inst id = p.inst id ∧ s.program.symbols.table id = {}
  done : ∀ id < p.instances.size, (s.program.inst id).assembled = true →
    Assembled p lib id (s.program.inst id) (s.program.symbols.table id)
  targets : ∀ id < p.instances.size, (s.program.inst id).assembled = true →
    ∀ line ∈ (s.program.inst id).lines, ∀ target, line.statement.target? = some target →
      (s.program.inst target).assembled = true ∨ target ∈ pending
  root_done : (s.program.inst root).assembled = true ∨ root ∈ pending
  reached : ∀ id < p.instances.size, (s.program.inst id).assembled = true ∨ id ∈ pending →
    s.program.Reaches root id

/-- Reading consults nothing that assembling changes. -/
lemma readContext_congr (hm : q.modules = p.modules)
    (hsize : q.instances.size = p.instances.size)
    (hinst : ∀ id, (q.inst id).moduleId = (p.inst id).moduleId ∧ (q.inst id).args = (p.inst id).args)
    (lib : MacroLibrary) : q.readContext lib = p.readContext lib := by
  have hsystem : q.isSystem = p.isSystem := by rw [isSystem, isSystem, Program.module, hm]; rfl
  have hof : ∀ m, q.instancesOf m = p.instancesOf m := by
    intro m
    rw [instancesOf, instancesOf, hsize]
    simp only [(hinst _).1]
  have hnamed : q.instanceNamed? = p.instanceNamed? := by
    funext name args
    rw [instanceNamed?, instanceNamed?, moduleNamed?, moduleNamed?, hm]
    simp only [instance?, hof, (hinst _).2]
  rw [readContext, readContext, hsystem, hnamed]

lemma ReadsLines.congr {number : Nat} {sources : List String} {lines : List Line}
    (h : ReadsLines q lib number sources lines)
    (hctx : ∀ lib, q.readContext lib = p.readContext lib) :
    ReadsLines p lib number sources lines := by
  have hline : ∀ {number source line}, ReadsLine q lib number source line →
      ReadsLine p lib number source line := by
    rintro number source line ⟨lib', marks, hlib, hread⟩
    exact ⟨lib', marks, hlib, by rwa [← hctx]⟩
  induction h with
  | last hread hend => exact .last (hline hread) hend
  | cons hread hend _ ih => exact .cons (hline hread) hend ih

namespace Assembling

lemma readContext_eq (h : Assembling p lib s pending) (lib' : MacroLibrary) :
    s.program.readContext lib' = p.readContext lib' :=
  readContext_congr h.modules_eq h.size_eq (fun id => ⟨(h.inst_eq id).1, (h.inst_eq id).2.1⟩) lib'

lemma sourceOf_eq (h : Assembling p lib s pending) (id : Nat) :
    s.program.sourceOf id = p.sourceOf id := by
  rw [sourceOf, sourceOf, (h.inst_eq id).1, (h.inst_eq id).2.1, Program.module, h.modules_eq]
  rfl

end Assembling

/-! ### One instance -/

/-- What has not been read yet is as it was found. -/
lemma Collected.fresh_lines (h : Collected text kind lib p) (hid : id < p.instances.size) :
    (p.inst id).table = id ∧ (p.inst id).lines = [] ∧ (p.inst id).burn = {} ∧
      (p.inst id).assembled = false := by
  obtain ⟨m, args, hfresh⟩ := h.fresh id hid
  rw [hfresh]
  exact ⟨rfl, rfl, rfl, rfl⟩

/-- Assembling an instance without a failure stores its lines and its symbol table. -/
lemma assembleInstance_eq (h : (s.assembleInstance id).failure = none) :
    ∃ draft lines,
      s.program.readLines 0 (s.program.sourceOf id)
        ⟨s.program.symbols.table (s.program.inst id).table, s.library⟩ = (draft, .ok lines) ∧
      s.assembleInstance id =
        { s with
          program := (s.program.modifyTable (s.program.inst id).table fun _ =>
            draft.table).modifyInstance id fun i =>
              { i with lines, burn := Burn.ofLines lines, assembled := true }
          library := draft.library
          called := s.called ++ lines.filterMap fun line => line.statement.target? } := by
  unfold Progress.assembleInstance at h ⊢
  dsimp only at h ⊢
  rcases hr : s.program.readLines 0 (s.program.sourceOf id)
      ⟨s.program.symbols.table (s.program.inst id).table, s.library⟩ with ⟨draft, result⟩
  rw [hr] at h
  cases result with
  | error e => cases h
  | ok lines => exact ⟨draft, lines, rfl, rfl⟩

/-- Instances that have been assembled need not be listed among the pending ones. -/
lemma Assembling.mono (h : Assembling p lib s pending) {pending' : List Nat}
    (hsub : ∀ j ∈ pending, (s.program.inst j).assembled = true ∨ j ∈ pending')
    (hsub' : ∀ j ∈ pending', j ∈ pending) : Assembling p lib s pending' :=
  { h with
    targets := fun id hid hdone line hline target ht => by
      rcases h.targets id hid hdone line hline target ht with hdone | hmem
      · exact .inl hdone
      · exact hsub target hmem
    root_done := by
      rcases h.root_done with hdone | hmem
      · exact .inl hdone
      · exact hsub root hmem
    reached := fun id hid hor => h.reached id hid (hor.imp_right (hsub' id)) }

/-- From `s` to `s'` the instance `id`, which was fresh, has been assembled, and has got the given
lines. -/
structure Assembles (s : Progress) (id : Nat) (lines : List Line) (s' : Progress) : Prop where
  modules_eq : s'.program.modules = s.program.modules
  size_eq : s'.program.instances.size = s.program.instances.size
  symbols_eq : s'.program.symbols.size = s.program.symbols.size
  fresh : (s.program.inst id).assembled = false ∧ (s.program.inst id).lines = []
  inst_self : s'.program.inst id =
    { s.program.inst id with lines, burn := Burn.ofLines lines, assembled := true }
  inst_other : ∀ j, j ≠ id → s'.program.inst j = s.program.inst j
  table_self : s'.program.symbols.table id = (lines.flatMap Line.marks).foldl SymbolTable.enter {}
  table_other : ∀ j, j ≠ id → s'.program.symbols.table j = s.program.symbols.table j
  library : s.library.Extends s'.library
  offered : ∀ m ∈ s'.library.macros, m ∈ s.library.macros ∨ ∃ line ∈ lines, line.statement.Offers m
  called_eq : s'.called = s.called ++ lines.filterMap fun line => line.statement.target?

/-- An instance that has its turn is assembled from its source lines. -/
lemma Assembling.exists_assembles (hp : Collected text kind lib p) (h : Assembling p lib s pending)
    (hid : id < p.instances.size) (hnew : (s.program.inst id).assembled = false)
    (hfail : (s.assembleInstance id).failure = none) :
    ∃ lines, ReadsLines p lib 0 (p.sourceOf id) lines ∧ Assembles s id lines (s.assembleInstance id) := by
  obtain ⟨draft, lines, hread, heq⟩ := assembleInstance_eq hfail
  obtain ⟨hinst, htable⟩ := h.fresh id hid hnew
  obtain ⟨hnum, hnil, -⟩ := hp.fresh_lines hid
  rw [hinst, hnum] at heq
  rw [h.sourceOf_eq, hinst, hnum, htable] at hread
  obtain ⟨hreads, rfl⟩ := readLines_eq_ok h.library hread
  have hsize : id < s.program.instances.size := by rwa [h.size_eq]
  have hsymbols : id < s.program.symbols.size := by rwa [h.symbols_eq, hp.sizes]
  refine ⟨lines, hreads.congr h.readContext_eq, ?_⟩
  rw [heq]
  exact {
    modules_eq := rfl
    size_eq := size_modifyInstance
    symbols_eq := SymbolStore.size_modify
    fresh := ⟨hnew, by rw [hinst, hnil]⟩
    inst_self := inst_modifyInstance_self hsize
    inst_other := fun j hj => inst_modifyInstance_ne hj
    table_self := (SymbolStore.table_modify_self hsymbols).trans (Draft.table_foldl_enter ..)
    table_other := fun j hj => SymbolStore.table_modify_ne hj
    library := Draft.extends_foldl_enter ..
    offered := fun m hm => Draft.mem_of_lines hm
    called_eq := rfl }

namespace Assembles

variable {s' : Progress} {lines : List Line}

/-- Whatever has been assembled stays as it is. -/
lemma inst_eq (h : Assembles s id lines s') {j : Nat} (hj : (s.program.inst j).assembled = true) :
    s'.program.inst j = s.program.inst j := by
  refine h.inst_other j ?_
  rintro rfl
  rw [h.fresh.1] at hj
  cases hj

/-- What has been assembled or is pending stays so when the instance that has its turn is
assembled. -/
lemma done_or_pending (h : Assembles s id lines s') {j : Nat}
    (hj : (s.program.inst j).assembled = true ∨ j ∈ id :: (rest ++ s.called)) :
    (s'.program.inst j).assembled = true ∨ j ∈ rest ++ s'.called := by
  rw [h.called_eq, ← List.append_assoc]
  rcases hj with hj | hj
  · rw [h.inst_eq hj]
    exact .inl hj
  · rcases List.mem_cons.1 hj with rfl | hj
    · rw [h.inst_self]
      exact .inl rfl
    · exact .inr (List.mem_append_left _ hj)

/-- What can be reached stays so: the instance that has its turn has called nothing before. -/
lemma reaches (h : Assembles s id lines s') {a b : Nat} (hab : s.program.Reaches a b) :
    s'.program.Reaches a b := by
  refine Relation.ReflTransGen.mono (fun a b hcalls => ?_) _ _ hab
  by_cases ha : a = id
  · rw [ha, Calls, callsOf, h.fresh.2] at hcalls
    cases hcalls
  · rwa [Calls, callsOf, h.inst_other a ha]

end Assembles

/-- Assembling an instance that has its turn keeps the invariant. -/
lemma Assembling.assembles {s' : Progress} {lines : List Line}
    (h : Assembling p lib s (id :: (rest ++ s.called))) (hid : id < p.instances.size)
    (hreads : ReadsLines p lib 0 (p.sourceOf id) lines) (hs : Assembles s id lines s') :
    Assembling p lib s' (rest ++ s'.called) where
  modules_eq := hs.modules_eq.trans h.modules_eq
  size_eq := hs.size_eq.trans h.size_eq
  symbols_eq := hs.symbols_eq.trans h.symbols_eq
  inst_eq j := by
    by_cases hj : j = id
    · rw [hj, hs.inst_self]
      exact h.inst_eq id
    · rw [hs.inst_other j hj]
      exact h.inst_eq j
  library := h.library.trans hs.library
  offered m hm := by
    rcases hs.offered m hm with hm | ⟨line, hline, hoffers⟩
    · refine (h.offered m hm).imp_right ?_
      rintro ⟨j, hj, hdone, hline⟩
      exact ⟨j, hj, by rw [hs.inst_eq hdone]; exact ⟨hdone, hline⟩⟩
    · exact .inr ⟨id, hid, by rw [hs.inst_self]; exact ⟨rfl, line, hline, hoffers⟩⟩
  fresh j hj hfresh := by
    by_cases hji : j = id
    · rw [hji, hs.inst_self] at hfresh
      cases hfresh
    · rw [hs.inst_other j hji] at hfresh ⊢
      rw [hs.table_other j hji]
      exact h.fresh j hj hfresh
  done j hj hdone := by
    by_cases hji : j = id
    · rw [hji, hs.inst_self, hs.table_self]
      exact ⟨hreads, rfl, rfl⟩
    · rw [hs.inst_other j hji] at hdone ⊢
      rw [hs.table_other j hji]
      exact h.done j hj hdone
  targets j hj hdone line hline target ht := by
    by_cases hji : j = id
    · rw [hji, hs.inst_self] at hline
      rw [hs.called_eq]
      refine .inr (List.mem_append_right _ (List.mem_append_right _ ?_))
      exact List.mem_filterMap.2 ⟨line, hline, ht⟩
    · rw [hs.inst_other j hji] at hdone hline
      exact hs.done_or_pending (h.targets j hj hdone line hline target ht)
  root_done := hs.done_or_pending h.root_done
  reached j hj hor := by
    have hreached := hs.reaches (h.reached id hid (.inr List.mem_cons_self))
    by_cases hji : j = id
    · rwa [hji]
    · rw [hs.inst_other j hji, hs.called_eq, ← List.append_assoc, List.mem_append] at hor
      rcases hor with hdone | hmem | hmem
      · exact hs.reaches (h.reached j hj (.inl hdone))
      · exact hs.reaches (h.reached j hj (.inr (List.mem_cons_of_mem _ hmem)))
      · refine hreached.tail ?_
        rwa [Calls, callsOf, hs.inst_self]

/-! ### All instances -/

/-- The instances that an assembled instance calls rank lower. -/
lemma Assembled.callsBelow (hp : Collected text kind lib p)
    (hsearched : ∀ j < p.modules.size, Searched lib p j) {rank : Nat → Nat}
    (hrank : ∀ e ∈ p.includes.edges, rank e.2 < rank e.1) {i : Instance} {table : SymbolTable}
    (hid : id < p.instances.size) (h : Assembled p lib id i table) :
    p.CallsBelow (p.instanceRank rank) (p.instanceRank rank id) i.lines := by
  intro line hline target ht
  obtain ⟨n, source, hsource, hread⟩ := h.reads.exists_source hline
  rw [Nat.zero_add] at hread
  obtain ⟨_, _, _, _, _, _, _, hcall, -⟩ := hread.call hp hsearched hid hsource ht
  obtain ⟨hlt, hne, hedge⟩ := hcall.target hp
  exact ⟨hne, hlt, instanceRank_lt_of_lt hlt (hrank _ hedge)⟩

/-! ### Runs -/

section Induction

variable {P : Progress → Prop} (hstep : ∀ s id, s.failure = none →
  (s.program.inst id).assembled = false → P s → P (s.assembleInstance id))

include hstep

/-- What is kept when an instance is assembled is kept by a level. -/
lemma Progress.visits_induction (ids : List Nat) (hs : P s) : P (ids.foldl Progress.visit s) := by
  refine List.foldlRecOn ids Progress.visit hs fun s hs id _ => ?_
  unfold Progress.visit
  split
  · exact hs
  next hskip =>
    rw [Bool.or_eq_true, not_or, Bool.not_eq_true, Bool.not_eq_true, Option.isSome_eq_false_iff,
      Option.isNone_iff_eq_none] at hskip
    exact hstep s id hskip.1 hskip.2 hs

/-- What is kept when an instance is assembled is kept by a run. -/
lemma Progress.run_induction (hcalled : ∀ s, P s → P { s with called := [] }) (n : Nat) (ids : List Nat)
    (hs : P s) : P (Progress.run n ids s) := by
  induction n generalizing ids s with
  | zero => exact hs
  | succ n ih =>
    have hlevel := Progress.visits_induction hstep ids (hcalled s hs)
    rw [Progress.run]
    split
    · exact hlevel
    · exact ih _ hlevel

end Induction

/-- Once the assembly has failed, it stays so. -/
lemma failure_eq_none_of_foldl {ids : List Nat}
    (h : (ids.foldl Progress.visit s).failure = none) : s.failure = none := by
  by_contra hs
  exact Progress.visits_induction (P := fun s => s.failure ≠ none)
    (fun _ _ hnone _ hfail => absurd hnone hfail) ids hs h

lemma failure_eq_none_of_run {n : Nat} {ids : List Nat}
    (h : (Progress.run n ids s).failure = none) : s.failure = none := by
  by_contra hs
  exact Progress.run_induction (P := fun s => s.failure ≠ none)
    (fun _ _ hnone _ hfail => absurd hnone hfail) (fun _ hfail => hfail) n ids hs h

section Run

variable {rank : Nat → Nat} {n : Nat} {ids : List Nat} (hp : Collected text kind lib p)
  (hsearched : ∀ j < p.modules.size, Searched lib p j)
  (hrank : ∀ e ∈ p.includes.edges, rank e.2 < rank e.1)

include hp hsearched hrank

/-- Visiting the first instances of a level keeps the invariant, and what they call ranks lower. -/
lemma Assembling.visits (h : Assembling p lib s ((ids ++ rest) ++ s.called))
    (hids : ∀ id ∈ ids, id < p.instances.size ∧ p.instanceRank rank id ≤ n)
    (hcalled : ∀ id ∈ s.called, id < p.instances.size ∧ p.instanceRank rank id < n)
    (hfail : (ids.foldl Progress.visit s).failure = none) :
    Assembling p lib (ids.foldl Progress.visit s) (rest ++ (ids.foldl Progress.visit s).called) ∧
      ∀ id ∈ (ids.foldl Progress.visit s).called,
        id < p.instances.size ∧ p.instanceRank rank id < n := by
  induction ids generalizing s with
  | nil => exact ⟨h, hcalled⟩
  | cons id ids ih =>
    rw [List.forall_mem_cons] at hids
    rw [List.foldl_cons] at hfail ⊢
    have hfirst : ([id].foldl Progress.visit s).failure = none := failure_eq_none_of_foldl hfail
    have hnone : s.failure = none := failure_eq_none_of_foldl hfirst
    cases hdone : (s.program.inst id).assembled with
    | true =>
      have hvisit : s.visit id = s := by simp [Progress.visit, hdone]
      rw [hvisit] at hfail ⊢
      refine ih (h.mono (fun j hj => ?_) fun j => List.mem_cons_of_mem _) hids.2 hcalled hfail
      rcases List.mem_cons.1 hj with rfl | hj
      · exact .inl hdone
      · exact .inr hj
    | false =>
      have hvisit : s.visit id = s.assembleInstance id := by simp [Progress.visit, hdone, hnone]
      rw [hvisit] at hfail ⊢
      have hfail' := failure_eq_none_of_foldl hfail
      obtain ⟨lines, hreads, hs⟩ := h.exists_assembles hp hids.1.1 hdone hfail'
      have h' := h.assembles hids.1.1 hreads hs
      refine ih h' hids.2 (fun j hj => ?_) hfail
      rw [hs.called_eq] at hj
      rcases List.mem_append.1 hj with hj | hj
      · exact hcalled j hj
      · obtain ⟨line, hline, ht⟩ := List.mem_filterMap.1 hj
        have hbelow := (h'.done id hids.1.1 (by rw [hs.inst_self])).callsBelow hp hsearched hrank hids.1.1
        rw [hs.inst_self] at hbelow
        obtain ⟨-, hlt, hlow⟩ := hbelow line hline j ht
        exact ⟨hlt, by omega⟩

/-- There are levels enough: nothing is pending in the end. -/
lemma Assembling.run (h : Assembling p lib s ids)
    (hids : ∀ id ∈ ids, id < p.instances.size ∧ p.instanceRank rank id < n)
    (hfail : (Progress.run n ids s).failure = none) :
    Assembling p lib (Progress.run n ids s) [] := by
  induction n generalizing ids s with
  | zero =>
    obtain rfl : ids = [] := List.eq_nil_iff_forall_not_mem.2 fun id hid =>
      Nat.not_lt_zero _ (hids id hid).2
    exact h
  | succ n ih =>
    have hstart : Assembling p lib { s with called := [] } ((ids ++ []) ++ []) := by
      rw [List.append_nil, List.append_nil]
      exact { h with }
    rw [Progress.run] at hfail ⊢
    have hids' : ∀ id ∈ ids, id < p.instances.size ∧ p.instanceRank rank id ≤ n :=
      fun id hid => ⟨(hids id hid).1, Nat.lt_succ_iff.1 (hids id hid).2⟩
    split at hfail
    next hempty =>
      rw [if_pos hempty]
      obtain ⟨h', -⟩ := hstart.visits hp hsearched hrank hids' nofun hfail
      rwa [List.isEmpty_iff.1 hempty, List.append_nil] at h'
    next hmore =>
      rw [if_neg hmore]
      obtain ⟨h', hcalled⟩ := hstart.visits hp hsearched hrank hids' nofun
        (failure_eq_none_of_run hfail)
      exact ih h' hcalled hfail

end Run

/-! ### Assembled programs -/

/-- What linking can rely on, the root having the given text and kind. -/
structure Ready (text : String) (kind : ModuleKind) (lib : MacroLibrary) (p : Program) : Prop where
  root_lt : root < p.instances.size
  sizes : p.symbols.size = p.instances.size
  table_eq : ∀ id < p.instances.size, (p.inst id).table = id
  reads : ∀ id < p.instances.size, (p.inst id).assembled = true →
    ReadsLines p lib 0 (p.sourceOf id) (p.inst id).lines
  unread : ∀ id < p.instances.size, (p.inst id).assembled = false → (p.inst id).lines = []
  records : ∀ id < p.instances.size,
    (p.symbols.table id).Records ((p.inst id).lines.flatMap Line.marks)
  burn_eq : ∀ id < p.instances.size, (p.inst id).burn = Burn.ofLines (p.inst id).lines
  root_assembled : (p.inst root).assembled = true
  target_assembled : ∀ id < p.instances.size, ∀ line ∈ (p.inst id).lines, ∀ target,
    line.statement.target? = some target → (p.inst target).assembled = true
  ranked : ∃ rank : Nat → Nat, ∀ id < p.instances.size,
    rank id < p.instances.size ∧ p.CallsBelow rank (rank id) (p.inst id).lines
  root_kind : (p.module root).kind = kind
  root_source : p.sourceOf root = Text.lines text
  newline_not_mem : ∀ id < p.instances.size, ∀ source ∈ p.sourceOf id, '\n' ∉ source.toList

/-- No source line of an instance holds a line feed. -/
lemma Collected.newline_not_mem (h : Collected text kind lib p) (hid : id < p.instances.size)
    {source : String} (hsource : source ∈ p.sourceOf id) : '\n' ∉ source.toList := by
  obtain ⟨raw, hraw, rfl⟩ := List.mem_map.1 hsource
  rw [Placeholder.substitute, String.toList_ofList]
  intro hmem
  rcases Placeholder.mem_of_mem_expand hmem with hmem | ⟨arg, harg, hmem⟩
  · exact h.lines _ (h.owner_lt id hid) raw hraw hmem
  · exact (h.isArgument id hid arg harg).newline_not_mem hmem

/-- The root has no placeholders. -/
lemma Collected.sourceOf_root (h : Collected text kind lib p) :
    p.sourceOf root = Text.lines text := by
  rw [sourceOf, (h.owner_root root h.root_lt).2 rfl, h.root_args, h.root_lines]
  refine List.map_id'' (fun source => ?_) _
  rw [Placeholder.substitute, Placeholder.expand_nil, String.ofList_toList]

/-- When nothing is pending any more, the program is ready. -/
lemma Assembling.ready (hp : Collected text kind lib p)
    (hsearched : ∀ j < p.modules.size, Searched lib p j) {rank : Nat → Nat}
    (hrank : ∀ e ∈ p.includes.edges, rank e.2 < rank e.1) (h : Assembling p lib s []) :
    Ready text kind lib s.program := by
  have hctx : ∀ lib, p.readContext lib = s.program.readContext lib :=
    fun lib => (h.readContext_eq lib).symm
  have hlines : ∀ id < p.instances.size, (s.program.inst id).assembled = false →
      (s.program.inst id).lines = [] ∧ (s.program.inst id).burn = {} := by
    intro id hid hfresh
    rw [(h.fresh id hid hfresh).1]
    exact ⟨(hp.fresh_lines hid).2.1, (hp.fresh_lines hid).2.2.1⟩
  -- What has a line has been assembled.
  have hassembled : ∀ id < p.instances.size, ∀ line ∈ (s.program.inst id).lines,
      (s.program.inst id).assembled = true := by
    intro id hid line hline
    by_contra hfresh
    rw [Bool.not_eq_true] at hfresh
    rw [(hlines id hid hfresh).1] at hline
    cases hline
  exact {
    root_lt := by
      rw [h.size_eq]
      exact hp.root_lt
    sizes := by rw [h.symbols_eq, h.size_eq, hp.sizes]
    table_eq id hid := by
      rw [h.size_eq] at hid
      rw [(h.inst_eq id).2.2, (hp.fresh_lines hid).1]
    reads id hid hdone := by
      rw [h.size_eq] at hid
      rw [h.sourceOf_eq]
      exact (h.done id hid hdone).reads.congr hctx
    unread id hid hfresh := by
      rw [h.size_eq] at hid
      exact (hlines id hid hfresh).1
    records id hid := by
      rw [h.size_eq] at hid
      cases hdone : (s.program.inst id).assembled with
      | true => exact (h.done id hid hdone).records
      | false =>
        rw [(h.fresh id hid hdone).2, (hlines id hid hdone).1]
        exact SymbolTable.records_nil
    burn_eq id hid := by
      rw [h.size_eq] at hid
      cases hdone : (s.program.inst id).assembled with
      | true => exact (h.done id hid hdone).burn_eq
      | false =>
        rw [(hlines id hid hdone).1, (hlines id hid hdone).2]
        rfl
    root_assembled := h.root_done.resolve_right List.not_mem_nil
    target_assembled id hid line hline target ht := by
      rw [h.size_eq] at hid
      have hdone := hassembled id hid line hline
      exact (h.targets id hid hdone line hline target ht).resolve_right List.not_mem_nil
    ranked := by
      refine ⟨p.instanceRank rank, fun id hid => ?_⟩
      rw [h.size_eq] at hid ⊢
      refine ⟨instanceRank_lt hid, fun line hline target ht => ?_⟩
      rw [h.size_eq]
      have hdone := hassembled id hid line hline
      exact (h.done id hid hdone).callsBelow hp hsearched hrank hid line hline target ht
    root_kind := by
      rw [Program.module, h.modules_eq]
      exact hp.root_kind
    root_source := by
      rw [h.sourceOf_eq]
      exact hp.sourceOf_root
    newline_not_mem id hid source hsource := by
      rw [h.size_eq] at hid
      rw [h.sourceOf_eq] at hsource
      exact hp.newline_not_mem hid hsource }

/-- At the start nothing has been assembled, and the root is pending. -/
lemma Collected.assembling (hp : Collected text kind lib p) :
    Assembling p lib { program := p, library := lib } [root] := by
  have hfresh : ∀ id < p.instances.size, (p.inst id).assembled ≠ true := by
    intro id hid hdone
    rw [(hp.fresh_lines hid).2.2.2] at hdone
    cases hdone
  exact {
    modules_eq := rfl
    size_eq := rfl
    symbols_eq := rfl
    inst_eq := fun _ => ⟨rfl, rfl, rfl⟩
    library := .refl lib
    offered := fun _ hm => .inl hm
    fresh := fun id _ _ => ⟨rfl, hp.tables id⟩
    done := fun id hid hdone => absurd hdone (hfresh id hid)
    targets := fun id hid hdone => absurd hdone (hfresh id hid)
    root_done := .inr List.mem_cons_self
    reached := fun id hid hor => by
      obtain rfl := List.mem_singleton.1 (hor.resolve_left (hfresh id hid))
      exact .refl }

/-- When the included modules have been found and the program has been assembled without a report,
nothing is pending. -/
lemma assembling_of_assemble {p₁ : Program} {lib' : MacroLibrary}
    (hfind : (ofSource text kind).findIncludes lib = (p₁, []))
    (hassemble : p₁.assemble lib = (p, lib', [])) :
    Collected text kind lib p₁ ∧ (∀ j < p₁.modules.size, Searched lib p₁ j) ∧
      (∃ rank : Nat → Nat, ∀ e ∈ p₁.includes.edges, rank e.2 < rank e.1) ∧
      ∃ s : Progress, s.program = p ∧ s.library = lib' ∧ Assembling p₁ lib s [] := by
  obtain ⟨hp, hsearched, rank, hrank⟩ :=
    (collected_ofSource text kind lib).findIncludes rfl hfind
  simp only [assemble, Prod.mk.injEq, Option.toList_eq_nil_iff] at hassemble
  obtain ⟨rfl, rfl, hfail⟩ := hassemble
  refine ⟨hp, hsearched, ⟨rank, hrank⟩, _, rfl, rfl,
    hp.assembling.run hp hsearched hrank (fun id hid => ?_) hfail⟩
  obtain rfl := List.mem_singleton.1 hid
  exact ⟨hp.root_lt, Nat.lt_succ_of_lt (instanceRank_lt hp.root_lt)⟩

/-- A program whose included modules have been found and that has been assembled without a report is
ready to be linked. -/
theorem ready_of_assemble {p₁ : Program} {lib' : MacroLibrary}
    (hfind : (ofSource text kind).findIncludes lib = (p₁, []))
    (hassemble : p₁.assemble lib = (p, lib', [])) : Ready text kind lib p := by
  obtain ⟨hp, hsearched, ⟨rank, hrank⟩, s, rfl, -, h⟩ := assembling_of_assemble hfind hassemble
  exact h.ready hp hsearched hrank

/-- What can be said of every line of a program that is ready. -/
lemma Ready.yields {line : Line} (h : Ready text kind lib p) (hid : id < p.instances.size)
    (hline : line ∈ (p.inst id).lines) :
    ∃ lib' n, Reader.Yields (p.readContext lib') n line.marks line := by
  cases hdone : (p.inst id).assembled with
  | true =>
    obtain ⟨n, source, -, hread⟩ := (h.reads id hid hdone).exists_source hline
    obtain ⟨lib', hyields⟩ := hread.yields
    exact ⟨lib', 0 + n, hyields⟩
  | false =>
    rw [h.unread id hid hdone] at hline
    cases hline

end Pep10.Program
