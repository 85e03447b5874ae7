import Pep10.Proofs.Program.Assembly

/-!
# Assemblies that fail

An assembly that fails does so at one instance: the instances before it have been assembled without
a failure, so that the invariant of the assembly holds there, and nothing happens behind it
(`exists_failure_of_assemble`).  Nothing is logged but that failure.
-/

namespace Pep10.Program

variable {p q : Program} {lib lib' : MacroLibrary} {text : String} {kind : ModuleKind}
  {id n : Nat} {ids pending : List Nat} {s s₁ : Progress}

/-! ### Behind a failure -/

lemma visits_of_failure (h : s.failure ≠ none) (ids : List Nat) : ids.foldl Progress.visit s = s := by
  refine Progress.visits_induction (P := fun s' => s' = s) (fun s' id hnone _ heq => ?_) ids rfl
  rw [heq] at hnone
  exact absurd hnone h

/-- A run from a failure changes neither the program nor the failure. -/
lemma run_of_failure (h : s.failure ≠ none) (n : Nat) (ids : List Nat) :
    (Progress.run n ids s).program = s.program ∧ (Progress.run n ids s).failure = s.failure := by
  refine Progress.run_induction (P := fun s' => s'.program = s.program ∧ s'.failure = s.failure)
    (fun s' id hnone _ heq => ?_) (fun _ heq => heq) n ids ⟨rfl, rfl⟩
  rw [heq.2] at hnone
  exact absurd hnone h

/-! ### The instance that fails -/

/-- Among the instances of a level that fails there is one whose assembly fails. -/
lemma exists_failing_visit (hs : s.failure = none)
    (h : (ids.foldl Progress.visit s).failure ≠ none) :
    ∃ (before : List Nat) (id : Nat) (after : List Nat), ids = before ++ id :: after ∧
      (before.foldl Progress.visit s).failure = none ∧
      ((before.foldl Progress.visit s).program.inst id).assembled = false ∧
      ids.foldl Progress.visit s = (before.foldl Progress.visit s).assembleInstance id := by
  induction ids generalizing s with
  | nil => exact absurd hs h
  | cons id ids ih =>
    rw [List.foldl_cons] at h ⊢
    by_cases hvisit : (s.visit id).failure = none
    · obtain ⟨before, id', after, rfl, hbefore, hnew, heq⟩ := ih hvisit h
      exact ⟨id :: before, id', after, rfl, hbefore, hnew, heq⟩
    · refine ⟨[], id, ids, rfl, hs, ?_, ?_⟩
      · cases hdone : (s.program.inst id).assembled with
        | false => exact hdone
        | true =>
          refine absurd ?_ hvisit
          rw [Progress.visit, if_pos (by simp [hdone]), hs]
      · rw [visits_of_failure hvisit, Progress.visit, if_neg]
        · rfl
        · intro hskip
          refine hvisit ?_
          rw [Progress.visit, if_pos hskip, hs]

/-- Nothing is logged when an instance is assembled without a failure. -/
lemma log_assembleInstance (h : (s.assembleInstance id).failure = none) :
    (s.assembleInstance id).program.log = s.program.log := by
  obtain ⟨draft, lines, -, heq⟩ := assembleInstance_eq h
  rw [heq]
  rfl

lemma log_visits (h : (ids.foldl Progress.visit s).failure = none) :
    (ids.foldl Progress.visit s).program.log = s.program.log :=
  Progress.visits_induction (P := fun s' => s'.failure = none → s'.program.log = s.program.log)
    (fun _ _ hnone _ hlog hfail => (log_assembleInstance hfail).trans (hlog hnone)) ids (fun _ => rfl) h

lemma log_run (h : (Progress.run n ids s).failure = none) :
    (Progress.run n ids s).program.log = s.program.log :=
  Progress.run_induction (P := fun s' => s'.failure = none → s'.program.log = s.program.log)
    (fun _ _ hnone _ hlog hfail => (log_assembleInstance hfail).trans (hlog hnone)) (fun _ hlog => hlog) n
    ids (fun _ => rfl) h

/-- An assembly without a report logs nothing. -/
lemma log_of_assemble (h : p.assemble lib = (q, lib', [])) : q.log = p.log := by
  simp only [assemble, Prod.mk.injEq, Option.toList_eq_nil_iff] at h
  obtain ⟨rfl, -, hfail⟩ := h
  exact log_run hfail

/-- What is known where the instance `id` fails, all instances before it having been assembled. -/
structure FailsAt (p : Program) (lib : MacroLibrary) (s : Progress) (pending : List Nat) (id : Nat) :
    Prop extends Assembling p lib s pending where
  mem_pending : id ∈ pending
  lt_size : id < p.instances.size
  fresh_self : (s.program.inst id).assembled = false
  failure_eq : s.failure = none
  log_eq : s.program.log = p.log

section Run

variable {rank : Nat → Nat} (hp : Collected text kind lib p)
  (hsearched : ∀ j < p.modules.size, Searched lib p j)
  (hrank : ∀ e ∈ p.includes.edges, rank e.2 < rank e.1)

include hp hsearched hrank

/-- A run that fails does so at an instance, and nothing happens behind it. -/
lemma Assembling.exists_failure (h : Assembling p lib s ids) (hs : s.failure = none)
    (hlog : s.program.log = p.log)
    (hids : ∀ id ∈ ids, id < p.instances.size ∧ p.instanceRank rank id < n)
    (hfail : (Progress.run n ids s).failure ≠ none) :
    ∃ s₁ pending id, FailsAt p lib s₁ pending id ∧
      (Progress.run n ids s).program = (s₁.assembleInstance id).program ∧
      (Progress.run n ids s).failure = (s₁.assembleInstance id).failure := by
  induction n generalizing ids s with
  | zero => exact absurd hs hfail
  | succ n ih =>
    have hids' : ∀ id ∈ ids, id < p.instances.size ∧ p.instanceRank rank id ≤ n :=
      fun id hid => ⟨(hids id hid).1, Nat.lt_succ_iff.1 (hids id hid).2⟩
    have hs' : ({ s with called := [] } : Progress).failure = none := hs
    rw [Progress.run] at hfail ⊢
    by_cases hlevel : (ids.foldl Progress.visit { s with called := [] }).failure = none
    · -- The level has been assembled, and a later one fails.
      have hstart : Assembling p lib { s with called := [] } ((ids ++ []) ++ []) := by
        rw [List.append_nil, List.append_nil]
        exact { h with }
      obtain ⟨h', hcalled⟩ := hstart.visits hp hsearched hrank hids'
        (List.forall_mem_nil _) hlevel
      split at hfail
      · exact absurd hlevel hfail
      next hmore =>
        rw [if_neg hmore]
        exact ih h' hlevel ((log_visits hlevel).trans hlog) hcalled hfail
    · obtain ⟨before, id, after, rfl, hbefore, hnew, heq⟩ := exists_failing_visit hs' hlevel
      have hstart : Assembling p lib { s with called := [] } ((before ++ id :: after) ++ []) := by
        rw [List.append_nil]
        exact { h with }
      obtain ⟨h', -⟩ := hstart.visits hp hsearched hrank
        (fun id hid => hids' id (List.mem_append_left _ hid)) (List.forall_mem_nil _) hbefore
      have hmem : id ∈ before ++ id :: after := List.mem_append_right _ List.mem_cons_self
      refine ⟨_, _, id, ⟨h', List.mem_append_left _ List.mem_cons_self, (hids' id hmem).1, hnew, hbefore,
        (log_visits hbefore).trans hlog⟩, ?_⟩
      rw [← heq]
      split
      · exact ⟨rfl, rfl⟩
      · exact run_of_failure hlevel _ _

end Run

/-- A line that cannot be read is logged, and reported on the root line that it is attributed to. -/
lemma assembleInstance_of_error {draft : Draft} {line : Nat} {e : LineError}
    (h : s.program.readLines 0 (s.program.sourceOf id) (s.draftFor id) = (draft, .error (line, e))) :
    (s.assembleInstance id).program =
        (s.program.modifyTable (s.program.inst id).table fun _ => draft.table).addDiagnostic id line
          (.ofLine e) ∧
      (s.assembleInstance id).library = draft.library ∧
      (s.assembleInstance id).failure =
        some ⟨(s.assembleInstance id).program.rootLineOf id line, .ofLine e⟩ := by
  change s.program.readLines 0 (s.program.sourceOf id)
    ⟨s.program.symbols.table (s.program.inst id).table, s.library⟩ = _ at h
  unfold Progress.assembleInstance
  dsimp only
  rw [h]
  exact ⟨rfl, rfl, rfl⟩

/-- Assembling an instance fails only if a line cannot be read. -/
lemma readLines_of_assembleInstance (hs : s.failure = none)
    (h : (s.assembleInstance id).failure ≠ none) :
    ∃ draft line e,
      s.program.readLines 0 (s.program.sourceOf id) (s.draftFor id) = (draft, .error (line, e)) := by
  rcases hr : s.program.readLines 0 (s.program.sourceOf id) (s.draftFor id) with ⟨draft, ⟨line, e⟩ | lines⟩
  · exact ⟨draft, line, e, rfl⟩
  · change s.program.readLines 0 (s.program.sourceOf id)
      ⟨s.program.symbols.table (s.program.inst id).table, s.library⟩ = _ at hr
    unfold Progress.assembleInstance at h
    dsimp only at h
    rw [hr] at h
    exact absurd hs h

/-- A program whose included modules have been found and that is assembled with a report fails at an
instance. -/
lemma exists_failure_of_assemble {reports : List Report}
    (hfind : (ofSource text kind).findIncludes lib = (p, []))
    (hassemble : p.assemble lib = (q, lib', reports)) (hreports : reports ≠ []) :
    ∃ s pending id table line e, FailsAt p lib s pending id ∧
      q = (s.program.modifyTable (s.program.inst id).table fun _ => table).addDiagnostic id line
        (.ofLine e) ∧
      reports = [⟨q.rootLineOf id line, .ofLine e⟩] := by
  obtain ⟨hp, hsearched, rank, hrank⟩ := (collected_ofSource text kind lib).findIncludes rfl hfind
  simp only [assemble, Prod.mk.injEq] at hassemble
  obtain ⟨rfl, -, rfl⟩ := hassemble
  have hfail := fun hnone => hreports (Option.toList_eq_nil_iff.2 hnone)
  obtain ⟨s, pending, id, hat, hprogram, hfailure⟩ := hp.assembling.exists_failure hp hsearched hrank rfl rfl
    (fun id hid => by
      obtain rfl := List.mem_singleton.1 hid
      exact ⟨hp.root_lt, Nat.lt_succ_of_lt (instanceRank_lt hp.root_lt)⟩) hfail
  obtain ⟨draft, line, e, hread⟩ := readLines_of_assembleInstance hat.failure_eq (hfailure ▸ hfail)
  obtain ⟨hq, -, hr⟩ := assembleInstance_of_error hread
  refine ⟨s, pending, id, draft.table, line, e, hat, hprogram.trans hq, ?_⟩
  rw [hfailure, hr, hprogram]
  rfl

end Pep10.Program
