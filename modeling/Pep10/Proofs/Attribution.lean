import Pep10.Proofs.Program.AssemblyFailure
import Pep10.Proofs.Program.CallRecords
import Pep10.Proofs.Program.Invocation
import Pep10.Proofs.Program.LinkFaults

/-!
# Failures are attributed to root lines

What fails inside a macro is reported on a root line.  If the search for included modules is given
up, then that line calls a macro that includes the one in question.  If the assembly of an instance
fails, then it is the first line from which calls lead to the instance, as far as they are recorded;
if what is recorded is what the lines call, then the line is the first one whose expansion contains
the instance.  What is logged while linking is reported on the root line whose expansion contains
the instance.

The search also records calls that no instance makes, such as those behind the end of a module.
Then a failure can be attributed to a line that has nothing to do with it (`attribution_misled`).
-/

namespace Pep10

open Relation (ReflTransGen)

variable {lib lib' : MacroLibrary} {text : String} {kind : ModuleKind}

/-- A chain that ends somewhere is a chain of another relation if the steps before its end are. -/
lemma reflTransGen_of_steps {α : Type} {r r' : α → α → Prop} {P : α → Prop} {a target : α}
    (h : ReflTransGen r a target) (ha : P a)
    (hstep : ∀ a b, P a → a ≠ target → r a b → r' a b ∧ P b) :
    ReflTransGen r' a target := by
  induction h using ReflTransGen.head_induction_on with
  | refl => exact .refl
  | @head a b hab _ ih =>
    by_cases hend : a = target
    · rw [hend]
    · obtain ⟨hab', hb⟩ := hstep a b ha hend hab
      exact .head hab' (ih hb)

/-- The root lines that call a macro which includes the given part of the program, directly or not,
or is that part. -/
def includingLines (lib : MacroLibrary) (text : String) (part : Option Macro) : Set Nat :=
  { line | ∃ source found, (Text.lines text)[line]? = some source ∧
    lib.calledOn? source = some found ∧ ReflTransGen (Includes lib text) (some found) part }

namespace Program

variable {p q : Program} {m n a b id line : Nat} {reports : List Report} {s : Progress} {pending : List Nat}

/-- The root lines whose expansion contains an instance. -/
def expandingLines (p : Program) (lib : MacroLibrary) (id : Nat) : Set Nat :=
  { line | ∃ t, p.InvokesOn lib root line t ∧ ReflTransGen (p.Invokes lib) t id }

/-- The root lines that are recorded to call an instance from which calls lead to the given one, as
far as lines or records tell. -/
def recordedLines (p : Program) (id : Nat) : Set Nat :=
  { line | ∃ t, (line, t) ∈ (p.module root).calls ∧ ReflTransGen (Route.Step p.callees) t id }

/-- All that is recorded is called, the given instance apart. -/
def RecordsTruly (p : Program) (lib : MacroLibrary) (id : Nat) : Prop :=
  ∀ a < p.instances.size, a ≠ id → ∀ call ∈ (p.module (p.inst a).moduleId).calls,
    p.InvokesOn lib a call.1 call.2

/-! ### The search -/

/-- A failure in another module than the root is attributed to a line that includes the module. -/
lemma Charted.exists_rootLineFor? (h : Charted text kind lib p) (hs : Searched lib p root)
    (hm : m < p.modules.size) (hne : m ≠ root) :
    ∃ line ∈ includingLines lib text (p.partOf lib m), p.rootLineFor? m = some line := by
  obtain ⟨first, path, hpath, hfirst, hrest⟩ := Digraph.exists_shortestPath? h.ends
    ((h.vertices root).2 h.root_lt_size) hne (h.reached m hm)
  obtain ⟨call, hcall, hmodule⟩ := h.exists_call_of_edge hs hfirst
  rw [rootLineFor?, hpath]
  dsimp only
  rw [rootLineIncluding?, rootLineCalling?]
  cases hfind : (p.module root).calls.find? fun call => (p.inst call.2).moduleId == first with
  | none => exact absurd hmodule (by simpa using List.find?_eq_none.1 hfind call hcall)
  | some found =>
    obtain ⟨source, callee, hsource, hcalled, -, hpart⟩ := h.calls found (List.mem_of_find?_eq_some hfind)
    have hmodule' : (p.inst found.2).moduleId = first := by simpa using List.find?_some hfind
    rw [hmodule'] at hpart
    refine ⟨found.1, ⟨source, callee, hsource, hcalled, ?_⟩, rfl⟩
    rw [← hpart]
    exact ReflTransGen.lift (p.partOf lib) h.edges _ _ hrest

/-- A failure is logged under an instance of the module. -/
lemma SearchRecords.failInclude_eq (h : SearchRecords lib p) (hm : m < p.modules.size) (line : Nat)
    (e : IncludeError) :
    ∃ id < p.instances.size, (p.inst id).moduleId = m ∧
      p.failInclude m line e = (p.addDiagnostic id line (.ofInclude e),
        [⟨if m = root then line else (p.rootLineFor? m).getD 0, .ofInclude e⟩]) := by
  obtain ⟨a, ha, hmodule⟩ := h.peopled m hm
  have hmem : a ∈ p.instancesOf m := by
    rw [instancesOf, List.mem_filter, List.mem_range]
    exact ⟨ha, by simpa using hmodule⟩
  obtain ⟨id, rest, hids⟩ := List.exists_cons_of_ne_nil (List.ne_nil_of_mem hmem)
  have hid : id ∈ p.instancesOf m := by
    rw [hids]
    exact List.mem_cons_self
  rw [instancesOf, List.mem_filter, List.mem_range, beq_iff_eq] at hid
  refine ⟨id, hid.1, hid.2, ?_⟩
  rw [failInclude, hids]
  simp only [beq_iff_eq]

/-- The search either succeeds with all modules searched, or fails in some module, and then the root
has been searched if it is another one. -/
lemma findIncludes_searched (hfind : (ofSource text kind).findIncludes lib = (p, reports)) :
    ∃ q, Charted text kind lib q ∧ SearchRecords lib q ∧
      ((p = q ∧ reports = [] ∧ ∀ j < q.modules.size, Searched lib q j) ∨
        ∃ m line e, m < q.modules.size ∧ (m ≠ root → Searched lib q root) ∧
          q.failInclude m line e = (p, reports)) := by
  have hcharted := (Charted.ofSource text kind lib).searchModules (m := 0)
    ((ofSource text kind).modules.size + lib.macros.length)
  have hrecorded : SearchRecords lib (searchModules lib _ 0 _).1 := SearchRecords.searchModules text kind lib
    ((ofSource text kind).modules.size + lib.macros.length)
  rw [findIncludes] at hfind
  rcases hq : searchModules lib ((ofSource text kind).modules.size + lib.macros.length) 0
    (ofSource text kind) with ⟨q, _ | ⟨j, number, e⟩⟩
  · rw [hq] at hcharted hrecorded hfind
    obtain ⟨-, hsearched⟩ := (collected_ofSource text kind lib).searchModules
      (fun j hj => absurd hj (Nat.not_lt_zero j)) (Nat.add_comm _ _).le hq
    refine ⟨q, hcharted, hrecorded, ?_⟩
    dsimp only at hfind
    split at hfind
    · cases hfind
      exact .inl ⟨rfl, rfl, hsearched⟩
    · exact .inr ⟨root, _, _, hcharted.root_lt_size, fun hne => absurd rfl hne, hfind⟩
  · rw [hq] at hcharted hrecorded hfind
    exact ⟨q, hcharted, hrecorded, .inr ⟨j, number, e,
      searchModules_failure (Charted.ofSource text kind lib) hq, fun hne => searched_root hne hq, hfind⟩⟩

/-- A search that succeeds has searched all modules. -/
lemma charted_of_findIncludes (hfind : (ofSource text kind).findIncludes lib = (p, [])) :
    Charted text kind lib p ∧ SearchRecords lib p ∧ ∀ j < p.modules.size, Searched lib p j := by
  obtain ⟨q, hcharted, hrecorded, ⟨rfl, -, hsearched⟩ | ⟨m, number, e, -, -, hfail⟩⟩ :=
    findIncludes_searched hfind
  · exact ⟨hcharted, hrecorded, hsearched⟩
  · obtain ⟨-, line, hreport, -⟩ := failInclude_spec q m number e
    rw [hfail] at hreport
    cases hreport

/-- A search that fails logs the failure under an instance of the module where it is given up, and
reports it on a line that includes that module. -/
lemma findIncludes_attributed (hfind : (ofSource text kind).findIncludes lib = (p, reports))
    (hreports : reports ≠ []) :
    ∃ e line, p.log.entries = [e] ∧ reports = [⟨line, e.diagnostic⟩] ∧
      (e.owner = root → line = e.line) ∧
      (e.owner ≠ root → line ∈ includingLines lib text (p.partOf lib (p.inst e.owner).moduleId)) := by
  obtain ⟨q, hcharted, hrecorded, ⟨-, hnil, -⟩ | ⟨m, number, e, hm, hroot, hfail⟩⟩ :=
    findIncludes_searched hfind
  · exact absurd hnil hreports
  · obtain ⟨id, hid, hmodule, heq⟩ := hrecorded.failInclude_eq hm number e
    rw [heq] at hfail
    cases hfail
    refine ⟨⟨id, number, .ofInclude e⟩, _, ?_, rfl, fun howner => ?_, fun howner => ?_⟩
    · rw [addDiagnostic, hrecorded.log_eq]
      rfl
    · exact if_pos (hmodule.symm.trans ((hcharted.owner_root id hid).2 howner))
    · have hne : m ≠ root := fun hroot => howner ((hcharted.owner_root id hid).1 (hmodule.trans hroot))
      obtain ⟨line, hline, hfor⟩ := hcharted.exists_rootLineFor? (hroot hne) hm hne
      rw [if_neg hne, hfor]
      change line ∈ includingLines lib text (q.partOf lib (q.inst id).moduleId)
      rwa [hmodule]

/-! ### The assembly -/

section Assembly

variable (hcharted : Charted text kind lib p) (hrecorded : SearchRecords lib p)
  (hsearched : ∀ j < p.modules.size, Searched lib p j)

include hcharted hsearched

/-- If records are true, then what is called is recorded. -/
lemma RecordsTruly.mem_calls (h : p.RecordsTruly lib id) (ha : a < p.instances.size) (hne : a ≠ id)
    (hcall : p.InvokesOn lib a n b) : (n, b) ∈ (p.module (p.inst a).moduleId).calls := by
  obtain ⟨recorded, hrecord⟩ := hcall.exists_recorded hcharted.toCollected hsearched ha
  have hmem := mem_calls_of_callAt? hrecord
  rwa [hcall.unique hcharted.toCollected hsearched ha (h a ha hne _ hmem)]

include hrecorded

/-- Where calls lead in an assembly that has come to the given state. -/
lemma Assembling.callees_cases (h : Assembling p lib s pending) (hmodules : q.modules = p.modules)
    (hinstances : q.instances = s.program.instances) (ha : a < p.instances.size) (hb : b ∈ q.callees a) :
    (p.Invokes lib a b ∨ p.Records a b) ∧ b < p.instances.size ∧
      p.includes.Edge (p.inst a).moduleId (p.inst b).moduleId := by
  have hinst : ∀ j, q.inst j = s.program.inst j := fun j => by rw [inst, inst, hinstances]
  have hmodule : ∀ j, q.module j = p.module j := fun j => congrArg (·.getD j default) hmodules
  rw [callees, List.mem_append, hmodule, hinst, (h.inst_eq a).1, callsOf, hinst] at hb
  rcases hb with hb | hb
  · obtain ⟨-, hcall⟩ := h.invokes hcharted.toCollected hb
    obtain ⟨hlt, hedge⟩ := hcall.target hcharted.toCollected hsearched ha
    exact ⟨.inl hcall, hlt, hedge⟩
  · obtain ⟨call, hcall, rfl⟩ := List.mem_map.1 hb
    obtain ⟨hlt, hedge⟩ := hrecorded.calls _ call hcall
    exact ⟨.inr ⟨call.1, hcall⟩, hlt, hedge⟩

/-- Calls lead to instances of included modules. -/
lemma Assembling.reflTransGen_includes (h : Assembling p lib s pending) (hmodules : q.modules = p.modules)
    (hinstances : q.instances = s.program.instances) (ha : a < p.instances.size)
    (hreach : ReflTransGen (Route.Step q.callees) a b) :
    b < p.instances.size ∧ ReflTransGen p.includes.Edge (p.inst a).moduleId (p.inst b).moduleId := by
  induction hreach with
  | refl => exact ⟨ha, .refl⟩
  | tail _ hstep ih =>
    obtain ⟨-, hlt, hedge⟩ :=
      h.callees_cases hcharted hrecorded hsearched hmodules hinstances ih.1 hstep
    exact ⟨hlt, ih.2.tail hedge⟩

/-- The first root line that is recorded to lead to an instance is found. -/
lemma Assembling.isLeast_rootLineReaching? (h : Assembling p lib s pending)
    (hmodules : q.modules = p.modules) (hinstances : q.instances = s.program.instances)
    (hid : id < p.instances.size) (hne : id ≠ root) :
    ∃ line, q.rootLineReaching? id = some line ∧ IsLeast (q.recordedLines id) line ∧
      line ∈ includingLines lib text (p.partOf lib (p.inst id).moduleId) := by
  have hmodule : ∀ j, q.module j = p.module j := fun j => congrArg (·.getD j default) hmodules
  have hsize : q.instances.size = p.instances.size := by rw [hinstances, h.size_eq]
  have hinst : ∀ j, (q.inst j).moduleId = (p.inst j).moduleId := fun j => by
    rw [← (h.inst_eq j).1, inst, inst, hinstances]
  have hleads : ∀ t < p.instances.size,
      (q.leadsTo t id = true ↔ ReflTransGen (Route.Step q.callees) t id) := by
    intro t ht
    refine Route.reaches_iff (fun a ha b hb => ?_) (by rwa [hsize])
    rw [hsize] at ha ⊢
    exact (h.callees_cases hcharted hrecorded hsearched hmodules hinstances ha hb).2.1
  have hcalls : ∀ call ∈ (p.module root).calls, call.2 < p.instances.size :=
    fun call hcall => (hrecorded.calls root call hcall).1
  -- Some root line leads to the instance.
  obtain ⟨t, ⟨number, ht⟩, hreach⟩ : ∃ t, p.Records root t ∧ ReflTransGen p.Records t id := by
    rcases (hcharted.reflTransGen_records hsearched hrecorded.sourced hid).cases_head with heq | hstep
    · exact absurd heq.symm hne
    · exact hstep
  rw [(hcharted.owner_root root hcharted.root_lt).2 rfl] at ht
  have hreach' : ReflTransGen (Route.Step q.callees) t id := by
    refine ReflTransGen.mono (fun a b hab => ?_) _ _ hreach
    obtain ⟨line, hline⟩ := hab
    rw [Route.Step, callees, hmodule, hinst]
    exact List.mem_append_right _ (List.mem_map_of_mem hline)
  rw [rootLineReaching?, rootLineCalling?, hmodule]
  cases hfind : (p.module root).calls.find? fun call => q.leadsTo call.2 id with
  | none => exact absurd ((hleads t (hcalls _ ht)).2 hreach') (List.find?_eq_none.1 hfind _ ht)
  | some first =>
    have hmem := List.mem_of_find?_eq_some hfind
    have hled : q.leadsTo first.2 id = true := by simpa using List.find?_some hfind
    have hfirst := (hleads _ (hcalls _ hmem)).1 hled
    refine ⟨first.1, rfl, ⟨⟨first.2, by rwa [hmodule], hfirst⟩, ?_⟩, ?_⟩
    · rintro line ⟨t, ht, hreach⟩
      rw [hmodule] at ht
      exact fst_le_of_find? hcharted.sorted hfind ht ((hleads t (hcalls _ ht)).2 hreach)
    · obtain ⟨source, found, hsource, hcalled, hlt, hpart⟩ := hcharted.calls first hmem
      refine ⟨source, found, hsource, hcalled, ?_⟩
      rw [← hpart]
      exact ReflTransGen.lift (p.partOf lib) hcharted.edges _ _
        (h.reflTransGen_includes hcharted hrecorded hsearched hmodules hinstances hlt hfirst).2

/-- If records are true, then the lines that are recorded to lead to an instance are those whose
expansion contains it. -/
lemma Assembling.recordedLines_eq (h : Assembling p lib s pending) (hmodules : q.modules = p.modules)
    (hinstances : q.instances = s.program.instances) (hne : id ≠ root) (htrue : p.RecordsTruly lib id) :
    q.recordedLines id = p.expandingLines lib id := by
  have hmodule : ∀ j, q.module j = p.module j := fun j => congrArg (·.getD j default) hmodules
  have hinst : ∀ j, (q.inst j).moduleId = (p.inst j).moduleId := fun j => by
    rw [← (h.inst_eq j).1, inst, inst, hinstances]
  have hroot : (p.inst root).moduleId = root := (hcharted.owner_root root hcharted.root_lt).2 rfl
  ext number
  constructor
  · rintro ⟨t, ht, hreach⟩
    rw [hmodule, ← hroot] at ht
    refine ⟨t, htrue root hcharted.root_lt hne.symm _ ht,
      reflTransGen_of_steps (P := (· < p.instances.size)) hreach (hrecorded.calls _ _ ht).1 ?_⟩
    intro a b ha hend hab
    obtain ⟨hcases, hlt, -⟩ := h.callees_cases hcharted hrecorded hsearched hmodules hinstances ha hab
    refine ⟨?_, hlt⟩
    rcases hcases with hcall | ⟨line, hline⟩
    · exact hcall
    · exact ⟨line, htrue a ha hend _ hline⟩
  · rintro ⟨t, ht, hreach⟩
    have hmem := htrue.mem_calls hcharted hsearched hcharted.root_lt hne.symm ht
    refine ⟨t, by rwa [hmodule, ← hroot],
      reflTransGen_of_steps (P := (· < p.instances.size)) hreach (hrecorded.calls _ _ hmem).1 ?_⟩
    rintro a b ha hend ⟨line, hcall⟩
    have hmem' := htrue.mem_calls hcharted hsearched ha hend hcall
    refine ⟨?_, (hrecorded.calls _ _ hmem').1⟩
    rw [Route.Step, callees, hmodule, hinst]
    exact List.mem_append_right _ (List.mem_map_of_mem hmem')

end Assembly

/-- An instance that is waiting to be assembled is contained in the expansion of some root line. -/
lemma Assembling.expandingLines_nonempty (h : Assembling p lib s pending) (hp : Collected text kind lib p)
    (hid : id < p.instances.size) (hpending : id ∈ pending) (hne : id ≠ root) :
    (p.expandingLines lib id).Nonempty := by
  have hreach : ReflTransGen (p.Invokes lib) root id :=
    ReflTransGen.mono (fun a b hab => (h.invokes hp hab).2) _ _ (h.reached id hid (.inr hpending))
  rcases hreach.cases_head with heq | ⟨t, ⟨line, hcall⟩, hrest⟩
  · exact absurd heq.symm hne
  · exact ⟨line, t, hcall, hrest⟩

/-- An assembly that fails logs the failure under the instance that fails, and reports it on the
first root line that is recorded to lead to the instance. -/
lemma assemble_attributed (hfind : (ofSource text kind).findIncludes lib = (p, []))
    (hassemble : p.assemble lib = (q, lib', reports)) (hreports : reports ≠ []) :
    ∃ e line, q.log.entries = [e] ∧ reports = [⟨line, e.diagnostic⟩] ∧ (e.owner = root → line = e.line) ∧
      (e.owner ≠ root → IsLeast (q.recordedLines e.owner) line ∧
        line ∈ includingLines lib text (p.partOf lib (p.inst e.owner).moduleId) ∧
        (p.expandingLines lib e.owner).Nonempty ∧
        (p.RecordsTruly lib e.owner → q.recordedLines e.owner = p.expandingLines lib e.owner)) := by
  obtain ⟨hcharted, hrecorded, hsearched⟩ := charted_of_findIncludes hfind
  obtain ⟨s, pending, id, table, number, e, hat, hq, rfl⟩ :=
    exists_failure_of_assemble hfind hassemble hreports
  have hinstances : q.instances = s.program.instances := by rw [hq]; rfl
  have hmodules : q.modules = p.modules := by rw [hq]; exact hat.modules_eq
  have hmoduleId : (q.inst id).moduleId = (p.inst id).moduleId := by
    rw [← (hat.inst_eq id).1, inst, inst, hinstances]
  have howner := hcharted.owner_root id hat.lt_size
  refine ⟨⟨id, number, .ofLine e⟩, _, ?_, rfl, fun hroot => ?_, fun hne => ?_⟩
  · rw [hq]
    change (s.program.log.add id number _).entries = _
    rw [hat.log_eq, hrecorded.log_eq]
    rfl
  · rw [rootLineOf, if_pos]
    rw [hmoduleId, beq_iff_eq]
    exact howner.2 hroot
  · obtain ⟨line, hline, hleast, hincluding⟩ := hat.toAssembling.isLeast_rootLineReaching? hcharted
      hrecorded hsearched hmodules hinstances hat.lt_size hne
    have heq : q.rootLineOf id number = line := by
      rw [rootLineOf, if_neg, hline]
      · rfl
      · rw [hmoduleId, beq_iff_eq]
        exact fun hroot => hne (howner.1 hroot)
    rw [heq]
    exact ⟨hleast, hincluding,
      hat.expandingLines_nonempty hcharted.toCollected hat.lt_size hat.mem_pending hne,
      hat.recordedLines_eq hcharted hrecorded hsearched hmodules hinstances hne⟩

/-! ### All phases -/

/-- A failure is logged once and reported once as long as there is nothing to link, and what happens
in the root is reported where it happens.  If the search for included modules fails inside a macro,
then the line of the report calls a macro that includes that one.  If the assembly of an instance
other than the root fails, then the line is the first one that is recorded to lead to the instance;
it calls a macro that includes the macro of the instance; there are root lines whose expansion
contains the instance; and these are the lines that are recorded to lead to it, if records are true.
If something is logged under such an instance by linking, then the instance is in the expansion of a
root line, and there is a report on every such line. -/
theorem failures_attributed (hfind : (ofSource text kind).findIncludes lib = (p, reports)) :
    (reports ≠ [] → ∃ e line, p.log.entries = [e] ∧ reports = [⟨line, e.diagnostic⟩] ∧
      (e.owner = root → line = e.line) ∧
      (e.owner ≠ root → line ∈ includingLines lib text (p.partOf lib (p.inst e.owner).moduleId))) ∧
    (reports = [] → ∀ q lib' reports', p.assemble lib = (q, lib', reports') →
      (reports' ≠ [] → ∃ e line, q.log.entries = [e] ∧ reports' = [⟨line, e.diagnostic⟩] ∧
        (e.owner = root → line = e.line) ∧
        (e.owner ≠ root → IsLeast (q.recordedLines e.owner) line ∧
          line ∈ includingLines lib text (p.partOf lib (p.inst e.owner).moduleId) ∧
          (p.expandingLines lib e.owner).Nonempty ∧
          (p.RecordsTruly lib e.owner → q.recordedLines e.owner = p.expandingLines lib e.owner))) ∧
      (reports' = [] → ∀ exports options linked reports'', q.link exports options = (linked, reports'') →
        ∀ e ∈ linked.log.entries, e.owner ≠ root →
          (∃ line ∈ (linked.inst root).lines, ∃ t, line.statement.target? = some t ∧
            linked.Reaches t e.owner) ∧
          ∀ line ∈ (linked.inst root).lines, ∀ t, line.statement.target? = some t →
            linked.Reaches t e.owner → ∃ r ∈ reports'', r.line = line.number)) := by
  refine ⟨findIncludes_attributed hfind, ?_⟩
  rintro rfl q lib' reports' hassemble
  refine ⟨assemble_attributed hfind hassemble, ?_⟩
  rintro rfl exports options linked reports'' hlink e he hne
  obtain ⟨-, hrecorded, -⟩ := charted_of_findIncludes hfind
  have hlog : q.log.entries = [] := by rw [log_of_assemble hassemble, hrecorded.log_eq]
  exact (ready_of_assemble hfind hassemble).blame_link hlog hlink he hne

/-- A macro that calls another one, which has the given line. -/
def wrappedLibrary (line : String) : MacroLibrary :=
  ⟨[⟨"OUTER", 0, .user, "@OUTER 0\n@INNER\n.END\n"⟩,
    ⟨"INNER", 0, .user, "@INNER 0\n" ++ line ++ "\n.END\n"⟩]⟩

/-- A program that calls the first macro on its second line. -/
def wrappedSource : String := ".WORD 1\n@OUTER\n.END\n"

/-- A failure in the inner macro is reported on the second line of the root, whether the search for
included modules fails there, or the assembly, or linking. -/
theorem failures_attributed_nested :
    (∃ p, (ofSource wrappedSource .userProgram).findIncludes (wrappedLibrary "@MISSING") =
        (p, [⟨1, .ofInclude .noSuchMacro⟩]) ∧ p.log.entries = [⟨2, 0, .ofInclude .noSuchMacro⟩] ∧
      1 ∈ includingLines (wrappedLibrary "@MISSING") wrappedSource
        (p.partOf (wrappedLibrary "@MISSING") (p.inst 2).moduleId)) ∧
    (∃ p q lib', (ofSource wrappedSource .userProgram).findIncludes (wrappedLibrary "BOGUS") = (p, []) ∧
      p.assemble (wrappedLibrary "BOGUS") = (q, lib', [⟨1, .ofLine .invalidMnemonic⟩]) ∧
      q.log.entries = [⟨2, 0, .ofLine .invalidMnemonic⟩] ∧ p.RecordsTruly (wrappedLibrary "BOGUS") 2 ∧
      IsLeast (p.expandingLines (wrappedLibrary "BOGUS") 2) 1) ∧
    ∃ p q linked lib' reports e,
      (ofSource wrappedSource .userProgram).findIncludes (wrappedLibrary "BR nowhere") = (p, []) ∧
      p.assemble (wrappedLibrary "BR nowhere") = (q, lib', []) ∧ q.link none {} = (linked, reports) ∧
      e ∈ linked.log.entries ∧ e.owner = 4 ∧ ∃ r ∈ reports, r.line = 1 := by
  refine ⟨?_, ?_, ?_⟩
  · obtain ⟨f, hf⟩ : ∃ f, f = (ofSource wrappedSource .userProgram).findIncludes
        (wrappedLibrary "@MISSING") := ⟨_, rfl⟩
    obtain ⟨hreports, hlog⟩ : f.2 = [⟨1, .ofInclude .noSuchMacro⟩] ∧
        f.1.log.entries = [⟨2, 0, .ofInclude .noSuchMacro⟩] := by
      rw [hf, ofSource_of_chars wrappedSource rfl]
      decide +kernel
    have hfind : (ofSource wrappedSource .userProgram).findIncludes (wrappedLibrary "@MISSING") =
        (f.1, [⟨1, .ofInclude .noSuchMacro⟩]) := by rw [← hf, ← hreports]
    obtain ⟨e, line, hlog', hreports', -, hline⟩ := (failures_attributed hfind).1 nofun
    cases hlog.symm.trans hlog'
    cases hreports'
    exact ⟨f.1, hfind, hlog, hline (by decide)⟩
  · obtain ⟨f, hf⟩ : ∃ f, f = (ofSource wrappedSource .userProgram).findIncludes
        (wrappedLibrary "BOGUS") := ⟨_, rfl⟩
    obtain ⟨a, ha⟩ : ∃ a, a = f.1.assemble (wrappedLibrary "BOGUS") := ⟨_, rfl⟩
    obtain ⟨hnone, hreports, hlog, hcalls⟩ : f.2 = [] ∧ a.2.2 = [⟨1, .ofLine .invalidMnemonic⟩] ∧
        a.1.log.entries = [⟨2, 0, .ofLine .invalidMnemonic⟩] ∧
        ∀ id < f.1.instances.size, id ≠ 2 → ∀ call ∈ (f.1.module (f.1.inst id).moduleId).calls,
          f.1.callOn? (wrappedLibrary "BOGUS") id call.1 = some call.2 := by
      rw [ha, hf, ofSource_of_chars wrappedSource rfl]
      decide +kernel
    have hfind : (ofSource wrappedSource .userProgram).findIncludes (wrappedLibrary "BOGUS") =
        (f.1, []) := by rw [← hf, ← hnone]
    have hassemble : f.1.assemble (wrappedLibrary "BOGUS") =
        (a.1, a.2.1, [⟨1, .ofLine .invalidMnemonic⟩]) := by rw [← ha, ← hreports]
    have htrue : f.1.RecordsTruly (wrappedLibrary "BOGUS") 2 :=
      fun id hid hne call hcall => invokesOn_of_callOn? (hcalls id hid hne call hcall)
    obtain ⟨hfail, -⟩ := (failures_attributed hfind).2 rfl _ _ _ hassemble
    obtain ⟨e, line, hlog', hreports', -, hline⟩ := hfail nofun
    cases hlog.symm.trans hlog'
    cases hreports'
    obtain ⟨hleast, -, -, heq⟩ := hline (by decide)
    rw [heq htrue] at hleast
    exact ⟨f.1, a.1, a.2.1, hfind, hassemble, hlog, htrue, hleast⟩
  · obtain ⟨f, hf⟩ : ∃ f, f = (ofSource wrappedSource .userProgram).findIncludes
        (wrappedLibrary "BR nowhere") := ⟨_, rfl⟩
    obtain ⟨a, ha⟩ : ∃ a, a = f.1.assemble (wrappedLibrary "BR nowhere") := ⟨_, rfl⟩
    obtain ⟨k, hk⟩ : ∃ k, k = a.1.link none {} := ⟨_, rfl⟩
    obtain ⟨hnone, hnone', ⟨e, he, howner⟩, hnumbers⟩ : f.2 = [] ∧ a.2.2 = [] ∧
        (∃ e ∈ k.1.log.entries, e.owner = 4) ∧
        ∀ line ∈ (k.1.inst root).lines, line.statement.target? ≠ none → line.number = 1 := by
      rw [hk, ha, hf, ofSource_of_chars wrappedSource rfl]
      decide +kernel
    have hfind : (ofSource wrappedSource .userProgram).findIncludes (wrappedLibrary "BR nowhere") =
        (f.1, []) := by rw [← hf, ← hnone]
    have hassemble : f.1.assemble (wrappedLibrary "BR nowhere") = (a.1, a.2.1, []) := by
      rw [← ha, ← hnone']
    have hlink : a.1.link none {} = (k.1, k.2) := by rw [← hk]
    obtain ⟨-, hlinked⟩ := (failures_attributed hfind).2 rfl _ _ _ hassemble
    obtain ⟨⟨line, hline, t, ht, hreach⟩, hreport⟩ := hlinked rfl _ _ _ _ hlink e he (by rw [howner]; decide)
    obtain ⟨r, hr, hnumber⟩ := hreport line hline t ht hreach
    refine ⟨f.1, a.1, k.1, a.2.1, k.2, e, hfind, hassemble, hlink, he, howner, r, hr, ?_⟩
    rw [hnumber, hnumbers line hline (by rw [ht]; nofun)]

/-- A macro that fails, and one behind the end of which it is called. -/
def misleadingLibrary : MacroLibrary :=
  ⟨[⟨"QUIET", 0, .user, "@QUIET 0\n.END\n@FAULTY\n"⟩,
    ⟨"FAULTY", 0, .user, "@FAULTY 0\nBOGUS\n.END\n"⟩]⟩

/-- A program that calls both. -/
def misleadingSource : String := "@QUIET\n@FAULTY\n.END\n"

/-- A failure is reported on the first line of the root, although the expansion of that line is but
the end of a macro.  The only line whose expansion contains the failing instance is the second
one. -/
theorem attribution_misled :
    ∃ p q lib', (ofSource misleadingSource .userProgram).findIncludes misleadingLibrary = (p, []) ∧
      p.assemble misleadingLibrary = (q, lib', [⟨0, .ofLine .invalidMnemonic⟩]) ∧
      q.log.entries = [⟨2, 0, .ofLine .invalidMnemonic⟩] ∧
      p.expandingLines misleadingLibrary 2 = {1} := by
  obtain ⟨f, hf⟩ : ∃ f, f = (ofSource misleadingSource .userProgram).findIncludes misleadingLibrary :=
    ⟨_, rfl⟩
  obtain ⟨a, ha⟩ : ∃ a, a = f.1.assemble misleadingLibrary := ⟨_, rfl⟩
  obtain ⟨hnone, hreports, hlog, hroot, hquiet, hfirst, hsecond⟩ : f.2 = [] ∧
      a.2.2 = [⟨0, .ofLine .invalidMnemonic⟩] ∧
      a.1.log.entries = [⟨2, 0, .ofLine .invalidMnemonic⟩] ∧
      (f.1.sourceOf root)[2]? = some ".END" ∧ (f.1.sourceOf 1)[0]? = some ".END" ∧
      f.1.callOn? misleadingLibrary root 0 = some 1 ∧ f.1.callOn? misleadingLibrary root 1 = some 2 := by
    rw [ha, hf, ofSource_of_chars misleadingSource rfl]
    decide +kernel
  have hfind : (ofSource misleadingSource .userProgram).findIncludes misleadingLibrary = (f.1, []) := by
    rw [← hf, ← hnone]
  have hends : endsModule ".END" = true := by decide +kernel
  refine ⟨f.1, a.1, a.2.1, hfind, by rw [← ha, ← hreports], hlog, ?_⟩
  obtain ⟨hp, hsearched, -⟩ := (collected_ofSource misleadingSource .userProgram _).findIncludes rfl hfind
  ext n
  constructor
  · rintro ⟨t, ht, hreach⟩
    have hlt : n < 2 := ht.lt_of_endsModule hroot hends
    by_contra hne
    obtain rfl : n = 0 := by
      rw [Set.mem_singleton_iff] at hne
      omega
    -- The first line calls an instance that calls nothing.
    obtain rfl : t = 1 := ht.unique hp hsearched hp.root_lt (invokesOn_of_callOn? hfirst)
    rcases hreach.cases_head with heq | ⟨c, ⟨n, hcall⟩, -⟩
    · cases heq
    · exact absurd (hcall.lt_of_endsModule hquiet hends) (Nat.not_lt_zero n)
  · rintro rfl
    exact ⟨2, invokesOn_of_callOn? hsecond, .refl⟩

end Program

end Pep10
