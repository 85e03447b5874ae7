import Mathlib.Tactic.Common
import Pep10.Proofs.Symbol.Lookup
import Pep10.Proofs.Text.Case
import Pep10.Program.Basic

/-!
# Reading a program after a change

Every change of a program touches one instance, one module or one symbol table, or adds one at the
end.  The lemmas below tell what each change does to each kind of access, so that nothing later has
to look into the arrays.
-/

namespace Pep10.Program

variable {p : Program} {id j m : Nat}

/-! ### Instances -/

section Instances

variable {f : Instance → Instance}

@[simp] lemma size_modifyInstance :
    (p.modifyInstance id f).instances.size = p.instances.size := by
  simp [modifyInstance]

/-- Changing an instance changes that instance. -/
lemma inst_modifyInstance_self (h : id < p.instances.size) :
    (p.modifyInstance id f).inst id = f (p.inst id) := by
  simp [modifyInstance, inst, h, Array.getElem_modify]

/-- Changing an instance leaves the others alone. -/
lemma inst_modifyInstance_ne (h : j ≠ id) : (p.modifyInstance id f).inst j = p.inst j := by
  simp [modifyInstance, inst, Array.getElem?_modify, h.symm]

/-- There is nothing to change beyond the last instance. -/
lemma inst_modifyInstance_of_size_le (h : p.instances.size ≤ id) :
    (p.modifyInstance id f).inst j = p.inst j := by
  have hself : p.instances.modify id f = p.instances := by
    refine Array.ext_getElem? fun n => ?_
    rw [Array.getElem?_modify]
    split
    next hn =>
      subst hn
      rw [Array.getElem?_eq_none h]
      rfl
    · rfl
  rw [modifyInstance, inst, hself]
  rfl

/-- An instance is as it was, or it is the one that has been changed. -/
lemma inst_modifyInstance_cases (p : Program) (id j : Nat) (f : Instance → Instance) :
    (p.modifyInstance id f).inst j = p.inst j ∨
      j = id ∧ (p.modifyInstance id f).inst j = f (p.inst j) := by
  by_cases hj : j = id
  · subst hj
    rcases Nat.lt_or_ge j p.instances.size with hlt | hge
    · exact .inr ⟨rfl, inst_modifyInstance_self hlt⟩
    · exact .inl (inst_modifyInstance_of_size_le hge)
  · exact .inl (inst_modifyInstance_ne hj)

@[simp] lemma symbols_modifyInstance : (p.modifyInstance id f).symbols = p.symbols := rfl

@[simp] lemma modules_modifyInstance : (p.modifyInstance id f).modules = p.modules := rfl

@[simp] lemma includes_modifyInstance : (p.modifyInstance id f).includes = p.includes := rfl

@[simp] lemma module_modifyInstance : (p.modifyInstance id f).module m = p.module m := rfl

@[simp] lemma isSystem_modifyInstance : (p.modifyInstance id f).isSystem = p.isSystem := rfl

/-- An instance beyond the last one has no lines. -/
lemma lines_of_size_le (h : p.instances.size ≤ id) : (p.inst id).lines = [] := by
  have hnone : p.instances[id]? = none := Array.getElem?_eq_none h
  simp [inst, hnone]
  rfl

@[simp] lemma size_copyInstance :
    (p.copyInstance id).instances.size = p.instances.size + 1 := by
  simp [copyInstance]

/-- A copy leaves the instances before it alone. -/
lemma inst_copyInstance_of_lt (h : j < p.instances.size) :
    (p.copyInstance id).inst j = p.inst j := by
  have hne : j ≠ p.instances.size := Nat.ne_of_lt h
  simp [copyInstance, inst, Array.getElem?_push, hne]

/-- A copy has the number that comes next, and a symbol table of its own. -/
lemma inst_copyInstance_size :
    (p.copyInstance id).inst p.instances.size = { p.inst id with table := p.symbols.size } := by
  simp [copyInstance, inst]

@[simp] lemma symbols_copyInstance :
    (p.copyInstance id).symbols = p.symbols.push (p.symbols.table (p.inst id).table) := rfl

@[simp] lemma modules_copyInstance : (p.copyInstance id).modules = p.modules := rfl

end Instances

/-! ### Symbol tables -/

section Tables

variable {table : Nat} {f : SymbolTable → SymbolTable}

@[simp] lemma instances_modifyTable : (p.modifyTable table f).instances = p.instances := rfl

@[simp] lemma inst_modifyTable : (p.modifyTable table f).inst id = p.inst id := rfl

@[simp] lemma modules_modifyTable : (p.modifyTable table f).modules = p.modules := rfl

@[simp] lemma includes_modifyTable : (p.modifyTable table f).includes = p.includes := rfl

@[simp] lemma symbols_modifyTable :
    (p.modifyTable table f).symbols = p.symbols.modify table f := rfl

@[simp] lemma rootTable_modifyTable : (p.modifyTable table f).rootTable = p.rootTable := rfl

end Tables

/-! ### Modules -/

section Modules

variable {f : Module → Module}

@[simp] lemma instances_modifyModule : (p.modifyModule m f).instances = p.instances := rfl

@[simp] lemma inst_modifyModule : (p.modifyModule m f).inst id = p.inst id := rfl

@[simp] lemma symbols_modifyModule : (p.modifyModule m f).symbols = p.symbols := rfl

@[simp] lemma includes_modifyModule : (p.modifyModule m f).includes = p.includes := rfl

@[simp] lemma size_modules_modifyModule :
    (p.modifyModule m f).modules.size = p.modules.size := by
  simp [modifyModule]

/-- Changing a module shows in that module alone. -/
lemma module_modifyModule (j : Nat) :
    (p.modifyModule m f).module j =
      if j = m ∧ j < p.modules.size then f (p.module j) else p.module j := by
  by_cases hj : j < p.modules.size
  · by_cases hm : j = m
    · subst hm
      simp [modifyModule, Program.module, hj, Array.getElem_modify]
    · simp [modifyModule, Program.module, hm, hj, Array.getElem_modify, Ne.symm hm]
  · simp [modifyModule, Program.module, hj]

end Modules

/-! ### New modules and instances -/

section Additions

variable {name : String} {kind : ModuleKind} {text : String} {args : List String}

@[simp] lemma size_modules_addModule :
    (p.addModule name kind text).modules.size = p.modules.size + 1 := by
  simp [addModule]

/-- A new module leaves the modules before it alone. -/
lemma module_addModule_of_lt (h : m < p.modules.size) :
    (p.addModule name kind text).module m = p.module m := by
  have hne : m ≠ p.modules.size := Nat.ne_of_lt h
  simp [addModule, Program.module, Array.getElem?_push, hne]

/-- A new module has the number that comes next. -/
lemma module_addModule_size :
    (p.addModule name kind text).module p.modules.size = { name, kind, lines := Text.lines text } := by
  simp [addModule, Program.module]

@[simp] lemma size_addInstance :
    (p.addInstance m args).instances.size = p.instances.size + 1 := by
  simp [addInstance]

/-- A new instance leaves the instances before it alone. -/
lemma inst_addInstance_of_lt (h : id < p.instances.size) :
    (p.addInstance m args).inst id = p.inst id := by
  have hne : id ≠ p.instances.size := Nat.ne_of_lt h
  simp [addInstance, inst, Array.getElem?_push, hne]

/-- A new instance has the number that comes next, and a symbol table of its own. -/
lemma inst_addInstance_size :
    (p.addInstance m args).inst p.instances.size =
      { moduleId := m, args, table := p.symbols.size } := by
  simp [addInstance, inst]

end Additions

/-! ### Look-up -/

/-- A module has the given name if it is the first one that does. -/
lemma moduleNamed?_eq_some_iff {name : String} : p.moduleNamed? name = some m ↔
    m < p.modules.size ∧ Text.sameName (p.module m).name name = true ∧
      ∀ j < m, Text.sameName (p.module j).name name = false := by
  have hmod : ∀ j, (h : j < p.modules.size) → p.module j = p.modules[j] := by
    intro j h
    simp [Program.module, h]
  rw [moduleNamed?, Array.findIdx?_eq_some_iff_getElem]
  constructor
  · rintro ⟨hlt, hname, hbefore⟩
    refine ⟨hlt, by rwa [hmod m hlt], fun j hj => ?_⟩
    rw [hmod j (Nat.lt_trans hj hlt)]
    simpa using hbefore j hj
  · rintro ⟨hlt, hname, hbefore⟩
    refine ⟨hlt, by rwa [← hmod m hlt], fun j hj => ?_⟩
    rw [← hmod j (Nat.lt_trans hj hlt), hbefore j hj]
    decide

/-- No module has the given name. -/
lemma sameName_of_moduleNamed?_eq_none {name : String} (h : p.moduleNamed? name = none)
    (hm : m < p.modules.size) : Text.sameName (p.module m).name name = false := by
  rw [moduleNamed?, Array.findIdx?_eq_none_iff] at h
  have hmod : p.module m = p.modules[m] := by simp [Program.module, hm]
  rw [hmod]
  exact h _ (Array.getElem_mem hm)

/-- An instance that is found belongs to the module. -/
lemma instance?_eq_some {args : List String} (h : p.instance? m args = some id) :
    id < p.instances.size ∧ (p.inst id).moduleId = m := by
  have hmem := List.mem_of_find?_eq_some h
  rw [instancesOf, List.mem_filter, List.mem_range, beq_iff_eq] at hmem
  exact hmem

/-- An instance that is found has the given arguments, up to case. -/
lemma sameNames_of_instance?_eq_some {args : List String} (h : p.instance? m args = some id) :
    Text.sameNames (p.inst id).args args = true :=
  List.find?_some (p := fun id => Text.sameNames (p.inst id).args args) h

/-- A new instance is found where none of the instances before it is. -/
lemma instance?_addInstance {j : Nat} {args args' : List String} :
    (p.addInstance m args).instance? j args' = (p.instance? j args').or
      (if m = j ∧ Text.sameNames args args' = true then some p.instances.size else none) := by
  have hold : (List.range p.instances.size).filter
      (fun id => ((p.addInstance m args).inst id).moduleId == j) = p.instancesOf j :=
    List.filter_congr fun id hid => by rw [inst_addInstance_of_lt (List.mem_range.1 hid)]
  have hfind : (p.instancesOf j).find?
      (fun id => Text.sameNames ((p.addInstance m args).inst id).args args') =
        p.instance? j args' := by
    rw [instance?, ← List.head?_filter, ← List.head?_filter]
    refine congrArg List.head? (List.filter_congr fun id hid => ?_)
    rw [instancesOf, List.mem_filter, List.mem_range] at hid
    rw [inst_addInstance_of_lt hid.1]
  rw [instance?, instancesOf, size_addInstance, List.range_succ, List.filter_append, hold,
    List.find?_append, hfind]
  congr 1
  by_cases hj : m = j
  · cases hargs : Text.sameNames args args' <;> simp [inst_addInstance_size, hj, hargs]
  · simp [inst_addInstance_size, hj]

/-- An instance is found once it has been made sure of. -/
lemma instance?_ensureInstance {args : List String} :
    (p.ensureInstance m args).1.instance? m args = some (p.ensureInstance m args).2 := by
  unfold ensureInstance
  split
  · assumption
  next hnone =>
    rw [instance?_addInstance, hnone, if_pos ⟨rfl, Text.sameNames_refl args⟩]
    rfl

end Pep10.Program

/-! ### Recorded calls -/

namespace Pep10.Module

variable {m : Module} {line target l : Nat}

lemma callAt?_setCall_self : (m.setCall line target).callAt? line = some target := by
  have hfind : (Ordered.set (fun a b => decide (a.1 < b.1)) (line, target) m.calls).find?
      (fun call => call.1 == line) = some (line, target) := by
    induction m.calls with
    | nil => simp [Ordered.set]
    | cons call calls ih =>
      rw [Ordered.set]
      split
      · simp
      · split
        next hlt =>
          have hne : (call.1 == line) = false := by
            simp only [decide_eq_true_eq] at hlt
            simp [Nat.ne_of_lt hlt]
          rw [List.find?_cons, hne, ih]
        · simp
  rw [callAt?, setCall, hfind]
  rfl

lemma callAt?_setCall_ne (h : l ≠ line) : (m.setCall line target).callAt? l = m.callAt? l := by
  have hline : (line == l) = false := by simp [h.symm]
  have hfind : (Ordered.set (fun a b => decide (a.1 < b.1)) (line, target) m.calls).find?
      (fun call => call.1 == l) = m.calls.find? fun call => call.1 == l := by
    induction m.calls with
    | nil => simp [Ordered.set, hline]
    | cons call calls ih =>
      rw [Ordered.set]
      split
      · rw [List.find?_cons, hline]
      next hle =>
        split
        · rw [List.find?_cons, List.find?_cons, ih]
        next hge =>
          have hcall : call.1 = line := by
            simp only [decide_eq_true_eq] at hle hge
            omega
          rw [List.find?_cons, List.find?_cons, hcall, hline]
  rw [callAt?, setCall, hfind, callAt?]

end Pep10.Module

namespace Pep10.Program

variable {p : Program} {id m : Nat}

lemma calls_addModule {name : String} {kind : ModuleKind} {text : String} {j : Nat} :
    ((p.addModule name kind text).module j).calls = (p.module j).calls := by
  rcases Nat.lt_trichotomy j p.modules.size with hj | rfl | hj
  · rw [module_addModule_of_lt hj]
  · rw [module_addModule_size]
    have hnone : p.module p.modules.size = default := by simp [Program.module]
    rw [hnone]
    rfl
  · have hne : j ≠ p.modules.size := Nat.ne_of_gt hj
    simp [addModule, Program.module, Array.getElem?_push, hne]

/-- A recorded call is found on its line. -/
lemma callAt?_modifyModule_setCall_self {line target : Nat} (h : m < p.modules.size) :
    ((p.modifyModule m fun owner => owner.setCall line target).module m).callAt? line =
      some target := by
  rw [module_modifyModule, if_pos ⟨rfl, h⟩]
  exact Module.callAt?_setCall_self

/-- Recording a call leaves the other lines alone. -/
lemma callAt?_modifyModule_setCall {line target j l : Nat} (h : j ≠ m ∨ l ≠ line) :
    ((p.modifyModule m fun owner => owner.setCall line target).module j).callAt? l =
      (p.module j).callAt? l := by
  rw [module_modifyModule]
  split
  next hj => exact Module.callAt?_setCall_ne (h.resolve_left fun hne => hne hj.1)
  next => rfl

/-! ### The log -/

@[simp] lemma instances_addDiagnostic {line : Nat} {d : Diagnostic} :
    (p.addDiagnostic id line d).instances = p.instances := rfl

end Pep10.Program
