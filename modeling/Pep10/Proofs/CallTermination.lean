import Mathlib.Algebra.Order.Ring.Nat
import Pep10.Proofs.Program.Descent

/-!
# Calls come to an end

The search for included modules refuses a module that includes itself, on the text of the modules.
An assembled program binds calls to instances by the text that results from the arguments.  Nothing
can come in by that: the call relation of an assembled program has no cycles, and so everything that
follows calls comes to an end, on the program itself and on what linking and tracing make of it.
-/

namespace Pep10

/-- The instance and the line of a site, whatever root line it comes from. -/
def Site.place (site : Site) : Nat × Line := (site.owner, site.line)

namespace Line

variable {line : Line} {symbols : SymbolStore} {table target : Nat}

/-- A call takes no room itself. -/
lemma size_of_target? (h : line.statement.target? = some target) : line.size symbols table = 0 := by
  obtain ⟨statement⟩ := line
  cases statement <;> first | rfl | cases h

/-- A call has no code itself. -/
lemma code_of_target? (h : line.statement.target? = some target) : line.code symbols table = [] := by
  obtain ⟨statement⟩ := line
  cases statement <;> first | exact ite_self _ | cases h

end Line

namespace Program

variable {p q : Program} {rank : Nat → Nat} {id : Nat} {text : String} {kind : ModuleKind}
  {lib lib' : MacroLibrary}

/-! ### Sizes and code by recursion along calls -/

lemma sitesFrom_places (depth : Nat) (rootLine rootLine' : Option Nat) (id : Nat) :
    (p.sitesFrom depth rootLine id).map Site.place = (p.sitesFrom depth rootLine' id).map Site.place := by
  induction depth generalizing rootLine rootLine' id with
  | zero => rfl
  | succ depth ih =>
    rw [sitesFrom, sitesFrom, List.map_flatMap, List.map_flatMap]
    refine List.flatMap_congr fun x _ => ?_
    obtain ⟨line, index⟩ := x
    dsimp only
    cases line.statement with
    | call name args target => exact congrArg (List.cons _) (ih _ _ target)
    | _ => rfl

/-- The places of some lines of an instance are the lines, each followed by the places of the
instance that it calls. -/
lemma sitesOfLines_places (index : Nat) (lines : List Line) :
    (p.sitesOfLines p.instances.size none id index lines).map Site.place = lines.flatMap fun line =>
      (id, line) :: match line.statement.target? with
        | some target => (p.sites target).map Site.place
        | none => [] := by
  induction lines generalizing index with
  | nil => rfl
  | cons line rest ih =>
    rw [sitesOfLines, List.map_append, ih, List.flatMap_cons, List.map_cons]
    refine congrArg (· ++ _) (congrArg (List.cons _) ?_)
    cases line.statement.target? with
    | none => rfl
    | some target => exact sitesFrom_places _ _ none target

lemma Descends.places_eq (h : p.Descends rank) (hid : id < p.instances.size) :
    (p.sites id).map Site.place = (p.inst id).lines.flatMap fun line =>
      (id, line) :: match line.statement.target? with
        | some target => (p.sites target).map Site.place
        | none => [] := by
  obtain ⟨rank', h', hlt⟩ := h.exists_lt
  have hdeeper : p.sites id = p.sitesFrom (p.instances.size + 1) none id :=
    h'.sitesFrom_eq none (hlt id hid) (Nat.lt_succ_of_lt (hlt id hid))
  rw [hdeeper, sitesFrom_succ, sitesOfLines_places]

lemma codeOf_eq_places (p : Program) (id : Nat) :
    p.codeOf id =
      ((p.sites id).map Site.place).flatMap fun x => x.2.code p.symbols (p.inst x.1).table := by
  rw [codeOf, List.flatMap_map]
  rfl

lemma byteCount_eq_places (p : Program) (id : Nat) :
    p.byteCount id =
      (((p.sites id).map Site.place).map fun x => (x.2.size p.symbols (p.inst x.1).table).toNat).sum := by
  rw [byteCount, List.map_map, List.sum, List.foldr_map]
  rfl

/-- The object code of an instance is that of its lines, that of a call being the code of the
instance that is called. -/
lemma Descends.codeOf_eq (h : p.Descends rank) (hid : id < p.instances.size) :
    p.codeOf id = (p.inst id).lines.flatMap fun line =>
      match line.statement.target? with
      | some target => p.codeOf target
      | none => line.code p.symbols (p.inst id).table := by
  rw [codeOf_eq_places, h.places_eq hid, List.flatMap_assoc]
  refine List.flatMap_congr fun line _ => ?_
  rw [List.flatMap_cons]
  cases ht : line.statement.target? with
  | none => exact List.append_nil _
  | some target =>
    rw [Line.code_of_target? ht, List.nil_append]
    exact (codeOf_eq_places p target).symm

/-- The number of bytes of an instance is that of its lines, that of a call being the number of
bytes of the instance that is called. -/
lemma Descends.byteCount_eq (h : p.Descends rank) (hid : id < p.instances.size) :
    p.byteCount id = ((p.inst id).lines.map fun line =>
      match line.statement.target? with
      | some target => p.byteCount target
      | none => (line.size p.symbols (p.inst id).table).toNat).sum := by
  rw [byteCount_eq_places, h.places_eq hid]
  induction (p.inst id).lines with
  | nil => rfl
  | cons line rest ih =>
    rw [List.flatMap_cons, List.map_append, List.sum_append, ih, List.map_cons, List.sum_cons]
    refine congrArg (· + _) ?_
    dsimp only
    cases ht : line.statement.target? with
    | none => exact Nat.add_zero _
    | some target =>
      rw [Line.size_of_target? ht]
      exact (Nat.zero_add _).trans (byteCount_eq_places p target).symm

/-! ### The phases behind assembly -/

/-- Everything that walks along calls comes to an end: a bound on the depth that is at least the
number of instances is not felt, and sizes and code are what the recursion along calls makes of
them. -/
structure WalksEnd (p : Program) : Prop where
  sites : ∀ depth rootLine, ∀ id < p.instances.size, p.instances.size ≤ depth →
    p.sitesFrom depth rootLine id = p.sitesFrom p.instances.size rootLine id
  reachable : ∀ n, ∀ id < p.instances.size, p.instances.size ≤ n → p.levels n [id] = p.reachable id
  listing : ∀ depth, ∀ id < p.instances.size, p.instances.size ≤ depth →
    p.listInstance depth id = p.listInstance p.instances.size id
  finish : ∀ depth address, ∀ id < p.instances.size, p.instances.size ≤ depth →
    p.instanceEnd depth address id = p.instanceEnd p.instances.size address id
  layout : ∀ emits depth address, ∀ id < p.instances.size, p.instances.size ≤ depth →
    layInstance emits depth p address id = layInstance emits p.instances.size p address id
  byteCount : ∀ id < p.instances.size, p.byteCount id = ((p.inst id).lines.map fun line =>
    match line.statement.target? with
    | some target => p.byteCount target
    | none => (line.size p.symbols (p.inst id).table).toNat).sum
  codeOf : ∀ id < p.instances.size, p.codeOf id = (p.inst id).lines.flatMap fun line =>
    match line.statement.target? with
    | some target => p.codeOf target
    | none => line.code p.symbols (p.inst id).table

lemma Descends.walksEnd (h : p.Descends rank) : p.WalksEnd := by
  obtain ⟨rank', h', hlt⟩ := h.exists_lt
  constructor
  · intro depth rootLine id hid hdepth
    exact h'.sitesFrom_eq rootLine (Nat.lt_of_lt_of_le (hlt id hid) hdepth) (hlt id hid)
  · intro n id hid hn
    refine h'.levels_eq (fun j hj => ?_) fun j hj => ?_
    · rw [List.mem_singleton.1 hj]
      exact Nat.lt_of_lt_of_le (hlt id hid) hn
    · rw [List.mem_singleton.1 hj]
      exact hlt id hid
  · intro depth id hid hdepth
    exact h'.listInstance_eq (Nat.lt_of_lt_of_le (hlt id hid) hdepth) (hlt id hid)
  · intro depth address id hid hdepth
    exact h'.instanceEnd_eq address (Nat.lt_of_lt_of_le (hlt id hid) hdepth) (hlt id hid)
  · intro emits depth address id hid hdepth
    exact h'.layInstance_eq emits address (Nat.lt_of_lt_of_le (hlt id hid) hdepth) (hlt id hid)
  · exact fun id hid => h.byteCount_eq hid
  · exact fun id hid => h.codeOf_eq hid

/-- What linking and tracing make of a program: the program itself, the program behind the first
pass of linking, the linked program, and the annotated one. -/
def stages (p : Program) (exports : Option (List ExportedSymbol)) (options : Options) : List Program :=
  [p, (Linker.linkInstance p.instances.size (Linker.start p exports) root).1.program,
    (p.link exports options).1, (p.link exports options).1.annotate.1]

lemma descends_start (h : p.Descends rank) (exports : Option (List ExportedSymbol)) :
    (Linker.start p exports).program.Descends rank :=
  (SameCalls.of_instances_eq instances_start).descends h

/-- Linking and tracing keep the ranks, with faults or without. -/
lemma Descends.stages (h : p.Descends rank) (hroot : root < p.instances.size)
    (exports : Option (List ExportedSymbol)) (options : Options) :
    ∀ q ∈ p.stages exports options, q.Descends rank := by
  have hpass : (Linker.linkInstance p.instances.size (Linker.start p exports) root).1.program.Descends
      rank :=
    (Linker.keepsDescent_linkInstance rank _ _ root (descends_start h exports)
      (by rwa [instances_start])).1
  have hlink : SameCalls (Linker.linkInstance p.instances.size (Linker.start p exports) root).1.program
      (p.link exports options).1 := by
    rw [link]
    dsimp only
    split
    · exact (finishLink_sameCalls _ _ options).trans (.of_instances_eq (instances_addDiagnostics _ _ _))
    · exact .of_instances_eq (instances_addDiagnostics _ _ _)
  have hlinked := hlink.descends hpass
  intro q hq
  simp only [Program.stages, List.mem_cons, List.not_mem_nil, or_false] at hq
  rcases hq with rfl | rfl | rfl | rfl
  · exact h
  · exact hpass
  · exact hlinked
  · exact (SameCalls.of_retraced (Retraced.annotate _)).descends hlinked

/-! ### The result -/

/-- The calls of an assembled program are bound to assembled instances, and no instance is called
from itself.  Linking it is not cut short by the number of instances; and on the program, and on
what linking and tracing make of it, whatever they report, going along calls comes to an end, as
does everything that does so. -/
theorem calls_wellFounded_of_assemble {p₁ : Program}
    (hfind : (ofSource text kind).findIncludes lib = (p₁, []))
    (hassemble : p₁.assemble lib = (p, lib', [])) :
    (∀ a b, p.Calls a b → b < p.instances.size ∧ (p.inst b).assembled = true) ∧
      (∀ a, ¬Relation.TransGen p.Calls a a) ∧
      (∀ exports depth, p.instances.size ≤ depth →
        Linker.linkInstance depth (Linker.start p exports) root =
          Linker.linkInstance p.instances.size (Linker.start p exports) root) ∧
      ∀ exports options, ∀ q ∈ p.stages exports options,
        (WellFounded fun b a => q.Calls a b) ∧ q.WalksEnd := by
  have hready := ready_of_assemble hfind hassemble
  obtain ⟨rank, h⟩ := descends_of_assemble hfind hassemble
  refine ⟨fun a b hab => ⟨(h.calls hab).1, ?_⟩, h.not_transGen, fun exports depth hdepth => ?_,
    fun exports options q hq => ?_⟩
  · obtain ⟨line, hline, ht⟩ := List.mem_filterMap.1 hab
    have ha : a < p.instances.size := by
      by_contra hge
      rw [lines_of_size_le (Nat.le_of_not_lt hge)] at hline
      cases hline
    exact hready.target_assembled a ha line hline b ht
  · obtain ⟨rank', h', hlt⟩ := h.exists_lt
    have hroot : (Linker.start p exports).program.rankOf rank' root < p.instances.size := by
      rw [rankOf, inst_start]
      exact hlt root hready.root_lt
    exact Linker.linkInstance_eq (descends_start h' exports)
      (by rw [instances_start]; exact hready.root_lt) (Nat.lt_of_lt_of_le hroot hdepth) hroot
  · have hq' := h.stages hready.root_lt exports options q hq
    exact ⟨hq'.wellFounded, hq'.walksEnd⟩

/-- Macros of which one calls another one twice. -/
def nestedLibrary : MacroLibrary :=
  ⟨[⟨"TWICE", 0, .user, "@TWICE 0\n@ONCE 7\n@ONCE 7\n.END\n"⟩,
    ⟨"ONCE", 1, .user, "@ONCE 1\nLDWA $1,i\n.END\n"⟩]⟩

/-- A program with nested calls, the last of which takes a symbol that nothing declares. -/
def nestedSource : String := "@TWICE\n@ONCE 7\n@ONCE x\n.END\n"

/-- An instance is shared by calls on several levels, and linking reports a symbol: still every call
goes to an assembled instance, none goes round, and sizes follow the recursion. -/
theorem calls_wellFounded_nested :
    ∃ p₁ p lib', (ofSource nestedSource .userProgram).findIncludes nestedLibrary = (p₁, []) ∧
      p₁.assemble nestedLibrary = (p, lib', []) ∧ p.callsOf root = [1, 2, 3] ∧ p.callsOf 1 = [2, 2] ∧
      (p.link none {}).2 ≠ [] ∧ (p.inst 2).assembled = true ∧ (∀ a, ¬Relation.TransGen p.Calls a a) ∧
      (WellFounded fun b a => (p.link none {}).1.Calls a b) ∧ (p.link none {}).1.WalksEnd := by
  obtain ⟨f, hf⟩ : ∃ f, f = (ofSource nestedSource .userProgram).findIncludes nestedLibrary := ⟨_, rfl⟩
  obtain ⟨a, ha⟩ : ∃ a, a = f.1.assemble nestedLibrary := ⟨_, rfl⟩
  obtain ⟨hfind, hassemble, hroot, hcalls, hreports⟩ : f.2 = [] ∧ a.2.2 = [] ∧
      a.1.callsOf root = [1, 2, 3] ∧ a.1.callsOf 1 = [2, 2] ∧ (a.1.link none {}).2 ≠ [] := by
    rw [ha, hf, ofSource_of_chars nestedSource rfl]
    decide +kernel
  have hfind' : (ofSource nestedSource .userProgram).findIncludes nestedLibrary = (f.1, []) := by
    rw [← hf, ← hfind]
  have hassemble' : f.1.assemble nestedLibrary = (a.1, a.2.1, []) := by
    rw [← ha, ← hassemble]
  obtain ⟨hbound, hacyclic, -, hstages⟩ := calls_wellFounded_of_assemble hfind' hassemble'
  have hlinked := hstages none {} (a.1.link none {}).1 (by simp [stages])
  refine ⟨f.1, a.1, a.2.1, hfind', hassemble', hroot, hcalls, hreports, (hbound 1 2 ?_).2, hacyclic, hlinked⟩
  rw [Calls, hcalls]
  exact List.mem_cons_self

end Program

end Pep10
