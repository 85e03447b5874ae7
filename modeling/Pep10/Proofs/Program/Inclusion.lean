import Mathlib.Data.List.Nodup
import Mathlib.Data.List.Perm.Subperm
import Pep10.Proofs.Digraph.Pruning
import Pep10.Proofs.Macro.Call
import Pep10.Proofs.Program.Access
import Pep10.Proofs.Text.Split
import Pep10.Program.Inclusion

/-!
# The modules and instances that have been found

What is known of a program when the modules that it includes have been found.  `Collected` is the
invariant of the search: instances are fresh, the root is the instance of the root module and of no
other, and modules have different names that come from the library.  The last point bounds the
number of modules, so that all of them are searched.  `Finds` is what searching a line brings about:
a call on the line has become an edge of inclusion, and the line is recorded to lead to an instance
with the arguments of the call.
-/

namespace Pep10.Program

variable {p p' q : Program} {lib : MacroLibrary} {text : String} {kind : ModuleKind}
  {m line : Nat}

/-! ### The invariant -/

/-- What can be an argument: an at sign in it has a quote before it, and it is part of a line. -/
structure IsArgument (arg : String) : Prop where
  hides_at : MacroCall.Hides '@' .outside arg.toList
  newline_not_mem : '\n' ∉ arg.toList

/-- The invariant of the search for included modules, the root having the given text and kind. -/
structure Collected (text : String) (kind : ModuleKind) (lib : MacroLibrary) (p : Program) :
    Prop where
  closed : p.includes.Closed
  sizes : p.symbols.size = p.instances.size
  tables : ∀ i, p.symbols.table i = {}
  fresh : ∀ id < p.instances.size, ∃ m args, p.inst id = { moduleId := m, args, table := id }
  root_lt : root < p.instances.size
  root_args : (p.inst root).args = []
  owner_lt : ∀ id < p.instances.size, (p.inst id).moduleId < p.modules.size
  owner_root : ∀ id < p.instances.size, (p.inst id).moduleId = root ↔ id = root
  isArgument : ∀ id < p.instances.size, ∀ arg ∈ (p.inst id).args, IsArgument arg
  root_name : (p.module root).name = rootName
  root_kind : (p.module root).kind = kind
  root_lines : (p.module root).lines = Text.lines text
  lines : ∀ m < p.modules.size, ∀ l ∈ (p.module m).lines, '\n' ∉ l.toList
  name_inj : ∀ i < p.modules.size, ∀ j < p.modules.size,
    (p.module i).name = (p.module j).name → i = j
  name_mem : ∀ m < p.modules.size, m ≠ root → (p.module m).name ∈ lib.macros.map Macro.name

/-- The program of a text, from the characters of the text: to compute with it no text has to be
decoded. -/
lemma ofSource_of_chars (text : String) {cs : List Char} (h : text = String.ofList cs)
    (kind : ModuleKind) :
    ofSource text kind = addInstance
      { modules := #[{
          name := rootName, kind
          lines := (Text.linesOfFields (Text.fields (· == '\n') cs)).map String.ofList }]
        includes := ({} : Program).includes.addVertex 0 } root [] := by
  rw [h, ofSource, addModule, Text.lines, String.toList_ofList]
  rfl

/-- At the start there is the root and nothing else. -/
lemma collected_ofSource (text : String) (kind : ModuleKind) (lib : MacroLibrary) :
    Collected text kind lib (ofSource text kind) := by
  have hmodule : (ofSource text kind).module root =
      { name := rootName, kind, lines := Text.lines text } := rfl
  have hinst : (ofSource text kind).inst root = { moduleId := root, args := [], table := root } := rfl
  have hroot : ∀ {n : Nat}, n < 1 → n = root := fun h => Nat.lt_one_iff.1 h
  refine ⟨nofun, rfl, ?_, ?_, Nat.one_pos, rfl, ?_, ?_, ?_, rfl, rfl, rfl, ?_, ?_, ?_⟩
  · exact SymbolStore.table_push_empty fun _ => rfl
  · intro id hid
    rw [hroot hid]
    exact ⟨root, [], hinst⟩
  · intro id hid
    rw [hroot hid]
    exact Nat.one_pos
  · intro id hid
    rw [hroot hid, hinst]
  · intro id hid
    rw [hroot hid, hinst]
    exact nofun
  · intro m hm
    rw [hroot hm, hmodule]
    exact fun l hl => Text.newline_not_mem_lines hl
  · intro i hi j hj _
    rw [hroot hi, hroot hj]
  · intro m hm hne
    exact absurd (hroot hm) hne

/-- There are no more modules than macros in the library, and the root. -/
lemma Collected.size_modules_le (h : Collected text kind lib p) :
    p.modules.size ≤ lib.macros.length + 1 := by
  have hnodup : ((List.range' 1 (p.modules.size - 1)).map fun m => (p.module m).name).Nodup := by
    refine List.Nodup.map_on (fun i hi j hj heq => ?_) List.nodup_range'
    rw [List.mem_range'_1] at hi hj
    exact h.name_inj i (by omega) j (by omega) heq
  have hsub : ((List.range' 1 (p.modules.size - 1)).map fun m => (p.module m).name) ⊆
      lib.macros.map Macro.name := by
    intro name hname
    obtain ⟨m, hm, rfl⟩ := List.mem_map.1 hname
    rw [List.mem_range'_1] at hm
    exact h.name_mem m (by omega) (by rw [root]; omega)
  have hle := (hnodup.subperm hsub).length_le
  simp only [List.length_map, List.length_range'] at hle
  omega

/-! ### Growth -/

/-- What later steps of the search keep of the modules and of the instances. -/
structure Grows (p p' : Program) : Prop where
  size_le : p.modules.size ≤ p'.modules.size
  lines_eq : ∀ m < p.modules.size, (p'.module m).lines = (p.module m).lines
  named : ∀ {name : String} {m : Nat}, p.moduleNamed? name = some m → p'.moduleNamed? name = some m
  edges : ∀ e ∈ p.includes.edges, e ∈ p'.includes.edges
  found : ∀ {m : Nat} {args : List String} {id : Nat},
    p.instance? m args = some id → p'.instance? m args = some id

namespace Grows

lemma refl (p : Program) : Grows p p :=
  ⟨Nat.le_refl _, fun _ _ => rfl, fun h => h, fun _ h => h, fun h => h⟩

lemma trans (h : Grows p q) (h' : Grows q p') : Grows p p' where
  size_le := Nat.le_trans h.size_le h'.size_le
  lines_eq m hm := (h'.lines_eq m (Nat.lt_of_lt_of_le hm h.size_le)).trans (h.lines_eq m hm)
  named hm := h'.named (h.named hm)
  edges e he := h'.edges e (h.edges e he)
  found hid := h'.found (h.found hid)

/-- Names are found as before if modules keep their names and new ones come at the end. -/
lemma moduleNamed? {name : String} (hsize : p.modules.size ≤ p'.modules.size)
    (hname : ∀ m < p.modules.size, (p'.module m).name = (p.module m).name)
    (h : p.moduleNamed? name = some m) : p'.moduleNamed? name = some m := by
  rw [moduleNamed?_eq_some_iff] at h ⊢
  obtain ⟨hlt, hsame, hbefore⟩ := h
  refine ⟨Nat.lt_of_lt_of_le hlt hsize, by rwa [hname m hlt], fun j hj => ?_⟩
  rw [hname j (Nat.lt_trans hj hlt)]
  exact hbefore j hj

end Grows

/-! ### Steps -/

/-- The name of the root is no identifier, in either case. -/
lemma sameName_rootName {name other : String} (hname : Text.isIdentifier name.toList = true)
    (h : Text.sameName other name = true) : Text.sameName rootName other = false := by
  rw [← Bool.not_eq_true]
  intro hroot
  simp only [Text.sameName, beq_iff_eq] at h hroot
  rw [h] at hroot
  cases hs : name.toList with
  | nil => rw [hs] at hname; cases hname
  | cons c s =>
    rw [hs] at hroot hname
    have hstart : Text.isNameStart c = true := by
      simp only [Text.isIdentifier, Bool.and_eq_true] at hname
      exact hname.1
    refine Text.toLower_ne_at hstart ?_
    have hhead : some '@' = some c.toLower := congrArg List.head? hroot
    exact (Option.some.inj hhead).symm

namespace Collected

/-- A macro that no module has the name of becomes a module. -/
lemma addModule (h : Collected text kind lib p) {found : Macro} (hmem : found ∈ lib.macros)
    (hnone : p.moduleNamed? found.name = none) (body : String) :
    Collected text kind lib (p.addModule found.name .macroBody body) := by
  have hpos : root < p.modules.size := by
    have := h.owner_lt root h.root_lt
    rwa [(h.owner_root root h.root_lt).2 rfl] at this
  have hlt : ∀ {m}, m < (p.addModule found.name .macroBody body).modules.size →
      m < p.modules.size ∨ m = p.modules.size := by
    intro m hm
    rw [size_modules_addModule] at hm
    omega
  -- The name differs from all names before.
  have hnew : ∀ m < p.modules.size, (p.module m).name ≠ found.name := by
    intro m hm heq
    have := sameName_of_moduleNamed?_eq_none hnone hm
    rw [heq] at this
    simp [Text.sameName] at this
  exact { h with
    closed := h.closed.addVertex _
    owner_lt := fun id hid => by
      rw [size_modules_addModule]
      exact Nat.lt_succ_of_lt (h.owner_lt id hid)
    root_name := by
      rw [module_addModule_of_lt hpos]
      exact h.root_name
    root_kind := by
      rw [module_addModule_of_lt hpos]
      exact h.root_kind
    root_lines := by
      rw [module_addModule_of_lt hpos]
      exact h.root_lines
    lines := fun m hm => by
      rcases hlt hm with hm | rfl
      · rw [module_addModule_of_lt hm]
        exact h.lines m hm
      · rw [module_addModule_size]
        exact fun l hl => Text.newline_not_mem_lines hl
    name_inj := fun i hi j hj heq => by
      rcases hlt hi with hi | rfl <;> rcases hlt hj with hj | rfl
      · rw [module_addModule_of_lt hi, module_addModule_of_lt hj] at heq
        exact h.name_inj i hi j hj heq
      · rw [module_addModule_of_lt hi, module_addModule_size] at heq
        exact absurd heq (hnew i hi)
      · rw [module_addModule_of_lt hj, module_addModule_size] at heq
        exact absurd heq.symm (hnew j hj)
      · rfl
    name_mem := fun m hm hne => by
      rcases hlt hm with hm | rfl
      · rw [module_addModule_of_lt hm]
        exact h.name_mem m hm hne
      · rw [module_addModule_size]
        exact List.mem_map_of_mem hmem }

/-- A macro that is called becomes a module other than the root. -/
lemma ensureModule (h : Collected text kind lib p) {found : Macro} (hmem : found ∈ lib.macros)
    (hroot : Text.sameName rootName found.name = false) {child : Nat}
    (heq : p.ensureModule found.name found.body = (p', child)) :
    Collected text kind lib p' ∧ Grows p p' ∧ p'.moduleNamed? found.name = some child ∧
      child ≠ root := by
  unfold Program.ensureModule at heq
  split at heq
  next m hm =>
    cases heq
    refine ⟨h, .refl p, hm, ?_⟩
    rintro rfl
    have hsame := (moduleNamed?_eq_some_iff.1 hm).2.1
    rw [h.root_name, hroot] at hsame
    cases hsame
  next hnone =>
    cases heq
    have hsize : p.modules.size ≤ (p.addModule found.name .macroBody found.body).modules.size := by
      rw [size_modules_addModule]
      exact Nat.le_succ _
    refine ⟨h.addModule hmem hnone _, ⟨hsize, ?_, ?_, fun _ he => he, fun hid => hid⟩, ?_, ?_⟩
    · exact fun m hm => congrArg Module.lines (module_addModule_of_lt hm)
    · exact Grows.moduleNamed? hsize fun m hm => congrArg Module.name (module_addModule_of_lt hm)
    · rw [moduleNamed?_eq_some_iff, size_modules_addModule, module_addModule_size]
      refine ⟨Nat.lt_succ_self _, by simp [Text.sameName], fun j hj => ?_⟩
      rw [module_addModule_of_lt hj]
      exact sameName_of_moduleNamed?_eq_none hnone hj
    · have := h.owner_lt root h.root_lt
      exact Nat.ne_of_gt (Nat.lt_of_le_of_lt (Nat.zero_le _) this)

/-- A call becomes an instance of the module. -/
lemma ensureInstance (h : Collected text kind lib p) {args : List String} (hm : m < p.modules.size)
    (hroot : m ≠ root) (hargs : ∀ arg ∈ args, IsArgument arg) :
    Collected text kind lib (p.ensureInstance m args).1 ∧ Grows p (p.ensureInstance m args).1 := by
  unfold Program.ensureInstance
  split
  · exact ⟨h, .refl p⟩
  · refine ⟨?_, Nat.le_refl _, fun _ _ => rfl, fun hn => hn, fun _ he => he,
      fun hid => by rw [instance?_addInstance, hid]; rfl⟩
    have hlt : ∀ {id}, id < (p.addInstance m args).instances.size →
        id < p.instances.size ∨ id = p.instances.size := by
      intro id hid
      rw [size_addInstance] at hid
      omega
    exact { h with
      sizes := by
        rw [size_addInstance, ← h.sizes]
        exact SymbolStore.size_push _
      tables := SymbolStore.table_push_empty h.tables
      fresh := fun id hid => by
        rcases hlt hid with hid | rfl
        · rw [inst_addInstance_of_lt hid]
          exact h.fresh id hid
        · rw [inst_addInstance_size, h.sizes]
          exact ⟨m, args, rfl⟩
      root_lt := by
        rw [size_addInstance]
        exact Nat.lt_succ_of_lt h.root_lt
      root_args := by
        rw [inst_addInstance_of_lt h.root_lt]
        exact h.root_args
      owner_lt := fun id hid => by
        rcases hlt hid with hid | rfl
        · rw [inst_addInstance_of_lt hid]
          exact h.owner_lt id hid
        · rw [inst_addInstance_size]
          exact hm
      owner_root := fun id hid => by
        rcases hlt hid with hid | rfl
        · rw [inst_addInstance_of_lt hid]
          exact h.owner_root id hid
        · rw [inst_addInstance_size]
          exact ⟨fun hmr => absurd hmr hroot, fun hid => absurd hid (Nat.ne_of_gt h.root_lt)⟩
      isArgument := fun id hid => by
        rcases hlt hid with hid | rfl
        · rw [inst_addInstance_of_lt hid]
          exact h.isArgument id hid
        · rw [inst_addInstance_size]
          exact hargs }

/-- An edge of inclusion is added. -/
lemma addEdge (h : Collected text kind lib p) (child : Nat) :
    Collected text kind lib { p with includes := p.includes.addEdge m child } ∧
      Grows p { p with includes := p.includes.addEdge m child } :=
  ⟨{ h with closed := h.closed.addEdge m child },
    { Grows.refl p with edges := fun _ he => Digraph.mem_edges_addEdge.2 (.inr he) }⟩

/-- Recording a call changes nothing that matters. -/
lemma setCall (h : Collected text kind lib p) (line target : Nat) :
    Collected text kind lib (p.modifyModule m fun owner => owner.setCall line target) ∧
      Grows p (p.modifyModule m fun owner => owner.setCall line target) := by
  have hmodule : ∀ j, ((p.modifyModule m fun owner => owner.setCall line target).module j).name =
        (p.module j).name ∧
      ((p.modifyModule m fun owner => owner.setCall line target).module j).kind =
        (p.module j).kind ∧
      ((p.modifyModule m fun owner => owner.setCall line target).module j).lines =
        (p.module j).lines := by
    intro j
    rw [module_modifyModule]
    split <;> exact ⟨rfl, rfl, rfl⟩
  have hsize : (p.modifyModule m fun owner => owner.setCall line target).modules.size =
      p.modules.size :=
    size_modules_modifyModule
  constructor
  · exact { h with
      owner_lt := fun id hid => by rw [hsize]; exact h.owner_lt id hid
      root_name := (hmodule root).1.trans h.root_name
      root_kind := (hmodule root).2.1.trans h.root_kind
      root_lines := (hmodule root).2.2.trans h.root_lines
      lines := fun j hj => by rw [(hmodule j).2.2]; exact h.lines j (by rwa [hsize] at hj)
      name_inj := fun i hi j hj heq => by
        rw [(hmodule i).1, (hmodule j).1] at heq
        rw [hsize] at hi hj
        exact h.name_inj i hi j hj heq
      name_mem := fun j hj hne => by
        rw [(hmodule j).1]
        exact h.name_mem j (by rwa [hsize] at hj) hne }
  · exact ⟨hsize.ge, fun j _ => (hmodule j).2.2,
      Grows.moduleNamed? hsize.ge fun j _ => (hmodule j).1, fun _ he => he, fun hid => hid⟩

end Collected

/-! ### The search -/

/-- The call on a line of the module `m` has been found: the module includes the called one, and the
line is recorded to lead to the first instance whose arguments agree with those of the call. -/
structure IsFound (lib : MacroLibrary) (p : Program) (m line : Nat) (call : MacroCall)
    (found : Macro) (child id : Nat) : Prop where
  get_eq : lib.get? call.name = some found
  named : p.moduleNamed? found.name = some child
  edge : (m, child) ∈ p.includes.edges
  instance_eq : p.instance? child call.args = some id
  callAt_eq : (p.module m).callAt? line = some id
  no_placeholder : ∀ arg ∈ call.args, Placeholder.first? arg.toList = none

/-- A line of the module `m` has been searched: if there is a call on it, then the call has been
found. -/
def Finds (lib : MacroLibrary) (p : Program) (m line : Nat) (source : String) : Prop :=
  ∃ o, MacroCall.ofLine? source = .ok o ∧ ∀ call, o = some call →
    ∃ found child id, IsFound lib p m line call found child id

lemma Finds.grows {source : String} (h : Finds lib p m line source) (hg : Grows p p')
    (hcall : (p'.module m).callAt? line = (p.module m).callAt? line) :
    Finds lib p' m line source := by
  obtain ⟨o, ho, hfound⟩ := h
  refine ⟨o, ho, fun call hc => ?_⟩
  obtain ⟨found, child, id, hf⟩ := hfound call hc
  exact ⟨found, child, id, hf.get_eq, hg.named hf.named, hg.edges _ hf.edge,
    hg.found hf.instance_eq, hcall.trans hf.callAt_eq, hf.no_placeholder⟩

/-- A call that passes the check calls a macro of the library, without placeholders. -/
lemma checkCall_eq_ok {call : MacroCall} {found : Macro} (h : p.checkCall lib m call = .ok found) :
    lib.get? call.name = some found ∧ ∀ arg ∈ call.args, Placeholder.first? arg.toList = none := by
  unfold checkCall at h
  split at h
  · cases h
  next f hf =>
    split at h
    · cases h
    · split at h
      · cases h
      · split at h
        · cases h
        next hnone =>
          cases h
          exact ⟨hf, List.findSome?_eq_none_iff.1 hnone⟩

/-- Entering a call changes the record of its line only. -/
lemma callAt?_enterCall {found : Macro} {args : List String} {j l : Nat} (h : j ≠ m ∨ l ≠ line) :
    ((p.enterCall m line found args).module j).callAt? l = (p.module j).callAt? l := by
  have hmodule : ∀ name body, (((p.ensureModule name body).1).module j).calls =
      (p.module j).calls := by
    intro name body
    unfold Program.ensureModule
    split
    · rfl
    · exact calls_addModule
  unfold Program.enterCall
  rcases hchild : p.ensureModule found.name found.body with ⟨p₁, child⟩
  have hcalls := hmodule found.name found.body
  rw [hchild] at hcalls
  dsimp only
  rw [callAt?_modifyModule_setCall h, Module.callAt?, Module.callAt?,
    show ((({ p₁ with includes := p₁.includes.addEdge m child } : Program).ensureInstance child
      args).1.module j).calls = (p₁.module j).calls from ?_, hcalls]
  unfold Program.ensureInstance
  split <;> rfl

/-- Searching a line keeps the invariant, and the line has been searched. -/
lemma Collected.searchLine (h : Collected text kind lib p) (hm : m < p.modules.size)
    {source : String} (hsource : '\n' ∉ source.toList)
    (heq : p.searchLine lib m line source = .ok p') :
    Collected text kind lib p' ∧ Grows p p' ∧ Finds lib p' m line source ∧
      ∀ j l, j ≠ m ∨ l ≠ line → (p'.module j).callAt? l = (p.module j).callAt? l := by
  unfold Program.searchLine at heq
  split at heq
  · cases heq
  next hnone =>
    cases heq
    exact ⟨h, .refl p, ⟨none, hnone, nofun⟩, fun _ _ _ => rfl⟩
  next call hcall =>
    split at heq
    · cases heq
    next found hcheck =>
      cases heq
      obtain ⟨hget, hplain⟩ := checkCall_eq_ok hcheck
      have hname : Text.sameName found.name call.name = true := by
        simpa using List.find?_some hget
      have hargs : ∀ arg ∈ call.args, IsArgument arg := fun arg harg =>
        ⟨MacroCall.hides_of_mem_args hcall harg,
          fun hmem => hsource (MacroCall.mem_of_mem_args hcall harg hmem)⟩
      have hcalls : ∀ j l, j ≠ m ∨ l ≠ line →
          ((p.enterCall m line found call.args).module j).callAt? l = (p.module j).callAt? l :=
        fun j l => callAt?_enterCall
      unfold Program.enterCall at hcalls ⊢
      rcases hchild : p.ensureModule found.name found.body with ⟨p₁, child⟩
      obtain ⟨h₁, hg₁, hnamed, hne⟩ := h.ensureModule (List.mem_of_find?_eq_some hget)
        (sameName_rootName (MacroCall.isIdentifier_name hcall) hname) hchild
      obtain ⟨h₂, hg₂⟩ := h₁.addEdge (m := m) child
      obtain ⟨h₃, hg₃⟩ := h₂.ensureInstance (moduleNamed?_eq_some_iff.1 hnamed).1 hne hargs
      obtain ⟨h₄, hg₄⟩ := h₃.setCall (m := m) line
        (({ p₁ with includes := p₁.includes.addEdge m child } : Program).ensureInstance child
          call.args).2
      rw [hchild] at hcalls
      refine ⟨h₄, hg₁.trans (hg₂.trans (hg₃.trans hg₄)), ⟨some call, hcall, ?_⟩, hcalls⟩
      rintro _ ⟨⟩
      refine ⟨found, child, _, hget, hg₄.named (hg₃.named (hg₂.named hnamed)), ?_,
        hg₄.found instance?_ensureInstance, callAt?_modifyModule_setCall_self ?_, hplain⟩
      · exact hg₄.edges _ (hg₃.edges _ (Digraph.mem_edges_addEdge.2 (.inl rfl)))
      · exact Nat.lt_of_lt_of_le hm (hg₁.trans (hg₂.trans hg₃)).size_le

/-- Searching lines keeps the invariant, and all of them have been searched.  Only the lines at hand
are recorded. -/
lemma Collected.searchLines (h : Collected text kind lib p) (hm : m < p.modules.size)
    {sources : List String} (hsources : ∀ source ∈ sources, '\n' ∉ source.toList)
    (heq : searchLines lib m line sources p = (p', none)) :
    Collected text kind lib p' ∧ Grows p p' ∧
      (∀ i source, sources[i]? = some source → Finds lib p' m (line + i) source) ∧
      ∀ j l, j ≠ m ∨ l < line → (p'.module j).callAt? l = (p.module j).callAt? l := by
  induction sources generalizing p line with
  | nil =>
    cases heq
    exact ⟨h, .refl _, fun i source hi => by simp at hi, fun _ _ _ => rfl⟩
  | cons source rest ih =>
    rw [Program.searchLines] at heq
    split at heq
    · cases heq
    next q hq =>
      rw [List.forall_mem_cons] at hsources
      obtain ⟨h₁, hg₁, hfinds, hcalls⟩ := h.searchLine hm hsources.1 hq
      obtain ⟨h₂, hg₂, hrest, hcalls'⟩ :=
        ih h₁ (Nat.lt_of_lt_of_le hm hg₁.size_le) hsources.2 heq
      refine ⟨h₂, hg₁.trans hg₂, fun i other hi => ?_, fun j l hjl => ?_⟩
      · cases i with
        | zero =>
          obtain rfl : source = other := by simpa using hi
          exact hfinds.grows hg₂ (hcalls' m line (.inr (Nat.lt_succ_self _)))
        | succ i =>
          rw [List.getElem?_cons_succ] at hi
          rw [show line + (i + 1) = line + 1 + i by omega]
          exact hrest i other hi
      · rw [hcalls' j l (hjl.imp_right Nat.lt_succ_of_lt),
          hcalls j l (hjl.imp_right Nat.ne_of_lt)]

/-- All lines of a module have been searched. -/
def Searched (lib : MacroLibrary) (p : Program) (m : Nat) : Prop :=
  ∀ i source, (p.module m).lines[i]? = some source → Finds lib p m i source

/-- If the modules before `m` have been searched and there are rounds enough for all others, then
all modules have been searched in the end. -/
lemma Collected.searchModules {n : Nat} (h : Collected text kind lib p)
    (hbefore : ∀ j < m, j < p.modules.size → Searched lib p j)
    (hrounds : lib.macros.length + 1 ≤ n + m)
    (heq : searchModules lib n m p = (p', none)) :
    Collected text kind lib p' ∧ ∀ j < p'.modules.size, Searched lib p' j := by
  induction n generalizing p m with
  | zero =>
    cases heq
    have := h.size_modules_le
    exact ⟨h, fun j hj => hbefore j (by omega) hj⟩
  | succ n ih =>
    rw [Program.searchModules] at heq
    split at heq
    next hm =>
      split at heq
      · cases heq
      next q hq =>
        obtain ⟨h₁, hg, hfinds, hcalls⟩ := h.searchLines hm (h.lines m hm) hq
        refine ih h₁ (fun j hj hj' => ?_) (by omega) heq
        intro i source hsource
        rcases Nat.lt_succ_iff_lt_or_eq.1 hj with hj | rfl
        · rw [hg.lines_eq j (Nat.lt_trans hj hm)] at hsource
          exact (hbefore j hj (Nat.lt_trans hj hm) i source hsource).grows hg
            (hcalls j i (.inl (Nat.ne_of_lt hj)))
        · rw [hg.lines_eq j hm] at hsource
          simpa using hfinds i source hsource
    next hm =>
      cases heq
      exact ⟨h, fun j hj => hbefore j (by omega) hj⟩

/-- When the included modules have been found without a report, all modules have been searched, and
inclusion goes down in rank. -/
theorem Collected.findIncludes (h : Collected text kind lib p) (hsize : p.modules.size = 1)
    (heq : p.findIncludes lib = (p', [])) :
    Collected text kind lib p' ∧ (∀ j < p'.modules.size, Searched lib p' j) ∧
      ∃ rank : Nat → Nat, ∀ e ∈ p'.includes.edges, rank e.2 < rank e.1 := by
  unfold Program.findIncludes at heq
  split at heq
  next q m line e hq =>
    unfold Program.failInclude at heq
    dsimp only at heq
    split at heq <;> cases heq
  next q hq =>
    obtain ⟨h₁, hsearched⟩ := h.searchModules (m := 0) (fun j hj => absurd hj (Nat.not_lt_zero j))
      (by rw [hsize]; omega) hq
    split at heq
    next hempty =>
      cases heq
      exact ⟨h₁, hsearched, Digraph.exists_rank h₁.closed hempty⟩
    next =>
      unfold Program.failInclude at heq
      dsimp only at heq
      split at heq <;> cases heq

end Pep10.Program
