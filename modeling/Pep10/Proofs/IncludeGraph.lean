import Pep10.Proofs.Program.CallRecords

/-!
# Modules, instances, records and edges

What is known of a program whose included modules have been found without a report: its modules
differ in name and the instances of one module differ in their arguments, both in more than case.  A
line of a module is recorded exactly if there is a call on it (`CallsOn`), and then it leads to an
instance of the called macro that has the arguments of the call.  One module includes another
exactly if one of its lines calls it.

Whatever the search does, it keeps instances distinct (`Distinct`), and it makes records of accepted
calls only (`RecordsAccepted`).  That no call lacks its record and its edge is what `Searched`
tells.
-/

namespace Pep10.Program

variable {p p' : Program} {lib : MacroLibrary} {text : String} {kind : ModuleKind}
  {m line child id : Nat} {found : Macro} {args : List String} {call : MacroCall}

/-- There is the given call on a line of the module `m`. -/
def CallsOn (p : Program) (m line : Nat) (call : MacroCall) : Prop :=
  ∃ source, (p.module m).lines[line]? = some source ∧ MacroCall.ofLine? source = .ok (some call)

/-- There is at most one call on a line. -/
lemma CallsOn.unique {call' : MacroCall} (h : p.CallsOn m line call) (h' : p.CallsOn m line call') :
    call' = call := by
  obtain ⟨source, hsource, hcall⟩ := h
  obtain ⟨source', hsource', hcall'⟩ := h'
  obtain rfl : source' = source := Option.some.inj (hsource'.symm.trans hsource)
  exact Option.some.inj (Except.ok.inj (hcall'.symm.trans hcall))

/-- The name of a call is not that of the root. -/
lemma CallsOn.sameName_rootName (h : p.CallsOn m line call) {name : String}
    (hname : Text.sameName name call.name = true) : Text.sameName rootName name = false := by
  obtain ⟨source, -, hcall⟩ := h
  exact Program.sameName_rootName (MacroCall.isIdentifier_name hcall) hname

/-! ### What is accepted -/

/-- A call that passes the check has as many arguments as the macro declares. -/
lemma args_length_of_checkCall (h : p.checkCall lib m call = .ok found) :
    call.args.length = found.arity := by
  unfold checkCall at h
  split at h
  · cases h
  next f hf =>
    split at h
    · cases h
    next harity =>
      have hlength : f.arity = call.args.length := by simpa using harity
      split at h
      · cases h
      · split at h
        · cases h
        · cases h
          exact hlength.symm

/-- Searching a line enters the call that is on it, if there is one. -/
lemma searchLine_cases {source : String} (h : p.searchLine lib m line source = .ok p') :
    p' = p ∨ ∃ call found, MacroCall.ofLine? source = .ok (some call) ∧
      lib.get? call.name = some found ∧ call.args.length = found.arity ∧
      p' = p.enterCall m line found call.args := by
  unfold searchLine at h
  split at h
  · cases h
  · cases h
    exact .inl rfl
  next call hcall =>
    split at h
    · cases h
    next found hcheck =>
      cases h
      exact .inr ⟨call, found, hcall, (checkCall_eq_ok hcheck).1, args_length_of_checkCall hcheck, rfl⟩

/-! ### Instances are distinct -/

/-- Two instances of one module have arguments that differ in more than case. -/
def Distinct (p : Program) : Prop :=
  ∀ a < p.instances.size, ∀ b < p.instances.size, (p.inst a).moduleId = (p.inst b).moduleId →
    Text.sameNames (p.inst a).args (p.inst b).args = true → a = b

namespace Distinct

lemma ofSource (text : String) (kind : ModuleKind) : Distinct (ofSource text kind) := by
  intro a ha b hb _ _
  rw [Nat.lt_one_iff.1 ha, Nat.lt_one_iff.1 hb]

lemma congr (h : Distinct p) (heq : p'.instances = p.instances) : Distinct p' := by
  have hinst : ∀ id, p'.inst id = p.inst id := fun id => congrArg (·.getD id default) heq
  intro a ha b hb
  rw [heq] at ha hb
  rw [hinst, hinst]
  exact h a ha b hb

/-- An instance that cannot be found differs from all instances of the module. -/
lemma sameNames_of_instance?_eq_none (hnone : p.instance? m args = none) (hid : id < p.instances.size)
    (howner : (p.inst id).moduleId = m) : Text.sameNames (p.inst id).args args ≠ true := by
  have hmem : id ∈ p.instancesOf m := by
    rw [instancesOf, List.mem_filter, List.mem_range, beq_iff_eq]
    exact ⟨hid, howner⟩
  exact List.find?_eq_none.1 hnone id hmem

/-- Instances stay distinct, because one is made only if there is none with these arguments. -/
lemma ensureInstance (h : Distinct p) (m : Nat) (args : List String) :
    Distinct (p.ensureInstance m args).1 := by
  unfold Program.ensureInstance
  split
  · exact h
  next hnone =>
    have hnew : ∀ {id}, id < p.instances.size → (p.inst id).moduleId = m →
        Text.sameNames (p.inst id).args args ≠ true :=
      sameNames_of_instance?_eq_none hnone
    intro a ha b hb howner hargs
    rw [size_addInstance, Nat.lt_succ_iff_lt_or_eq] at ha hb
    rcases ha with ha | rfl <;> rcases hb with hb | rfl
    · rw [inst_addInstance_of_lt ha, inst_addInstance_of_lt hb] at howner hargs
      exact h a ha b hb howner hargs
    · rw [inst_addInstance_of_lt ha, inst_addInstance_size] at howner hargs
      exact absurd hargs (hnew ha howner)
    · rw [inst_addInstance_of_lt hb, inst_addInstance_size] at howner hargs
      exact absurd (Text.sameNames_symm hargs) (hnew hb howner.symm)
    · rfl

lemma enterCall (h : Distinct p) (m line : Nat) (found : Macro) (args : List String) :
    Distinct (p.enterCall m line found args) := by
  unfold Program.enterCall
  rcases hmodule : p.ensureModule found.name found.body with ⟨p₁, child⟩
  obtain ⟨hinstances, -⟩ := ensureModule_spec hmodule
  have hedge : Distinct { p₁ with includes := p₁.includes.addEdge m child } := h.congr hinstances
  exact (hedge.ensureInstance child args).congr rfl

end Distinct

/-! ### Records are of accepted calls -/

/-- Every record of a module is of a line with a call, which has as many arguments as the called
macro declares. -/
def RecordsAccepted (lib : MacroLibrary) (p : Program) : Prop :=
  ∀ m < p.modules.size, ∀ record ∈ (p.module m).calls, ∃ call found, p.CallsOn m record.1 call ∧
    lib.get? call.name = some found ∧ call.args.length = found.arity

/-- There are no records of a module that does not exist. -/
lemma calls_of_size_le (h : p.modules.size ≤ m) : (p.module m).calls = [] := by
  have hnone : p.modules[m]? = none := Array.getElem?_eq_none h
  simp [Program.module, hnone]
  rfl

lemma RecordsAccepted.ofSource (text : String) (kind : ModuleKind) (lib : MacroLibrary) :
    RecordsAccepted lib (ofSource text kind) := by
  intro m hm record hrecord
  obtain rfl : m = root := Nat.lt_one_iff.1 hm
  cases hrecord

/-- A call that has been entered is the only one with a new record. -/
lemma RecordsAccepted.enters (h : RecordsAccepted lib p) (hm : m < p.modules.size)
    (hcall : p.CallsOn m line call) (hget : lib.get? call.name = some found)
    (harity : call.args.length = found.arity) (he : Enters p p' m line found child id) :
    RecordsAccepted lib p' := by
  have hkeep : ∀ {j l c}, j < p.modules.size → p.CallsOn j l c → p'.CallsOn j l c := by
    rintro j l c hj ⟨source, hsource, hc⟩
    exact ⟨source, by rwa [he.lines_eq j hj], hc⟩
  intro j _ record hrecord
  have hbefore : (j = m ∧ record = (line, id)) ∨ record ∈ (p.module j).calls := by
    by_cases hj : j = m
    · subst hj
      exact (he.mem_calls record hrecord).imp_left fun heq => ⟨rfl, heq⟩
    · rw [he.calls_eq j hj] at hrecord
      exact .inr hrecord
  rcases hbefore with ⟨rfl, rfl⟩ | hrecord
  · exact ⟨call, found, hkeep hm hcall, hget, harity⟩
  · have hj : j < p.modules.size := by
      by_contra hle
      rw [calls_of_size_le (Nat.not_lt.1 hle)] at hrecord
      cases hrecord
    obtain ⟨call', found', hcall', haccepted⟩ := h j hj record hrecord
    exact ⟨call', found', hkeep hj hcall', haccepted⟩

/-! ### The search as a whole -/

/-- What the search has brought about when it ends without a report. -/
structure Complete (text : String) (kind : ModuleKind) (lib : MacroLibrary) (p : Program) : Prop where
  charted : Charted text kind lib p
  searched : ∀ m < p.modules.size, Searched lib p m
  distinct : Distinct p
  accepted : RecordsAccepted lib p

lemma complete_of_findIncludes (h : (ofSource text kind).findIncludes lib = (p, [])) :
    Complete text kind lib p := by
  have hsteps : Distinct (searchModules lib ((ofSource text kind).modules.size + lib.macros.length) 0
        (ofSource text kind)).1 ∧
      RecordsAccepted lib (searchModules lib
        ((ofSource text kind).modules.size + lib.macros.length) 0 (ofSource text kind)).1 := by
    refine searchModules_induction (P := fun p => Distinct p ∧ RecordsAccepted lib p)
      (fun {p p' j line source} _ hP _ hj hsource heq => ?_) (Charted.ofSource text kind lib)
      ⟨.ofSource text kind, .ofSource text kind lib⟩ _
    obtain rfl | ⟨call, found, hcall, hget, harity, rfl⟩ := searchLine_cases heq
    · exact hP
    · obtain ⟨child, id, he⟩ := exists_enters p j line found call.args
      exact ⟨hP.1.enterCall j line found call.args,
        hP.2.enters hj ⟨source, hsource, hcall⟩ hget harity he⟩
  have hcharted := (Charted.ofSource text kind lib).searchModules (m := 0)
    ((ofSource text kind).modules.size + lib.macros.length)
  obtain ⟨-, hsearched, -⟩ := (collected_ofSource text kind lib).findIncludes rfl h
  unfold findIncludes at h
  rcases hq : searchModules lib ((ofSource text kind).modules.size + lib.macros.length) 0
    (ofSource text kind) with ⟨q, _ | ⟨j, line, e⟩⟩
  · rw [hq] at h hsteps hcharted
    dsimp only at h
    split at h
    · cases h
      exact ⟨hcharted, hsearched, hsteps.1, hsteps.2⟩
    · obtain ⟨-, l, hreport, -⟩ := failInclude_spec q root q.circularLine .circular
      rw [h] at hreport
      cases hreport
  · rw [hq] at h
    obtain ⟨-, l, hreport, -⟩ := failInclude_spec q j line e
    dsimp only at h
    rw [h] at hreport
    cases hreport

namespace Complete

variable (h : Complete text kind lib p)

include h

/-- A module has the name of the macro that it holds. -/
lemma name_eq_of_partOf (hm : m < p.modules.size) (hpart : p.partOf lib m = some found) :
    (p.module m).name = found.name := by
  by_cases hroot : m = root
  · rw [partOf, if_pos hroot] at hpart
    cases hpart
  · obtain ⟨found', hget, hname, -⟩ := h.charted.holds m hm hroot
    rw [partOf, if_neg hroot, hget, Option.some.injEq] at hpart
    rw [hname, hpart]

/-- A module other than the root is called somewhere, so that its name is not that of the root. -/
lemma sameName_rootName (hm : m < p.modules.size) (hne : m ≠ root) :
    Text.sameName rootName (p.module m).name = false := by
  rcases Relation.ReflTransGen.cases_tail (h.charted.reached m hm) with rfl | ⟨u, -, hedge⟩
  · exact absurd rfl hne
  · obtain ⟨source, -, found, hcalled, hpart⟩ := h.charted.edges u m hedge
    obtain ⟨call, hcall, hget⟩ := MacroLibrary.calledOn?_eq_some.1 hcalled
    rw [h.name_eq_of_partOf hm hpart]
    exact Program.sameName_rootName (MacroCall.isIdentifier_name hcall)
      (MacroLibrary.sameName_of_get? hget)

/-- Modules with names that agree up to case are the same. -/
lemma eq_of_sameName {i j : Nat} (hi : i < p.modules.size) (hj : j < p.modules.size)
    (hsame : Text.sameName (p.module i).name (p.module j).name = true) : i = j := by
  by_cases hir : i = root <;> by_cases hjr : j = root
  · rw [hir, hjr]
  · subst hir
    rw [h.charted.root_name, h.sameName_rootName hj hjr] at hsame
    cases hsame
  · subst hjr
    rw [h.charted.root_name, Text.sameName_iff, eq_comm, ← Text.sameName_iff,
      h.sameName_rootName hi hir] at hsame
    cases hsame
  · -- Both are the module of the one macro that the library has under their names.
    obtain ⟨found, hget, hname, -⟩ := h.charted.holds i hi hir
    obtain ⟨found', hget', hname', -⟩ := h.charted.holds j hj hjr
    rw [MacroLibrary.get?_congr hsame, hget', Option.some.injEq] at hget
    exact h.charted.name_inj i hi j hj (by rw [hname, hname', hget])

/-- The call on a line has been found. -/
lemma isFound (hm : m < p.modules.size) (hcall : p.CallsOn m line call) :
    ∃ found child id, IsFound lib p m line call found child id := by
  obtain ⟨source, hsource, hread⟩ := hcall
  obtain ⟨o, ho, hfinds⟩ := h.searched m hm line source hsource
  exact hfinds call (Except.ok.inj (ho.symm.trans hread))

/-- A line is recorded exactly if there is a call on it. -/
lemma callAt?_iff (hm : m < p.modules.size) :
    (∃ id, (p.module m).callAt? line = some id) ↔ ∃ call, p.CallsOn m line call := by
  constructor
  · rintro ⟨id, hid⟩
    obtain ⟨call, -, hcall, -⟩ := h.accepted m hm _ (mem_calls_of_callAt? hid)
    exact ⟨call, hcall⟩
  · rintro ⟨call, hcall⟩
    obtain ⟨found, child, id, hfound⟩ := h.isFound hm hcall
    exact ⟨id, hfound.callAt_eq⟩

/-- The instance that is recorded for a line is one of the called macro, with the arguments of the
call. -/
lemma recorded (hm : m < p.modules.size) (hcall : p.CallsOn m line call)
    (hid : (p.module m).callAt? line = some id) :
    id < p.instances.size ∧ ∃ found, lib.get? call.name = some found ∧
      (p.module (p.inst id).moduleId).name = found.name ∧
      (p.module (p.inst id).moduleId).lines = Text.lines found.body ∧
      Text.sameNames (p.inst id).args call.args = true ∧ call.args.length = found.arity := by
  obtain ⟨found, child, id', hfound⟩ := h.isFound hm hcall
  obtain rfl : id' = id := Option.some.inj (hfound.callAt_eq.symm.trans hid)
  obtain ⟨call', found', hcall', hget', harity⟩ := h.accepted m hm _ (mem_calls_of_callAt? hid)
  obtain rfl := hcall.unique hcall'
  obtain rfl : found' = found := Option.some.inj (hget'.symm.trans hfound.get_eq)
  obtain ⟨hlt, rfl⟩ := instance?_eq_some hfound.instance_eq
  have hsame := (moduleNamed?_eq_some_iff.1 hfound.named).2.1
  have hne : (p.inst id').moduleId ≠ root := by
    intro hroot
    rw [hroot, h.charted.root_name,
      hcall.sameName_rootName (MacroLibrary.sameName_of_get? hfound.get_eq)] at hsame
    cases hsame
  obtain ⟨found, hget, hname, hlines⟩ := h.charted.holds _ (h.charted.owner_lt id' hlt) hne
  rw [MacroLibrary.get?_congr hsame, MacroLibrary.get?_name hfound.get_eq, Option.some.injEq] at hget
  subst hget
  exact ⟨hlt, found', hfound.get_eq, hname, hlines, sameNames_of_instance?_eq_some hfound.instance_eq,
    harity⟩

/-- A module that a line calls by name is the one to which the search has led an edge. -/
lemma edge_of_callsOn (hm : m < p.modules.size) (hchild : child < p.modules.size)
    (hcall : p.CallsOn m line call)
    (hname : Text.sameName (p.module child).name call.name = true) :
    (m, child) ∈ p.includes.edges := by
  obtain ⟨found, child', id, hfound⟩ := h.isFound hm hcall
  obtain ⟨hchild', hsame, -⟩ := moduleNamed?_eq_some_iff.1 hfound.named
  have hget := MacroLibrary.sameName_of_get? hfound.get_eq
  rw [Text.sameName_iff] at hname hsame hget
  obtain rfl : child' = child :=
    h.eq_of_sameName hchild' hchild (Text.sameName_iff.2 (by rw [hsame, hget, hname]))
  exact hfound.edge

/-- One module includes another exactly if it calls it by name on one of its lines. -/
lemma mem_edges_iff : (m, child) ∈ p.includes.edges ↔
    m < p.modules.size ∧ child < p.modules.size ∧ ∃ line call, p.CallsOn m line call ∧
      Text.sameName (p.module child).name call.name = true := by
  constructor
  · intro hedge
    have hm := (h.charted.vertices m).1 (h.charted.closed _ hedge)
    have hchild := (h.charted.vertices child).1 (h.charted.ends _ hedge)
    obtain ⟨source, hsource, found, hcalled, hpart⟩ := h.charted.edges m child hedge
    rw [← h.charted.lines_eq hm] at hsource
    obtain ⟨line, hline⟩ := List.getElem?_of_mem hsource
    obtain ⟨call, hcall, hget⟩ := MacroLibrary.calledOn?_eq_some.1 hcalled
    refine ⟨hm, hchild, line, call, ⟨source, hline, hcall⟩, ?_⟩
    rw [h.name_eq_of_partOf hchild hpart]
    exact MacroLibrary.sameName_of_get? hget
  · rintro ⟨hm, hchild, line, call, hcall, hname⟩
    exact h.edge_of_callsOn hm hchild hcall hname

end Complete

/-- If the included modules are found without a report, then the modules differ in name and the
instances of one module differ in their arguments, both in more than case.  A line of a module is
recorded exactly if there is a call on it, and then it leads to an instance of the module that holds
the called macro, with the arguments of the call up to case, as many as the macro declares.  One
module includes another exactly if it calls it by name on one of its lines. -/
theorem findIncludes_graph (h : (ofSource text kind).findIncludes lib = (p, [])) :
    (∀ i < p.modules.size, ∀ j < p.modules.size,
        Text.sameName (p.module i).name (p.module j).name = true → i = j) ∧
      (∀ a < p.instances.size, ∀ b < p.instances.size, (p.inst a).moduleId = (p.inst b).moduleId →
        Text.sameNames (p.inst a).args (p.inst b).args = true → a = b) ∧
      (∀ m < p.modules.size, ∀ line,
        ((∃ id, (p.module m).callAt? line = some id) ↔ ∃ call, p.CallsOn m line call) ∧
        ∀ id call, (p.module m).callAt? line = some id → p.CallsOn m line call →
          id < p.instances.size ∧ ∃ found, lib.get? call.name = some found ∧
            (p.module (p.inst id).moduleId).name = found.name ∧
            (p.module (p.inst id).moduleId).lines = Text.lines found.body ∧
            Text.sameNames (p.inst id).args call.args = true ∧ call.args.length = found.arity) ∧
      ∀ m child, (m, child) ∈ p.includes.edges ↔
        m < p.modules.size ∧ child < p.modules.size ∧ ∃ line call, p.CallsOn m line call ∧
          Text.sameName (p.module child).name call.name = true := by
  have hp := complete_of_findIncludes h
  refine ⟨fun i hi j hj => hp.eq_of_sameName hi hj, hp.distinct, fun m hm line => ?_, fun m child => ?_⟩
  · exact ⟨hp.callAt?_iff hm, fun id call hid hcall => hp.recorded hm hcall hid⟩
  · exact hp.mem_edges_iff

/-- A macro that calls another one with its own argument. -/
def storingLibrary : MacroLibrary :=
  ⟨[⟨"Store", 1, .user, "@Store 1\n.BYTE $1\n.END\n"⟩,
    ⟨"Twice", 1, .user, "@Twice 1\n@store x\n@STORE X\n.END\n"⟩]⟩

/-- The last line of the macro that calls the other one leads to the instance that the first root
line has made, whose arguments are written in another case. -/
theorem findIncludes_graph_nested :
    ∃ p, (ofSource "@store x\n.BYTE 0\n@TWICE 3 ; @store\n.END\n" .userProgram).findIncludes storingLibrary =
        (p, []) ∧ 2 < p.modules.size ∧ (p.module root).callAt? 0 = some 1 ∧
      (p.module 2).callAt? 1 = some 1 ∧
      (∃ call found, p.CallsOn 2 1 call ∧ storingLibrary.get? call.name = some found ∧
        (p.module (p.inst 1).moduleId).name = found.name ∧
        Text.sameNames (p.inst 1).args call.args = true ∧ call.args.length = found.arity) ∧
      ∃ line call, p.CallsOn 2 line call ∧ Text.sameName (p.module 1).name call.name = true := by
  obtain ⟨f, hf⟩ : ∃ f, f = (ofSource "@store x\n.BYTE 0\n@TWICE 3 ; @store\n.END\n"
    .userProgram).findIncludes storingLibrary := ⟨_, rfl⟩
  obtain ⟨hreport, hsize, hroot, hlast, hedge⟩ : f.2 = [] ∧ 2 < f.1.modules.size ∧
      (f.1.module root).callAt? 0 = some 1 ∧ (f.1.module 2).callAt? 1 = some 1 ∧
      (2, 1) ∈ f.1.includes.edges := by
    rw [hf]
    decide +kernel
  have hfound : (ofSource "@store x\n.BYTE 0\n@TWICE 3 ; @store\n.END\n" .userProgram).findIncludes
      storingLibrary = (f.1, []) := by rw [← hf, ← hreport]
  obtain ⟨-, -, hrecords, hedges⟩ := findIncludes_graph hfound
  obtain ⟨hiff, hrecorded⟩ := hrecords 2 hsize 1
  obtain ⟨call, hcall⟩ := hiff.1 ⟨1, hlast⟩
  obtain ⟨-, found, hget, hname, -, hsame, harity⟩ := hrecorded 1 call hlast hcall
  exact ⟨f.1, hfound, hsize, hroot, hlast, ⟨call, found, hcall, hget, hname, hsame, harity⟩,
    ((hedges 2 1).1 hedge).2.2⟩

end Pep10.Program
