import Pep10.Proofs.CircularInclusion
import Pep10.Proofs.Digraph.Route

/-!
# What the search records of calls

The search for included modules records on which line of a module which instance is called.  What is
said here of these records is shown by induction on the lines that are searched
(`searchModules_induction`): a record leads to an instance of a module that is included
(`RecordsCalls`), every module has an instance, and every instance but the root has been made for a
call on some line (`Sourced`).  It follows that in the end all instances can be reached from the
root along recorded calls (`Charted.reflTransGen_records`).

A search that is given up in another module than the root has recorded the calls of the root before.
-/

namespace Pep10.Program

open Relation (ReflTransGen)

variable {p p' q : Program} {lib : MacroLibrary} {text : String} {kind : ModuleKind}
  {m line child id n j : Nat} {found : Macro} {args : List String}

/-! ### Induction on the lines that are searched -/

lemma searchLines_induction {P : Program → Prop}
    (hstep : ∀ {p p' : Program} {line : Nat} {source : String}, Charted text kind lib p → P p →
      m < p.modules.size → (p.module m).lines[line]? = some source →
      p.searchLine lib m line source = .ok p' → P p')
    (h : Charted text kind lib p) (hP : P p) (hm : m < p.modules.size) {sources : List String}
    (hsources : sources = (p.module m).lines.drop line) : P (searchLines lib m line sources p).1 := by
  induction sources generalizing p line with
  | nil => exact hP
  | cons source rest ih =>
    have hsource : (p.module m).lines[line]? = some source := by
      rw [← List.head?_drop, ← hsources, List.head?_cons]
    have hrest : rest = (p.module m).lines.drop (line + 1) := by
      rw [← List.tail_drop, ← hsources, List.tail_cons]
    rw [searchLines]
    split
    · exact hP
    next p' heq =>
      obtain ⟨h', hgrows⟩ := h.searchLine hm hsource heq
      exact ih h' (hstep h hP hm hsource heq) (Nat.lt_of_lt_of_le hm hgrows.size_le)
        (by rw [hgrows.lines_eq m hm, hrest])

/-- What every search of a line keeps is kept when modules are searched, also if the search is given
up. -/
lemma searchModules_induction {P : Program → Prop}
    (hstep : ∀ {p p' : Program} {j line : Nat} {source : String}, Charted text kind lib p → P p →
      m ≤ j → j < p.modules.size → (p.module j).lines[line]? = some source →
      p.searchLine lib j line source = .ok p' → P p')
    (h : Charted text kind lib p) (hP : P p) (n : Nat) : P (searchModules lib n m p).1 := by
  induction n generalizing p m with
  | zero => exact hP
  | succ n ih =>
    rw [searchModules]
    split
    next hm =>
      have hlines := (List.drop_zero (l := (p.module m).lines)).symm
      obtain ⟨h', -⟩ := h.searchLines hm hlines
      have hP' : P (searchLines lib m 0 (p.module m).lines p).1 :=
        searchLines_induction (fun h hP => hstep h hP (Nat.le_refl m)) h hP hm hlines
      split
      next q failure hq =>
        rw [hq] at hP'
        exact hP'
      next q hq =>
        rw [hq] at h' hP'
        exact ih (fun h hP hj => hstep h hP (Nat.le_of_succ_le hj)) h' hP'
    · exact hP

/-- The module in which a search is given up exists. -/
lemma searchModules_failure (h : Charted text kind lib p) {failure : Nat × IncludeError}
    (heq : searchModules lib n m p = (q, some (j, failure))) : j < q.modules.size := by
  induction n generalizing p m with
  | zero => cases heq
  | succ n ih =>
    rw [searchModules] at heq
    split at heq
    next hm =>
      obtain ⟨h', hgrows⟩ := h.searchLines hm (List.drop_zero (l := (p.module m).lines)).symm
      split at heq
      next hq =>
        cases heq
        rw [hq] at hgrows
        exact Nat.lt_of_lt_of_le hm hgrows.size_le
      next hq =>
        rw [hq] at h'
        exact ih h' heq
    next => cases heq

/-! ### Searching a line -/

lemma lt_or_eq_of_ensureInstance (h : p.ensureInstance m args = (p', id))
    (hj : j < p'.instances.size) : j < p.instances.size ∨ j = id := by
  unfold ensureInstance at h
  split at h
  · cases h
    exact .inl hj
  · cases h
    rwa [size_addInstance, Nat.lt_succ_iff_lt_or_eq] at hj

/-- A new instance is the one that is recorded for the line. -/
lemma lt_or_callAt?_of_enterCall (hm : m < p.modules.size)
    (hj : j < (p.enterCall m line found args).instances.size) :
    j < p.instances.size ∨ ((p.enterCall m line found args).module m).callAt? line = some j := by
  unfold enterCall at hj ⊢
  rcases hmodule : p.ensureModule found.name found.body with ⟨p₁, child⟩
  obtain ⟨hinstances, -, -, -, -, hchild⟩ := ensureModule_spec hmodule
  rw [hmodule] at hj
  dsimp only at hj ⊢
  rcases hinstance : ({ p₁ with includes := p₁.includes.addEdge m child } : Program).ensureInstance
    child args with ⟨p₂, id⟩
  obtain ⟨hsame, -⟩ := ensureInstance_spec hinstance
  rw [hinstance] at hj
  have hm' : m < p₂.modules.size := by
    rw [hsame]
    change m < p₁.modules.size
    rcases hchild with ⟨-, hsize, -⟩ | ⟨-, hsize, -⟩ <;> omega
  rw [callAt?_modifyModule_setCall_self hm']
  rcases lt_or_eq_of_ensureInstance hinstance hj with hj | rfl
  · rw [← hinstances]
    exact .inl hj
  · exact .inr rfl

lemma log_enterCall : (p.enterCall m line found args).log = p.log := by
  have hmodule : ∀ name body, (p.ensureModule name body).1.log = p.log := by
    intro name body
    unfold ensureModule
    split <;> rfl
  have hinstance : ∀ q : Program, ∀ m, (q.ensureInstance m args).1.log = q.log := by
    intro q m
    unfold ensureInstance
    split <;> rfl
  exact (hinstance _ _).trans (hmodule _ _)

/-- Searching a line logs nothing. -/
lemma log_searchLine {source : String} (h : p.searchLine lib m line source = .ok p') :
    p'.log = p.log := by
  unfold searchLine at h
  split at h
  · cases h
  · cases h
    rfl
  · split at h
    · cases h
    · cases h
      exact log_enterCall

/-! ### Records -/

/-- The line is recorded to lead from an instance to another one. -/
def Records (p : Program) (a b : Nat) : Prop :=
  ∃ line, (line, b) ∈ (p.module (p.inst a).moduleId).calls

/-- Every record of a module leads to an instance of a module that it includes. -/
def RecordsCalls (p : Program) : Prop :=
  ∀ m, ∀ call ∈ (p.module m).calls, call.2 < p.instances.size ∧
    p.includes.Edge m (p.inst call.2).moduleId

/-- Every module has an instance. -/
def Peopled (p : Program) : Prop :=
  ∀ m < p.modules.size, ∃ id < p.instances.size, (p.inst id).moduleId = m

/-- The call on a line of a module is one of the given instance. -/
def CalledOn (lib : MacroLibrary) (p : Program) (m line id : Nat) : Prop :=
  ∃ source call found child, (p.module m).lines[line]? = some source ∧
    MacroCall.ofLine? source = .ok (some call) ∧ lib.get? call.name = some found ∧
    p.moduleNamed? found.name = some child ∧ p.instance? child call.args = some id

/-- Every instance but the root is called on some line. -/
def Sourced (lib : MacroLibrary) (p : Program) : Prop :=
  ∀ id < p.instances.size, id ≠ root → ∃ m < p.modules.size, ∃ line, CalledOn lib p m line id

lemma CalledOn.grows (h : CalledOn lib p m line id) (hm : m < p.modules.size) (hg : Grows p p') :
    CalledOn lib p' m line id := by
  obtain ⟨source, call, found, child, hsource, hcall, hget, hnamed, hinst⟩ := h
  exact ⟨source, call, found, child, by rwa [hg.lines_eq m hm], hcall, hget, hg.named hnamed,
    hg.found hinst⟩

lemma RecordsCalls.enters (h : RecordsCalls p) (he : Enters p p' m line found child id) :
    RecordsCalls p' := by
  intro j call hcall
  have hbefore : (j = m ∧ call = (line, id)) ∨ call ∈ (p.module j).calls := by
    by_cases hj : j = m
    · subst hj
      exact (he.mem_calls call hcall).imp_left fun heq => ⟨rfl, heq⟩
    · rw [he.calls_eq j hj] at hcall
      exact .inr hcall
  rcases hbefore with ⟨rfl, rfl⟩ | hcall
  · refine ⟨he.id_lt, (he.mem_edges _).2 (.inl ?_)⟩
    rw [he.moduleId_eq]
  · obtain ⟨hlt, hedge⟩ := h j call hcall
    refine ⟨Nat.lt_of_lt_of_le hlt he.size_le, ?_⟩
    rw [he.inst_eq _ hlt]
    exact he.edge_of_edge hedge

lemma Peopled.enters (h : Peopled p) (he : Enters p p' m line found child id) : Peopled p' := by
  intro j hj
  rcases he.lt_or_eq hj with hj | rfl
  · obtain ⟨a, ha, hmodule⟩ := h j hj
    exact ⟨a, Nat.lt_of_lt_of_le ha he.size_le, by rw [he.inst_eq a ha, hmodule]⟩
  · exact ⟨id, he.id_lt, he.moduleId_eq⟩

lemma Sourced.searchLine (h : Sourced lib p) (hp : Charted text kind lib p) {source : String}
    (hm : m < p.modules.size) (hsource : (p.module m).lines[line]? = some source)
    (heq : p.searchLine lib m line source = .ok p') : Sourced lib p' := by
  obtain ⟨-, hgrows, ⟨o, ho, hfinds⟩, -⟩ :=
    hp.toCollected.searchLine hm (hp.lines m hm source (List.mem_of_getElem? hsource)) heq
  intro j hj hne
  have hsource' : (p'.module m).lines[line]? = some source := by rwa [hgrows.lines_eq m hm]
  have hcases : j < p.instances.size ∨ (∃ call, o = some call) ∧
      (p'.module m).callAt? line = some j := by
    unfold Program.searchLine at heq
    split at heq
    · cases heq
    · cases heq
      exact .inl hj
    next call hcall =>
      split at heq
      · cases heq
      · cases heq
        refine (lt_or_callAt?_of_enterCall hm hj).imp_right fun hnew => ⟨⟨call, ?_⟩, hnew⟩
        exact Except.ok.inj (ho.symm.trans hcall)
  rcases hcases with hold | ⟨⟨call, rfl⟩, hnew⟩
  · obtain ⟨m', hm', line', hcalled⟩ := h j hold hne
    exact ⟨m', Nat.lt_of_lt_of_le hm' hgrows.size_le, line', hcalled.grows hm' hgrows⟩
  · obtain ⟨found, child, id, hf⟩ := hfinds call rfl
    obtain rfl : id = j := Option.some.inj (hf.callAt_eq.symm.trans hnew)
    exact ⟨m, Nat.lt_of_lt_of_le hm hgrows.size_le, line, source, call, found, child, hsource', ho,
      hf.get_eq, hf.named, hf.instance_eq⟩

/-- What is recorded, whether the search is given up or not. -/
structure SearchRecords (lib : MacroLibrary) (p : Program) : Prop where
  log_eq : p.log = {}
  calls : RecordsCalls p
  peopled : Peopled p
  sourced : Sourced lib p

lemma SearchRecords.ofSource (text : String) (kind : ModuleKind) (lib : MacroLibrary) :
    SearchRecords lib (ofSource text kind) where
  log_eq := rfl
  calls m call hcall := by
    have hnil : ((Program.ofSource text kind).module m).calls = [] := by
      cases m <;> rfl
    rw [hnil] at hcall
    cases hcall
  peopled m hm := by
    obtain rfl : m = root := Nat.lt_one_iff.1 hm
    exact ⟨root, Nat.one_pos, rfl⟩
  sourced id hid hne := absurd (Nat.lt_one_iff.1 hid) hne

lemma SearchRecords.searchModules (text : String) (kind : ModuleKind) (lib : MacroLibrary) (n : Nat) :
    SearchRecords lib (Program.searchModules lib n root (Program.ofSource text kind)).1 := by
  refine searchModules_induction (fun {p p' j line source} hp h _ hj hsource heq => ?_)
    (Charted.ofSource text kind lib) (SearchRecords.ofSource text kind lib) n
  have hsourced := h.sourced.searchLine hp hj hsource heq
  have hlog := (log_searchLine heq).trans h.log_eq
  rcases searchLine_eq_ok heq with ⟨-, rfl⟩ | ⟨found, child, id, -, -, he⟩
  · exact h
  · exact ⟨hlog, h.calls.enters he, h.peopled.enters he, hsourced⟩

/-! ### The root in a search that is given up -/

lemma Searched.searchLine (h : Searched lib p root) (hp : Charted text kind lib p) {source : String}
    (hm : m < p.modules.size) (hne : m ≠ root) (hsource : (p.module m).lines[line]? = some source)
    (heq : p.searchLine lib m line source = .ok p') : Searched lib p' root := by
  obtain ⟨-, hgrows, -, hcalls⟩ :=
    hp.toCollected.searchLine hm (hp.lines m hm source (List.mem_of_getElem? hsource)) heq
  intro i source' hsource'
  rw [hgrows.lines_eq root hp.root_lt_size] at hsource'
  exact (h i source' hsource').grows hgrows (hcalls root i (.inl hne.symm))

/-- If the search is given up in another module, then the root has been searched. -/
lemma searched_root {failure : Nat × IncludeError} (hne : j ≠ root)
    (heq : searchModules lib n root (ofSource text kind) = (q, some (j, failure))) :
    Searched lib q root := by
  have hp := Charted.ofSource text kind lib
  cases n with
  | zero => cases heq
  | succ n =>
    rw [searchModules, if_pos hp.root_lt_size] at heq
    obtain ⟨h', -⟩ :=
      hp.searchLines hp.root_lt_size (List.drop_zero (l := ((ofSource text kind).module root).lines)).symm
    rcases hq : searchLines lib root 0 ((ofSource text kind).module root).lines (ofSource text kind) with
      ⟨p₁, _ | failure'⟩
    · rw [hq] at h' heq
      obtain ⟨-, hgrows, hfinds, -⟩ :=
        hp.toCollected.searchLines hp.root_lt_size (hp.lines root hp.root_lt_size) hq
      have hroot : Searched lib p₁ root := by
        intro i source hsource
        rw [hgrows.lines_eq root hp.root_lt_size] at hsource
        simpa using hfinds i source hsource
      have hend := searchModules_induction (m := 1) (fun {p p' j line source} hp h hj hm hsource heq =>
        Searched.searchLine h hp hm (Nat.ne_of_gt hj) hsource heq) h' hroot n
      have heq : searchModules lib n 1 p₁ = (q, some (j, failure)) := heq
      rw [heq] at hend
      exact hend
    · rw [hq] at heq
      cases heq
      exact absurd rfl hne

/-! ### Records when all lines have been searched -/

/-- A line that leads to an instance has a record of it. -/
lemma mem_calls_of_callAt? (h : (p.module m).callAt? line = some id) :
    (line, id) ∈ (p.module m).calls := by
  obtain ⟨⟨l, i⟩, hfind, rfl⟩ := Option.map_eq_some_iff.1 h
  obtain rfl : l = line := by simpa using List.find?_some hfind
  exact List.mem_of_find?_eq_some hfind

/-- A line on which an instance is called is recorded to lead to that instance. -/
lemma CalledOn.mem_calls (h : CalledOn lib p m line id) (hs : Searched lib p m) :
    (line, id) ∈ (p.module m).calls := by
  obtain ⟨source, call, found, child, hsource, hcall, hget, hnamed, hinst⟩ := h
  obtain ⟨o, ho, hfinds⟩ := hs line source hsource
  obtain rfl : o = some call := Except.ok.inj (ho.symm.trans hcall)
  obtain ⟨found', child', id', hf⟩ := hfinds call rfl
  obtain rfl : found' = found := Option.some.inj (hf.get_eq.symm.trans hget)
  obtain rfl : child' = child := Option.some.inj (hf.named.symm.trans hnamed)
  obtain rfl : id' = id := Option.some.inj (hf.instance_eq.symm.trans hinst)
  exact mem_calls_of_callAt? hf.callAt_eq

/-- If a module has been searched, then each module that it includes is called on one of its
lines. -/
lemma Charted.exists_call_of_edge (h : Charted text kind lib p) (hs : Searched lib p m)
    (hedge : p.includes.Edge m child) :
    ∃ call ∈ (p.module m).calls, (p.inst call.2).moduleId = child := by
  obtain ⟨source, hsource, found, hcalled, hpart⟩ := h.edges m child hedge
  rw [← h.lines_eq ((h.vertices m).1 (h.closed _ hedge))] at hsource
  obtain ⟨line, hline⟩ := List.getElem?_of_mem hsource
  obtain ⟨child', id, hedge', hpart', hcall, hmodule⟩ := h.exists_called hs hline hcalled
  refine ⟨(line, id), mem_calls_of_callAt? hcall, hmodule.trans ?_⟩
  exact h.injOn_partOf ((h.vertices _).1 (h.ends _ hedge')) ((h.vertices _).1 (h.ends _ hedge))
    (hpart'.trans hpart.symm)

/-- In a program all modules of which have been searched, all instances can be reached from the root
along recorded calls. -/
lemma Charted.reflTransGen_records (h : Charted text kind lib p)
    (hs : ∀ m < p.modules.size, Searched lib p m) (hsourced : Sourced lib p)
    (hid : id < p.instances.size) : ReflTransGen p.Records root id := by
  -- Some instance of each module can be reached, and the calls of a module are those of all its instances.
  have hmodule : ∀ m, ReflTransGen p.includes.Edge root m →
      ∃ a, ReflTransGen p.Records root a ∧ (p.inst a).moduleId = m := by
    intro m hm
    induction hm with
    | refl => exact ⟨root, .refl, (h.owner_root root h.root_lt).2 rfl⟩
    | @tail u v _ hedge ih =>
      obtain ⟨a, hreach, rfl⟩ := ih
      obtain ⟨⟨line, b⟩, hcall, hb⟩ :=
        h.exists_call_of_edge (hs _ ((h.vertices _).1 (h.closed _ hedge))) hedge
      exact ⟨b, hreach.tail ⟨line, hcall⟩, hb⟩
  by_cases hroot : id = root
  · rw [hroot]
  · obtain ⟨m, hm, line, hcalled⟩ := hsourced id hid hroot
    obtain ⟨a, hreach, rfl⟩ := hmodule m (h.reached m hm)
    exact hreach.tail ⟨line, hcalled.mem_calls (hs _ hm)⟩

end Pep10.Program
