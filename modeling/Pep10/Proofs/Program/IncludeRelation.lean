import Pep10.Proofs.Digraph.Cycles
import Pep10.Proofs.Program.Inclusion

/-!
# What includes what

A part of a program is the root or a macro of the library, and it includes the macros that are
called on its lines.  This relation is read off the source text and the library alone.  `Charted` is
what the search for included modules knows of it in every state: each module holds one part, every
edge of inclusion comes from a line, all modules are reached from the root, and the recorded calls
of the root are in the order of their lines.  Unlike what is known when all modules have been
searched, this also holds of a search that was given up.
-/

namespace Pep10

open Relation (ReflTransGen TransGen)

variable {lib : MacroLibrary} {text : String} {kind : ModuleKind}

/-! ### The relation -/

namespace MacroLibrary

/-- The macro that is called on a line. -/
def calledOn? (lib : MacroLibrary) (source : String) : Option Macro :=
  match MacroCall.ofLine? source with
  | .ok (some call) => lib.get? call.name
  | _ => none

lemma calledOn?_eq_some {source : String} {found : Macro} :
    lib.calledOn? source = some found ↔
      ∃ call, MacroCall.ofLine? source = .ok (some call) ∧ lib.get? call.name = some found := by
  unfold calledOn?
  split
  next call hcall =>
    rw [hcall]
    simp
  next hnone =>
    refine ⟨nofun, ?_⟩
    rintro ⟨call, hcall, -⟩
    exact absurd hcall (hnone call)

lemma sameName_of_get? {name : String} {found : Macro} (h : lib.get? name = some found) :
    Text.sameName found.name name = true := by
  simpa using List.find?_some h

/-- The same macro is found under all names that agree up to case. -/
lemma get?_congr {name other : String} (h : Text.sameName name other = true) :
    lib.get? name = lib.get? other := by
  rw [Text.sameName_iff] at h
  refine congrArg (List.find? · lib.macros) (funext fun m => ?_)
  rw [Bool.eq_iff_iff, Text.sameName_iff, Text.sameName_iff, h]

/-- A macro that is found under some name is found under its own. -/
lemma get?_name {name : String} {found : Macro} (h : lib.get? name = some found) :
    lib.get? found.name = some found := by
  rw [get?_congr (sameName_of_get? h), h]

end MacroLibrary

/-- The source lines of a part of a program: of a macro, or else of the root. -/
def sourceLines (text : String) : Option Macro → List String
  | none => Text.lines text
  | some found => Text.lines found.body

/-- A part of a program includes another one, which is called on a line of the first. -/
def Includes (lib : MacroLibrary) (text : String) (a b : Option Macro) : Prop :=
  ∃ source ∈ sourceLines text a, ∃ found, lib.calledOn? source = some found ∧ b = some found

/-- The root lines that call a macro from which a cycle of inclusion can be reached. -/
def circularLines (lib : MacroLibrary) (text : String) : Set Nat :=
  { line | ∃ source found, (Text.lines text)[line]? = some source ∧
    lib.calledOn? source = some found ∧ ReachesCycle (Includes lib text) (some found) }

/-! ### Entering a call -/

namespace Ordered

/-- Putting a member into an ordered list adds nothing else. -/
lemma mem_of_mem_set {α : Type} {lt : α → α → Bool} {a x : α} {l : List α} (h : x ∈ set lt a l) :
    x = a ∨ x ∈ l := by
  induction l with
  | nil => exact .inl (List.mem_singleton.1 h)
  | cons b l ih =>
    rw [set] at h
    split at h
    · exact List.mem_cons.1 h
    · split at h
      · rcases List.mem_cons.1 h with rfl | h
        · exact .inr List.mem_cons_self
        · exact (ih h).imp_right (List.mem_cons_of_mem b)
      · exact (List.mem_cons.1 h).imp_right (List.mem_cons_of_mem b)

/-- Putting a member into an ordered list keeps it in order. -/
lemma pairwise_set {α : Type} {key : α → Nat} {a : α} {l : List α}
    (h : l.Pairwise fun x y => key x < key y) :
    (set (fun x y => decide (key x < key y)) a l).Pairwise fun x y => key x < key y := by
  induction l with
  | nil => exact List.pairwise_singleton _ _
  | cons b l ih =>
    obtain ⟨hb, hl⟩ := List.pairwise_cons.1 h
    rw [set]
    split
    next hab =>
      rw [decide_eq_true_eq] at hab
      refine List.pairwise_cons.2 ⟨fun y hy => ?_, h⟩
      rcases List.mem_cons.1 hy with rfl | hy
      · exact hab
      · exact Nat.lt_trans hab (hb y hy)
    next hab =>
      rw [decide_eq_true_eq] at hab
      split
      next hba =>
        rw [decide_eq_true_eq] at hba
        refine List.pairwise_cons.2 ⟨fun y hy => ?_, ih hl⟩
        rcases mem_of_mem_set hy with rfl | hy
        · exact hba
        · exact hb y hy
      next hba =>
        rw [decide_eq_true_eq] at hba
        refine List.pairwise_cons.2 ⟨fun y hy => ?_, hl⟩
        have := hb y hy
        omega

end Ordered

namespace Program

variable {p p' : Program} {m line child id : Nat} {found : Macro} {args : List String}

/-- What entering a call on a line of the module `m` does: the module `child` holds the called
macro, and the line leads to its instance `id`. -/
structure Enters (p p' : Program) (m line : Nat) (found : Macro) (child id : Nat) : Prop where
  name_eq : ∀ j < p.modules.size, (p'.module j).name = (p.module j).name
  lines_eq : ∀ j < p.modules.size, (p'.module j).lines = (p.module j).lines
  calls_eq : ∀ j, j ≠ m → (p'.module j).calls = (p.module j).calls
  mem_calls : ∀ call ∈ (p'.module m).calls, call = (line, id) ∨ call ∈ (p.module m).calls
  sorted : (p.module m).calls.Pairwise (fun a b => a.1 < b.1) →
    (p'.module m).calls.Pairwise fun a b => a.1 < b.1
  child_eq : child < p.modules.size ∧ p'.modules.size = p.modules.size ∧
      Text.sameName (p.module child).name found.name = true ∨
    child = p.modules.size ∧ p'.modules.size = p.modules.size + 1 ∧
      (p'.module child).name = found.name ∧ (p'.module child).lines = Text.lines found.body
  inst_eq : ∀ j < p.instances.size, p'.inst j = p.inst j
  size_le : p.instances.size ≤ p'.instances.size
  id_lt : id < p'.instances.size
  moduleId_eq : (p'.inst id).moduleId = child
  mem_vertices : ∀ v, v ∈ p'.includes.vertices ↔ v = m ∨ v = child ∨ v ∈ p.includes.vertices
  mem_edges : ∀ e, e ∈ p'.includes.edges ↔ e = (m, child) ∨ e ∈ p.includes.edges

lemma calls_setCall (p : Program) (m line id j : Nat) :
    ((p.modifyModule m fun owner => owner.setCall line id).module j).calls =
      if j = m ∧ j < p.modules.size then
        Ordered.set (fun a b => decide (a.1 < b.1)) (line, id) (p.module j).calls
      else (p.module j).calls := by
  rw [module_modifyModule]
  split <;> rfl

/-- Making sure of the module of a called macro adds that module if need be, and nothing else. -/
lemma ensureModule_spec {p₁ : Program} (h : p.ensureModule found.name found.body = (p₁, child)) :
    p₁.instances = p.instances ∧ p₁.includes.edges = p.includes.edges ∧
      (∀ v, v = child ∨ v ∈ p₁.includes.vertices ↔ v = child ∨ v ∈ p.includes.vertices) ∧
      (∀ j, (p₁.module j).calls = (p.module j).calls) ∧
      (∀ j < p.modules.size, p₁.module j = p.module j) ∧
      (child < p.modules.size ∧ p₁.modules.size = p.modules.size ∧
          Text.sameName (p.module child).name found.name = true ∨
        child = p.modules.size ∧ p₁.modules.size = p.modules.size + 1 ∧
          (p₁.module child).name = found.name ∧
          (p₁.module child).lines = Text.lines found.body) := by
  unfold Program.ensureModule at h
  split at h
  next hnamed =>
    cases h
    obtain ⟨hlt, hsame, -⟩ := moduleNamed?_eq_some_iff.1 hnamed
    exact ⟨rfl, rfl, fun _ => .rfl, fun _ => rfl, fun _ _ => rfl, .inl ⟨hlt, rfl, hsame⟩⟩
  next =>
    cases h
    refine ⟨rfl, rfl, fun v => ?_, fun j => calls_addModule, fun j hj => module_addModule_of_lt hj,
      .inr ⟨rfl, size_modules_addModule, ?_, ?_⟩⟩
    · change v = _ ∨ v ∈ (p.includes.addVertex p.modules.size).vertices ↔ _
      rw [Digraph.mem_vertices_addVertex]
      grind
    · rw [module_addModule_size]
    · rw [module_addModule_size]

/-- Making sure of the instance of a call adds that instance if need be, and nothing else. -/
lemma ensureInstance_spec (h : p.ensureInstance m args = (p', id)) :
    p'.modules = p.modules ∧ p'.includes = p.includes ∧ p.instances.size ≤ p'.instances.size ∧
      (∀ j < p.instances.size, p'.inst j = p.inst j) ∧ id < p'.instances.size ∧
      (p'.inst id).moduleId = m := by
  have hfound : (p.ensureInstance m args).1.instance? m args = some (p.ensureInstance m args).2 :=
    instance?_ensureInstance
  rw [h] at hfound
  obtain ⟨hid, hm⟩ := instance?_eq_some hfound
  unfold Program.ensureInstance at h
  split at h
  next =>
    cases h
    exact ⟨rfl, rfl, Nat.le_refl _, fun _ _ => rfl, hid, hm⟩
  next =>
    cases h
    refine ⟨rfl, rfl, ?_, fun j hj => inst_addInstance_of_lt hj, hid, hm⟩
    rw [size_addInstance]
    exact Nat.le_succ _

/-- Entering a call does nothing but what `Enters` tells. -/
lemma exists_enters (p : Program) (m line : Nat) (found : Macro) (args : List String) :
    ∃ child id, Enters p (p.enterCall m line found args) m line found child id := by
  unfold enterCall
  rcases hmodule : p.ensureModule found.name found.body with ⟨p₁, child⟩
  obtain ⟨hinstances, hedges, hvertices, hcalls, hmodules, hchild⟩ := ensureModule_spec hmodule
  dsimp only
  rcases hinstance : ({ p₁ with includes := p₁.includes.addEdge m child } : Program).ensureInstance
    child args with ⟨p₂, id⟩
  obtain ⟨hsame, hincludes, hsize, hinst, hid, howner⟩ := ensureInstance_spec hinstance
  have hmod : ∀ j, p₂.module j = p₁.module j := fun j => congrArg (·.getD j default) hsame
  -- Recording the call changes neither names nor lines.
  have hkeep : ∀ j, ((p₂.modifyModule m fun owner => owner.setCall line id).module j).name =
        (p₁.module j).name ∧
      ((p₂.modifyModule m fun owner => owner.setCall line id).module j).lines =
        (p₁.module j).lines := by
    intro j
    rw [← hmod j, module_modifyModule]
    split <;> exact ⟨rfl, rfl⟩
  have hcount : (p₂.modifyModule m fun owner => owner.setCall line id).modules.size =
      p₁.modules.size := by
    rw [size_modules_modifyModule, hsame]
  refine ⟨child, id, ?_⟩
  exact {
    name_eq := fun j hj => by rw [(hkeep j).1, hmodules j hj]
    lines_eq := fun j hj => by rw [(hkeep j).2, hmodules j hj]
    calls_eq := fun j hj => by rw [calls_setCall, if_neg fun h => hj h.1, hmod, hcalls]
    mem_calls := fun call hcall => by
      rw [calls_setCall, hmod, hcalls] at hcall
      split at hcall
      · exact Ordered.mem_of_mem_set hcall
      · exact .inr hcall
    sorted := fun h => by
      rw [calls_setCall, hmod, hcalls]
      split
      · exact Ordered.pairwise_set h
      · exact h
    child_eq := by
      rw [hcount, (hkeep child).1, (hkeep child).2]
      exact hchild
    inst_eq := fun j hj => by
      rw [inst_modifyModule, hinst j (by rwa [hinstances])]
      exact congrArg (·.getD j default) hinstances
    size_le := by rwa [hinstances] at hsize
    id_lt := hid
    moduleId_eq := howner
    mem_vertices := fun v => by
      rw [includes_modifyModule, hincludes, Digraph.mem_vertices_addEdge, hvertices]
    mem_edges := fun e => by
      rw [includes_modifyModule, hincludes, Digraph.mem_edges_addEdge, hedges] }

/-- Searching a line either leaves the program alone, there being no call on the line, or enters the
call that is on it. -/
lemma searchLine_eq_ok {source : String} (h : p.searchLine lib m line source = .ok p') :
    MacroCall.ofLine? source = .ok none ∧ p' = p ∨
      ∃ found child id, lib.calledOn? source = some found ∧
        Text.sameName rootName found.name = false ∧ Enters p p' m line found child id := by
  unfold Program.searchLine at h
  split at h
  · cases h
  next hnone =>
    cases h
    exact .inl ⟨hnone, rfl⟩
  next call hcall =>
    split at h
    · cases h
    next found hcheck =>
      cases h
      obtain ⟨hget, -⟩ := checkCall_eq_ok hcheck
      obtain ⟨child, id, henters⟩ := exists_enters p m line found call.args
      refine .inr ⟨found, child, id, MacroLibrary.calledOn?_eq_some.2 ⟨call, hcall, hget⟩, ?_,
        henters⟩
      exact sameName_rootName (MacroCall.isIdentifier_name hcall) (MacroLibrary.sameName_of_get? hget)

/-- There is nothing to search behind the last module. -/
lemma searchModules_of_size_le {n : Nat} (h : p.modules.size ≤ m) :
    searchModules lib n m p = (p, none) := by
  cases n with
  | zero => rfl
  | succ n => rw [searchModules, if_neg (Nat.not_lt.2 h)]

/-! ### The invariant -/

/-- The part of the program that a module holds. -/
def partOf (p : Program) (lib : MacroLibrary) (m : Nat) : Option Macro :=
  if m = root then none else lib.get? (p.module m).name

namespace Enters

variable (he : Enters p p' m line found child id)

include he

lemma size_modules_le : p.modules.size ≤ p'.modules.size := by
  rcases he.child_eq with ⟨-, hsize, -⟩ | ⟨-, hsize, -⟩ <;> omega

lemma child_lt : child < p'.modules.size := by
  rcases he.child_eq with ⟨hlt, hsize, -⟩ | ⟨rfl, hsize, -⟩ <;> omega

/-- No module but the called one can be new. -/
lemma lt_or_eq {j : Nat} (hj : j < p'.modules.size) : j < p.modules.size ∨ j = child := by
  rcases he.child_eq with ⟨-, hsize, -⟩ | ⟨hchild, hsize, -⟩ <;> omega

/-- Modules keep their parts. -/
lemma partOf_eq {j : Nat} (hj : j < p.modules.size) : p'.partOf lib j = p.partOf lib j := by
  rw [partOf, partOf, he.name_eq j hj]

lemma edge_of_edge {u v : Nat} (huv : p.includes.Edge u v) : p'.includes.Edge u v :=
  (he.mem_edges _).2 (.inr huv)

end Enters

/-- What the search knows of inclusion in every state. -/
structure Charted (text : String) (kind : ModuleKind) (lib : MacroLibrary) (p : Program) : Prop
    extends Collected text kind lib p where
  holds : ∀ m < p.modules.size, m ≠ root → ∃ found, lib.get? (p.module m).name = some found ∧
    (p.module m).name = found.name ∧ (p.module m).lines = Text.lines found.body
  vertices : ∀ v, v ∈ p.includes.vertices ↔ v < p.modules.size
  ends : p.includes.Ends
  edges : ∀ u v, p.includes.Edge u v → Includes lib text (p.partOf lib u) (p.partOf lib v)
  reached : ∀ v < p.modules.size, ReflTransGen p.includes.Edge root v
  sorted : (p.module root).calls.Pairwise fun a b => a.1 < b.1
  calls : ∀ call ∈ (p.module root).calls, ∃ source found,
    (Text.lines text)[call.1]? = some source ∧ lib.calledOn? source = some found ∧
      call.2 < p.instances.size ∧ p.partOf lib (p.inst call.2).moduleId = some found

namespace Charted

/-- At the start there is the root and no inclusion. -/
lemma ofSource (text : String) (kind : ModuleKind) (lib : MacroLibrary) :
    Charted text kind lib (ofSource text kind) where
  toCollected := collected_ofSource text kind lib
  holds m hm hne := absurd (Nat.lt_one_iff.1 hm) hne
  vertices v := by
    change v ∈ [0] ↔ v < 1
    rw [List.mem_singleton, Nat.lt_one_iff]
  ends := nofun
  edges := nofun
  reached v hv := by
    obtain rfl : v = root := Nat.lt_one_iff.1 hv
    exact .refl
  sorted := List.Pairwise.nil
  calls := nofun

lemma root_lt_size (h : Charted text kind lib p) : root < p.modules.size :=
  Nat.lt_of_le_of_lt (Nat.zero_le _) (h.owner_lt root h.root_lt)

/-- A module has the lines of the part that it holds. -/
lemma lines_eq (h : Charted text kind lib p) (hm : m < p.modules.size) :
    (p.module m).lines = sourceLines text (p.partOf lib m) := by
  unfold partOf
  split
  next hroot =>
    subst hroot
    exact h.root_lines
  next hne =>
    obtain ⟨found, hget, -, hlines⟩ := h.holds m hm hne
    rw [hget, hlines]
    rfl

/-- A module whose name agrees with that of a macro up to case holds that macro. -/
lemma partOf_eq (h : Charted text kind lib p) (hget : lib.get? found.name = some found)
    (hroot : Text.sameName rootName found.name = false)
    (hsame : Text.sameName (p.module child).name found.name = true) :
    p.partOf lib child = some found := by
  have hne : child ≠ root := by
    rintro rfl
    rw [h.root_name, hroot] at hsame
    cases hsame
  rw [partOf, if_neg hne, MacroLibrary.get?_congr hsame, hget]

/-- When a call has been entered, the called macro is the part of its module. -/
lemma partOf_child (h : Charted text kind lib p) (hget : lib.get? found.name = some found)
    (hroot : Text.sameName rootName found.name = false) (he : Enters p p' m line found child id) :
    p'.partOf lib child = some found := by
  rcases he.child_eq with ⟨hlt, -, hsame⟩ | ⟨rfl, -, hname, -⟩
  · rw [he.partOf_eq hlt, h.partOf_eq hget hroot hsame]
  · rw [partOf, if_neg (Nat.ne_of_gt h.root_lt_size), hname, hget]

/-- When a call has been entered, the recorded calls of the root lead to the macros called on their
lines. -/
lemma calls_enters (h : Charted text kind lib p) {source : String}
    (hsource : (p.module m).lines[line]? = some source) (hcalled : lib.calledOn? source = some found)
    (he : Enters p p' m line found child id) (hchild : p'.partOf lib child = some found)
    {call : Nat × Nat} (hcall : call ∈ (p'.module root).calls) :
    ∃ source found, (Text.lines text)[call.1]? = some source ∧ lib.calledOn? source = some found ∧
      call.2 < p'.instances.size ∧ p'.partOf lib (p'.inst call.2).moduleId = some found := by
  have hbefore : (m = root ∧ call = (line, id)) ∨ call ∈ (p.module root).calls := by
    by_cases hm : root = m
    · subst hm
      exact (he.mem_calls call hcall).imp_left fun heq => ⟨rfl, heq⟩
    · rw [he.calls_eq root hm] at hcall
      exact .inr hcall
  rcases hbefore with ⟨rfl, rfl⟩ | hcall
  · rw [h.root_lines] at hsource
    exact ⟨source, found, hsource, hcalled, he.id_lt, by rw [he.moduleId_eq, hchild]⟩
  · obtain ⟨source, found, hline, hfound, hid, hpart⟩ := h.calls call hcall
    refine ⟨source, found, hline, hfound, Nat.lt_of_lt_of_le hid he.size_le, ?_⟩
    rw [he.inst_eq _ hid, he.partOf_eq (h.owner_lt _ hid), hpart]

/-- Entering a call keeps the invariant. -/
lemma enters (h : Charted text kind lib p) (h' : Collected text kind lib p') {source : String}
    (hm : m < p.modules.size) (hsource : (p.module m).lines[line]? = some source)
    (hcalled : lib.calledOn? source = some found)
    (hroot : Text.sameName rootName found.name = false)
    (he : Enters p p' m line found child id) : Charted text kind lib p' := by
  obtain ⟨call, -, hcallee⟩ := MacroLibrary.calledOn?_eq_some.1 hcalled
  have hget : lib.get? found.name = some found := MacroLibrary.get?_name hcallee
  have hchild := h.partOf_child hget hroot he
  have hinclude : Includes lib text (p.partOf lib m) (some found) := by
    refine ⟨source, ?_, found, hcalled, rfl⟩
    rw [← h.lines_eq hm]
    exact List.mem_of_getElem? hsource
  exact {
    toCollected := h'
    holds := fun j hj hne => by
      by_cases hlt : j < p.modules.size
      · rw [he.name_eq j hlt, he.lines_eq j hlt]
        exact h.holds j hlt hne
      · obtain rfl := (he.lt_or_eq hj).resolve_left hlt
        obtain ⟨-, -, hname, hlines⟩ := he.child_eq.resolve_left fun hold => hlt hold.1
        exact ⟨found, by rw [hname, hget], hname, hlines⟩
    vertices := fun v => by
      rw [he.mem_vertices, h.vertices]
      constructor
      · rintro (rfl | rfl | hv)
        · exact Nat.lt_of_lt_of_le hm he.size_modules_le
        · exact he.child_lt
        · exact Nat.lt_of_lt_of_le hv he.size_modules_le
      · exact fun hv => .inr (he.lt_or_eq hv).symm
    ends := fun e hedges => by
      rw [he.mem_vertices]
      rcases (he.mem_edges e).1 hedges with rfl | hedges
      · exact .inr (.inl rfl)
      · exact .inr (.inr (h.ends e hedges))
    edges := fun u v huv => by
      rcases (he.mem_edges _).1 huv with heq | huv
      · cases heq
        rwa [he.partOf_eq hm, hchild]
      · rw [he.partOf_eq ((h.vertices u).1 (h.closed _ huv)), he.partOf_eq ((h.vertices v).1 (h.ends _ huv))]
        exact h.edges u v huv
    reached := fun v hv => by
      have hold : ∀ v < p.modules.size, ReflTransGen p'.includes.Edge root v := fun v hv =>
        ReflTransGen.mono (fun _ _ => he.edge_of_edge) _ _ (h.reached v hv)
      rcases he.lt_or_eq hv with hv | rfl
      · exact hold v hv
      · exact (hold m hm).tail ((he.mem_edges _).2 (.inl rfl))
    sorted := by
      by_cases hmr : root = m
      · subst hmr
        exact he.sorted h.sorted
      · rw [he.calls_eq root hmr]
        exact h.sorted
    calls := fun call => h.calls_enters hsource hcalled he hchild }

/-- Searching a line keeps the invariant. -/
lemma searchLine (h : Charted text kind lib p) (hm : m < p.modules.size) {source : String}
    (hsource : (p.module m).lines[line]? = some source)
    (heq : p.searchLine lib m line source = .ok p') :
    Charted text kind lib p' ∧ Grows p p' := by
  obtain ⟨h', hgrows, -⟩ :=
    h.toCollected.searchLine hm (h.lines m hm source (List.mem_of_getElem? hsource)) heq
  refine ⟨?_, hgrows⟩
  rcases searchLine_eq_ok heq with ⟨-, rfl⟩ | ⟨found, child, id, hcalled, hroot, he⟩
  · exact h
  · exact h.enters h' hm hsource hcalled hroot he

/-- Searching lines keeps the invariant, also if the search is given up at one of them. -/
lemma searchLines (h : Charted text kind lib p) (hm : m < p.modules.size) {sources : List String}
    (hsources : sources = (p.module m).lines.drop line) :
    Charted text kind lib (searchLines lib m line sources p).1 ∧
      Grows p (searchLines lib m line sources p).1 := by
  induction sources generalizing p line with
  | nil => exact ⟨h, .refl p⟩
  | cons source rest ih =>
    have hsource : (p.module m).lines[line]? = some source := by
      rw [← List.head?_drop, ← hsources, List.head?_cons]
    have hrest : rest = (p.module m).lines.drop (line + 1) := by
      rw [← List.tail_drop, ← hsources, List.tail_cons]
    rw [Program.searchLines]
    split
    · exact ⟨h, .refl p⟩
    next p' heq =>
      obtain ⟨h', hgrows⟩ := h.searchLine hm hsource heq
      obtain ⟨h'', hgrows'⟩ := ih h' (Nat.lt_of_lt_of_le hm hgrows.size_le)
        (by rw [hgrows.lines_eq m hm, hrest])
      exact ⟨h'', hgrows.trans hgrows'⟩

/-- Searching modules keeps the invariant, also if the search is given up. -/
lemma searchModules (h : Charted text kind lib p) (n : Nat) :
    Charted text kind lib (searchModules lib n m p).1 := by
  induction n generalizing p m with
  | zero => exact h
  | succ n ih =>
    rw [Program.searchModules]
    split
    next hm =>
      obtain ⟨h', -⟩ := h.searchLines hm (List.drop_zero (l := (p.module m).lines)).symm
      split
      next q failure hq =>
        rw [hq] at h'
        exact h'
      next q hq =>
        rw [hq] at h'
        exact ih h'
    · exact h

/-- It is not for want of rounds that the search of the modules from `m` on ends: more rounds than
there can be modules left make no difference. -/
lemma searchModules_eq (h : Charted text kind lib p) {n n' : Nat}
    (hn : lib.macros.length + 1 ≤ n + m) (hn' : lib.macros.length + 1 ≤ n' + m) :
    Program.searchModules lib n m p = Program.searchModules lib n' m p := by
  induction n generalizing p m n' with
  | zero =>
    have hsize := h.size_modules_le
    rw [searchModules_of_size_le (by omega), searchModules_of_size_le (by omega)]
  | succ n ih =>
    by_cases hm : m < p.modules.size
    · have hsize := h.size_modules_le
      obtain ⟨n', rfl⟩ : ∃ k, n' = k + 1 := ⟨n' - 1, by omega⟩
      obtain ⟨h', -⟩ := h.searchLines hm (List.drop_zero (l := (p.module m).lines)).symm
      rw [Program.searchModules, Program.searchModules, if_pos hm, if_pos hm]
      rcases hq : Program.searchLines lib m 0 (p.module m).lines p with ⟨q, _ | failure⟩
      · rw [hq] at h'
        exact ih h' (by omega) (by omega)
      · rfl
    · rw [searchModules_of_size_le (Nat.not_lt.1 hm), searchModules_of_size_le (Nat.not_lt.1 hm)]

/-! ### Inclusion when all lines have been searched -/

/-- If a part of a program has been searched, then every macro that it includes is the part of a
module to which an edge of inclusion leads, and the line of the call leads to an instance of it. -/
lemma exists_called (h : Charted text kind lib p) (hs : Searched lib p m) {source : String}
    (hsource : (p.module m).lines[line]? = some source)
    (hcalled : lib.calledOn? source = some found) :
    ∃ child id, p.includes.Edge m child ∧ p.partOf lib child = some found ∧
      (p.module m).callAt? line = some id ∧ (p.inst id).moduleId = child := by
  obtain ⟨call, hcall, hget⟩ := MacroLibrary.calledOn?_eq_some.1 hcalled
  obtain ⟨o, ho, hfinds⟩ := hs line source hsource
  obtain rfl : o = some call := Except.ok.inj (ho.symm.trans hcall)
  obtain ⟨found', child, id, hf⟩ := hfinds call rfl
  obtain rfl : found' = found := Option.some.inj (hf.get_eq.symm.trans hget)
  refine ⟨child, id, hf.edge, ?_, hf.callAt_eq, (instance?_eq_some hf.instance_eq).2⟩
  exact h.partOf_eq (MacroLibrary.get?_name hget)
    (sameName_rootName (MacroCall.isIdentifier_name hcall) (MacroLibrary.sameName_of_get? hget))
    (moduleNamed?_eq_some_iff.1 hf.named).2.1

/-- In a program all modules of which have been searched, edges of inclusion lead from a module into
a cycle exactly if inclusion leads from its part into a cycle. -/
lemma reachesCycle_iff (h : Charted text kind lib p) (hs : ∀ j < p.modules.size, Searched lib p j)
    (hm : m < p.modules.size) :
    ReachesCycle p.includes.Edge m ↔ ReachesCycle (Includes lib text) (p.partOf lib m) := by
  constructor
  · exact ReachesCycle.map h.edges
  · intro hcycle
    refine ReachesCycle.of_finite
      (s := { j | j < p.modules.size ∧ ReachesCycle (Includes lib text) (p.partOf lib j) })
      ((Set.finite_lt_nat _).subset fun j hj => hj.1) ?_ ⟨hm, hcycle⟩
    rintro j ⟨hj, hcycle⟩
    obtain ⟨_, ⟨source, hsource, found, hcalled, rfl⟩, hnext⟩ := hcycle.exists_next
    rw [← h.lines_eq hj] at hsource
    obtain ⟨line, hline⟩ := List.getElem?_of_mem hsource
    obtain ⟨child, id, hedge, hpart, -⟩ := h.exists_called (hs j hj) hline hcalled
    refine ⟨child, ⟨(h.vertices child).1 (h.ends _ hedge), ?_⟩, hedge⟩
    rwa [hpart]

/-- In a program all modules of which have been searched, pruning leaves the modules from whose
parts a cycle of inclusion can be reached. -/
lemma contains_prune_iff (h : Charted text kind lib p) (hs : ∀ j < p.modules.size, Searched lib p j)
    (hm : m < p.modules.size) :
    p.includes.prune.contains m = true ↔ ReachesCycle (Includes lib text) (p.partOf lib m) := by
  rw [Digraph.contains, List.contains_iff_mem, Digraph.mem_vertices_prune h.ends, h.vertices,
    h.reachesCycle_iff hs hm]
  exact ⟨fun hv => hv.2, fun hv => ⟨hm, hv⟩⟩

/-- In a program all modules of which have been searched, pruning leaves something exactly if a
cycle of inclusion can be reached from the root. -/
lemma isEmpty_prune_iff (h : Charted text kind lib p) (hs : ∀ j < p.modules.size, Searched lib p j) :
    p.includes.prune.isEmpty = true ↔ ¬ReachesCycle (Includes lib text) none := by
  have hroot := h.contains_prune_iff hs h.root_lt_size
  rw [Digraph.contains, List.contains_iff_mem] at hroot
  change _ ↔ ReachesCycle (Includes lib text) none at hroot
  rw [← hroot, Digraph.isEmpty, List.isEmpty_iff]
  constructor
  · intro hnil
    rw [hnil]
    exact List.not_mem_nil
  · intro hnot
    refine List.eq_nil_iff_forall_not_mem.2 fun v hv => hnot ?_
    obtain ⟨hmem, hcycle⟩ := (Digraph.mem_vertices_prune h.ends).1 hv
    exact (Digraph.mem_vertices_prune h.ends).2 ⟨(h.vertices root).2 h.root_lt_size,
      .of_reflTransGen (h.reached v ((h.vertices v).1 hmem)) hcycle⟩

end Charted

end Program

end Pep10
