import Pep10.Proofs.CircularInclusion
import Pep10.Proofs.MemoryImage
import Pep10.Proofs.Program.LinkFaults
import Pep10.Proofs.Program.Assembly
import Pep10.Proofs.Program.Twin

/-!
# Text behind the end of a program

The assembler stops at the line that ends the root, but the search for included modules goes through
all lines.  Lines behind the end therefore do nothing as long as there is no call on them, or none
but what the program calls anyway (`trailing_text`); a call that the search refuses fails the build,
wherever it stands.  A call of something else brings an instance about before those that macros ask
for, and such an instance can take the place of one of these (`remark_after_end`).
-/

namespace Pep10

namespace Program

variable {p p' q q' : Program} {lib lib' : MacroLibrary} {text text' : String} {kind : ModuleKind}
  {extra : List String} {m line n : Nat}

/-! ### Lines at the end of the root -/

/-- Programs that differ at most in the recorded calls of their modules, in the graph of inclusion
and in the log. -/
structure SameTexts (p p' : Program) : Prop extends Twin p p' where
  size_eq : p'.modules.size = p.modules.size
  name_eq : ∀ m, (p'.module m).name = (p.module m).name
  lines_eq : ∀ m, (p'.module m).lines = (p.module m).lines

lemma sameTexts_setCall (p : Program) (m line id : Nat) :
    SameTexts p (p.modifyModule m fun owner => owner.setCall line id) where
  instances_eq := rfl
  symbols_eq := rfl
  kind_eq := kind_setCall p m line id root
  size_eq := size_modules_modifyModule
  name_eq j := by
    rw [module_modifyModule]
    split <;> rfl
  lines_eq j := by
    rw [module_modifyModule]
    split <;> rfl

/-- Programs that differ in that the root of the second one has more lines, and in what depends on
this. -/
structure Trails (extra : List String) (p q : Program) : Prop extends Twin p q where
  size_eq : q.modules.size = p.modules.size
  name_eq : ∀ m, (q.module m).name = (p.module m).name
  lines_eq : ∀ m, m ≠ root → (q.module m).lines = (p.module m).lines
  root_lines : (q.module root).lines = (p.module root).lines ++ extra

namespace Trails

lemma ofSource (kind : ModuleKind) (hlines : Text.lines text' = Text.lines text ++ extra) :
    Trails extra (ofSource text kind) (ofSource text' kind) where
  instances_eq := rfl
  symbols_eq := rfl
  kind_eq := rfl
  size_eq := rfl
  name_eq m := by cases m <;> rfl
  lines_eq m hm := by
    cases m with
    | zero => exact absurd rfl hm
    | succ m => rfl
  root_lines := hlines

lemma moduleNamed?_eq (h : Trails extra p q) (name : String) : q.moduleNamed? name = p.moduleNamed? name := by
  refine Option.ext fun m => ?_
  simp only [moduleNamed?_eq_some_iff, h.size_eq, h.name_eq]

lemma instance?_eq (h : Trails extra p q) (m : Nat) (args : List String) :
    q.instance? m args = p.instance? m args := by
  simp only [instance?, instancesOf, inst, h.instances_eq]

lemma checkCall_eq (h : Trails extra p q) (lib : MacroLibrary) (m : Nat) (call : MacroCall) :
    q.checkCall lib m call = p.checkCall lib m call := by
  rw [checkCall, checkCall, h.name_eq]

/-! ### The search -/

lemma congr_right (h : Trails extra p q) (hq : SameTexts q q') : Trails extra p q' where
  instances_eq := hq.instances_eq.trans h.instances_eq
  symbols_eq := hq.symbols_eq.trans h.symbols_eq
  kind_eq := hq.kind_eq.trans h.kind_eq
  size_eq := hq.size_eq.trans h.size_eq
  name_eq j := (hq.name_eq j).trans (h.name_eq j)
  lines_eq j hj := (hq.lines_eq j).trans (h.lines_eq j hj)
  root_lines := (hq.lines_eq root).trans h.root_lines

lemma congr_left (h : Trails extra p q) (hp : SameTexts p p') : Trails extra p' q where
  instances_eq := h.instances_eq.trans hp.instances_eq.symm
  symbols_eq := h.symbols_eq.trans hp.symbols_eq.symm
  kind_eq := h.kind_eq.trans hp.kind_eq.symm
  size_eq := h.size_eq.trans hp.size_eq.symm
  name_eq j := (h.name_eq j).trans (hp.name_eq j).symm
  lines_eq j hj := (h.lines_eq j hj).trans (hp.lines_eq j).symm
  root_lines := by rw [h.root_lines, hp.lines_eq]

lemma addModule (h : Trails extra p q) (hroot : root < p.modules.size) (name body : String) :
    Trails extra (p.addModule name .macroBody body) (q.addModule name .macroBody body) := by
  have hmodule : ∀ (r : Program) (j : Nat), (r.addModule name .macroBody body).module j =
      if j = r.modules.size then { name, kind := .macroBody, lines := Text.lines body } else r.module j := by
    intro r j
    split
    next hj => rw [hj, module_addModule_size]
    next hj => simp [Program.addModule, Program.module, Array.getElem?_push, hj]
  have hne : root ≠ p.modules.size := Nat.ne_of_lt hroot
  exact {
    instances_eq := h.instances_eq
    symbols_eq := h.symbols_eq
    kind_eq := by
      rw [hmodule, hmodule, h.size_eq, if_neg hne, if_neg hne, h.kind_eq]
    size_eq := by rw [size_modules_addModule, size_modules_addModule, h.size_eq]
    name_eq := fun j => by
      rw [hmodule, hmodule, h.size_eq]
      split
      · rfl
      · exact h.name_eq j
    lines_eq := fun j hj => by
      rw [hmodule, hmodule, h.size_eq]
      split
      · rfl
      · exact h.lines_eq j hj
    root_lines := by
      rw [hmodule, hmodule, h.size_eq, if_neg hne, if_neg hne, h.root_lines] }

lemma ensureModule (h : Trails extra p q) (hroot : root < p.modules.size) (name body : String) :
    Trails extra (p.ensureModule name body).1 (q.ensureModule name body).1 ∧
      (q.ensureModule name body).2 = (p.ensureModule name body).2 := by
  rw [Program.ensureModule, Program.ensureModule, h.moduleNamed?_eq]
  cases p.moduleNamed? name with
  | some m => exact ⟨h, rfl⟩
  | none => exact ⟨h.addModule hroot name body, h.size_eq⟩

lemma ensureInstance (h : Trails extra p q) (m : Nat) (args : List String) :
    Trails extra (p.ensureInstance m args).1 (q.ensureInstance m args).1 ∧
      (q.ensureInstance m args).2 = (p.ensureInstance m args).2 := by
  rw [Program.ensureInstance, Program.ensureInstance, h.instance?_eq]
  cases p.instance? m args with
  | some id => exact ⟨h, rfl⟩
  | none =>
    refine ⟨{ h with instances_eq := ?_, symbols_eq := ?_ }, congrArg Array.size h.instances_eq⟩
    · rw [addInstance, addInstance, h.instances_eq, h.symbols_eq]
    · rw [addInstance, addInstance, h.symbols_eq]

lemma enterCall (h : Trails extra p q) (hroot : root < p.modules.size) (m line : Nat) (found : Macro)
    (args : List String) :
    Trails extra (p.enterCall m line found args) (q.enterCall m line found args) := by
  obtain ⟨hmodule, hchild⟩ := h.ensureModule hroot found.name found.body
  rw [Program.enterCall, Program.enterCall]
  generalize p.ensureModule found.name found.body = made at hmodule hchild ⊢
  generalize q.ensureModule found.name found.body = made' at hmodule hchild ⊢
  obtain ⟨p₁, child⟩ := made
  obtain ⟨q₁, child'⟩ := made'
  cases hchild
  have hedge : Trails extra { p₁ with includes := p₁.includes.addEdge m child }
      { q₁ with includes := q₁.includes.addEdge m child } := { hmodule with }
  obtain ⟨hinstance, hid⟩ := hedge.ensureInstance child args
  dsimp only
  rw [hid]
  exact (hinstance.congr_right (sameTexts_setCall _ m line _)).congr_left (sameTexts_setCall _ m line _)

/-- A line is searched in the same way in both programs. -/
lemma searchLine (h : Trails extra p q) (hroot : root < p.modules.size) (lib : MacroLibrary) (m line : Nat)
    (source : String) :
    (∃ e, p.searchLine lib m line source = .error e ∧ q.searchLine lib m line source = .error e) ∨
      ∃ p₁ q₁, p.searchLine lib m line source = .ok p₁ ∧ q.searchLine lib m line source = .ok q₁ ∧
        Trails extra p₁ q₁ ∧ root < p₁.modules.size := by
  rw [Program.searchLine, Program.searchLine]
  cases MacroCall.ofLine? source with
  | error e => exact .inl ⟨e, rfl, rfl⟩
  | ok o =>
    cases o with
    | none => exact .inr ⟨p, q, rfl, rfl, h, hroot⟩
    | some call =>
      dsimp only
      rw [h.checkCall_eq]
      cases p.checkCall lib m call with
      | error e => exact .inl ⟨e, rfl, rfl⟩
      | ok found =>
        obtain ⟨child, id, henters⟩ := exists_enters p m line found call.args
        exact .inr ⟨_, _, rfl, rfl, h.enterCall hroot m line found call.args,
          Nat.lt_of_lt_of_le hroot henters.size_modules_le⟩

lemma searchLines (h : Trails extra p q) (hroot : root < p.modules.size) (lib : MacroLibrary) (m line : Nat)
    (sources : List String) :
    Trails extra (searchLines lib m line sources p).1 (searchLines lib m line sources q).1 ∧
      root < (Program.searchLines lib m line sources p).1.modules.size ∧
      (Program.searchLines lib m line sources q).2 = (Program.searchLines lib m line sources p).2 := by
  induction sources generalizing p q line with
  | nil => exact ⟨h, hroot, rfl⟩
  | cons source rest ih =>
    rw [Program.searchLines, Program.searchLines]
    rcases h.searchLine hroot lib m line source with
      ⟨e, heq, heq'⟩ | ⟨p₁, q₁, heq, heq', h₁, hroot₁⟩
    · rw [heq, heq']
      exact ⟨h, hroot, rfl⟩
    · rw [heq, heq']
      exact ih h₁ hroot₁ (line + 1)

/-- Modules other than the root are searched in the same way in both programs. -/
lemma searchModules (h : Trails extra p q) (hroot : root < p.modules.size) (lib : MacroLibrary)
    (hm : m ≠ root) (n : Nat) :
    Trails extra (searchModules lib n m p).1 (searchModules lib n m q).1 ∧
      (Program.searchModules lib n m q).2 = (Program.searchModules lib n m p).2 := by
  induction n generalizing p q m with
  | zero => exact ⟨h, rfl⟩
  | succ n ih =>
    rw [Program.searchModules, Program.searchModules, h.size_eq, h.lines_eq m hm]
    split
    · obtain ⟨h₁, hroot₁, heq⟩ := h.searchLines hroot lib m 0 (p.module m).lines
      generalize Program.searchLines lib m 0 (p.module m).lines p = found at h₁ hroot₁ heq ⊢
      generalize Program.searchLines lib m 0 (p.module m).lines q = found' at h₁ heq ⊢
      obtain ⟨p₁, failure⟩ := found
      obtain ⟨q₁, failure'⟩ := found'
      cases heq
      cases failure with
      | some failure => exact ⟨h₁, rfl⟩
      | none => exact ih h₁ hroot₁ (Nat.succ_ne_zero m)
    · exact ⟨h, rfl⟩

end Trails

/-! ### Idle lines -/

/-- If there is a call on the line, then it can be read, and there is the same one on some line of
the text. -/
def IsIdle (text line : String) : Prop :=
  ∃ o, MacroCall.ofLine? line = .ok o ∧
    ∀ call, o = some call → ∃ earlier ∈ Text.lines text, MacroCall.ofLine? earlier = .ok (some call)

/-- The calls on lines that have been searched have passed the check, which depends on the name of
the module alone. -/
lemma checkCall_of_searchLines {sources : List String} (hm : m < p.modules.size)
    (heq : searchLines lib m line sources p = (p', none)) {source : String} (hsource : source ∈ sources)
    {call : MacroCall} (hcall : MacroCall.ofLine? source = .ok (some call)) :
    ∃ found, ∀ r : Program, (r.module m).name = (p.module m).name → r.checkCall lib m call = .ok found := by
  induction sources generalizing p line with
  | nil => cases hsource
  | cons first rest ih =>
    rw [searchLines] at heq
    split at heq
    · cases heq
    next p₁ hfirst =>
      rcases List.mem_cons.1 hsource with rfl | hsource
      · rw [searchLine, hcall] at hfirst
        dsimp only at hfirst
        split at hfirst
        · cases hfirst
        next found hcheck =>
          refine ⟨found, fun r hname => ?_⟩
          rw [← hcheck, checkCall, checkCall, hname]
      · rcases searchLine_eq_ok hfirst with ⟨-, rfl⟩ | ⟨found, child, id, -, -, he⟩
        · exact ih hm heq hsource
        · rw [← he.name_eq m hm]
          exact ih (Nat.lt_of_lt_of_le hm he.size_modules_le) heq hsource

/-- Every call on a line of the text is accepted by the check, and its instance is there. -/
def Entered (lib : MacroLibrary) (text : String) (p : Program) : Prop :=
  ∀ source ∈ Text.lines text, ∀ call, MacroCall.ofLine? source = .ok (some call) →
    ∃ found child id,
      (∀ r : Program, (r.module root).name = rootName → r.checkCall lib root call = .ok found) ∧
      p.moduleNamed? found.name = some child ∧ p.instance? child call.args = some id

/-- Searching the root enters all calls on its lines. -/
lemma entered_of_searchLines
    (heq : searchLines lib root 0 (Text.lines text) (ofSource text kind) = (p, none)) :
    Entered lib text p := by
  have hp := Charted.ofSource text kind lib
  obtain ⟨-, -, hfinds, -⟩ :=
    hp.toCollected.searchLines hp.root_lt_size (hp.lines root hp.root_lt_size) heq
  intro source hsource call hcall
  obtain ⟨found, hcheck⟩ := checkCall_of_searchLines hp.root_lt_size heq hsource hcall
  obtain ⟨i, hi⟩ := List.getElem?_of_mem hsource
  obtain ⟨o, ho, hentered⟩ := hfinds i source hi
  obtain ⟨found', child, id, hf⟩ := hentered call (Except.ok.inj (ho.symm.trans hcall))
  obtain rfl : found' = found :=
    Option.some.inj (hf.get_eq.symm.trans (checkCall_eq_ok (hcheck _ rfl)).1)
  exact ⟨found', child, id, hcheck, hf.named, hf.instance_eq⟩

/-- Searching an idle line of the root at most records a call. -/
lemma Trails.searchLine_idle (h : Trails extra p q) (hname : (p.module root).name = rootName)
    (hentered : Entered lib text p) (number : Nat) {source : String} (hidle : IsIdle text source) :
    ∃ q₁, q.searchLine lib root number source = .ok q₁ ∧ Trails extra p q₁ := by
  obtain ⟨o, ho, hcall⟩ := hidle
  rw [Program.searchLine, ho]
  cases o with
  | none => exact ⟨q, rfl, h⟩
  | some call =>
    obtain ⟨earlier, hearlier, hsame⟩ := hcall call rfl
    obtain ⟨found, child, id, hcheck, hmodule, hinst⟩ := hentered earlier hearlier call hsame
    dsimp only
    rw [hcheck q ((h.name_eq root).trans hname)]
    refine ⟨_, rfl, ?_⟩
    have hedge : Trails extra p { q with includes := q.includes.addEdge root child } := { h with }
    rw [Program.enterCall, Program.ensureModule, h.moduleNamed?_eq, hmodule]
    dsimp only
    rw [Program.ensureInstance, hedge.instance?_eq, hinst]
    exact hedge.congr_right (sameTexts_setCall _ root number id)

lemma Trails.searchLines_idle (h : Trails extra p q) (hname : (p.module root).name = rootName)
    (hentered : Entered lib text p) (number : Nat) {sources : List String}
    (hidle : ∀ source ∈ sources, IsIdle text source) :
    ∃ q₁, Program.searchLines lib root number sources q = (q₁, none) ∧ Trails extra p q₁ := by
  induction sources generalizing q number with
  | nil => exact ⟨q, rfl, h⟩
  | cons source rest ih =>
    rw [List.forall_mem_cons] at hidle
    obtain ⟨q₁, heq, h₁⟩ := h.searchLine_idle hname hentered number hidle.1
    rw [Program.searchLines, heq]
    exact ih h₁ (number + 1) hidle.2

lemma searchLines_append (lib : MacroLibrary) (m line : Nat) (sources more : List String) (p : Program) :
    searchLines lib m line (sources ++ more) p =
      match searchLines lib m line sources p with
      | (p, none) => searchLines lib m (line + sources.length) more p
      | (p, some failure) => (p, some failure) := by
  induction sources generalizing p line with
  | nil => rfl
  | cons source rest ih =>
    rw [List.cons_append, searchLines, searchLines]
    cases p.searchLine lib m line source with
    | error e => rfl
    | ok p₁ =>
      dsimp only
      rw [ih, List.length_cons, Nat.add_assoc, Nat.add_comm 1]

/-- The search goes through the root, and then through the other modules. -/
lemma searchModules_ofSource (text : String) (kind : ModuleKind) (lib : MacroLibrary) :
    searchModules lib ((ofSource text kind).modules.size + lib.macros.length) 0 (ofSource text kind) =
      match searchLines lib root 0 (Text.lines text) (ofSource text kind) with
      | (p, some failure) => (p, some (root, failure))
      | (p, none) => searchModules lib lib.macros.length 1 p := by
  have hsize : (ofSource text kind).modules.size + lib.macros.length = lib.macros.length + 1 :=
    Nat.add_comm 1 _
  have hroot : 0 < (ofSource text kind).modules.size := Nat.one_pos
  rw [hsize, searchModules, if_pos hroot]
  rfl

/-- A search without a report finds all modules, and no cycle. -/
lemma findIncludes_eq_nil_iff :
    (ofSource text kind).findIncludes lib = (p, []) ↔
      searchModules lib ((ofSource text kind).modules.size + lib.macros.length) 0 (ofSource text kind) =
        (p, none) ∧ ¬ReachesCycle (Includes lib text) none := by
  have hfail : ∀ (r : Program) (m line : Nat) (e : IncludeError), r.failInclude m line e ≠ (p, []) := by
    intro r m line e heq
    obtain ⟨-, l, hreport, -⟩ := failInclude_spec r m line e
    rw [heq] at hreport
    cases hreport
  have hcharted := (Charted.ofSource text kind lib).searchModules (m := 0)
    ((ofSource text kind).modules.size + lib.macros.length)
  rw [findIncludes]
  rcases hq : searchModules lib ((ofSource text kind).modules.size + lib.macros.length) 0
    (ofSource text kind) with ⟨q, _ | ⟨j, number, e⟩⟩
  · rw [hq] at hcharted
    obtain ⟨-, hs⟩ := (collected_ofSource text kind lib).searchModules
      (fun j hj => absurd hj (Nat.not_lt_zero j)) (Nat.add_comm _ _).le hq
    rw [← hcharted.isEmpty_prune_iff hs]
    dsimp only
    split
    next hempty =>
      simp only [Prod.mk.injEq, and_true]
      constructor
      · rintro rfl
        exact ⟨rfl, hempty⟩
      · exact fun h => h.1
    next hempty =>
      refine ⟨fun heq => absurd heq (hfail _ _ _ _), ?_⟩
      rintro ⟨heq, hempty'⟩
      cases heq
      exact absurd hempty' hempty
  · refine ⟨fun heq => absurd heq (hfail _ _ _ _), ?_⟩
    rintro ⟨heq, -⟩
    cases heq

/-- Idle lines bring no inclusion. -/
lemma includes_of_idle (hlines : Text.lines text' = Text.lines text ++ extra)
    (hidle : ∀ line ∈ extra, IsIdle text line) (a b : Option Macro) (h : Includes lib text' a b) :
    Includes lib text a b := by
  obtain ⟨source, hsource, found, hcalled, rfl⟩ := h
  cases a with
  | some part => exact ⟨source, hsource, found, hcalled, rfl⟩
  | none =>
    change source ∈ Text.lines text' at hsource
    rw [hlines, List.mem_append] at hsource
    rcases hsource with hsource | hsource
    · exact ⟨source, hsource, found, hcalled, rfl⟩
    · obtain ⟨call, hcall, hget⟩ := MacroLibrary.calledOn?_eq_some.1 hcalled
      obtain ⟨o, ho, hsame⟩ := hidle source hsource
      obtain ⟨earlier, hearlier, hcall'⟩ := hsame call (Except.ok.inj (ho.symm.trans hcall))
      exact ⟨earlier, hearlier, found, MacroLibrary.calledOn?_eq_some.2 ⟨call, hcall', hget⟩, rfl⟩

/-- A search of the root without a failure, with more lines behind. -/
lemma searchLines_trailing (hlines : Text.lines text' = Text.lines text ++ extra)
    (heq : searchLines lib root 0 (Text.lines text) (ofSource text kind) = (p, none))
    {idle rest : List String} (hextra : extra = idle ++ rest) (hidle : ∀ line ∈ idle, IsIdle text line) :
    ∃ q, Trails extra p q ∧ root < p.modules.size ∧ (p.module root).name = rootName ∧
      searchLines lib root 0 (Text.lines text') (ofSource text' kind) =
        searchLines lib root ((Text.lines text).length + idle.length) rest q := by
  have hp := Charted.ofSource text kind lib
  obtain ⟨hp', -, -, -⟩ :=
    hp.toCollected.searchLines hp.root_lt_size (hp.lines root hp.root_lt_size) heq
  obtain ⟨h₁, hroot, hsame⟩ := (Trails.ofSource kind hlines).searchLines hp.root_lt_size lib root 0
    (Text.lines text)
  rw [heq] at h₁ hroot hsame
  obtain ⟨q, hq, h₂⟩ := h₁.searchLines_idle hp'.root_name (entered_of_searchLines heq)
    (0 + (Text.lines text).length) hidle
  refine ⟨q, h₂, hroot, hp'.root_name, ?_⟩
  rw [hlines, searchLines_append]
  generalize searchLines lib root 0 (Text.lines text) (ofSource text' kind) = found at hsame hq ⊢
  obtain ⟨q₁, failure⟩ := found
  cases hsame
  dsimp only at hq ⊢
  rw [hextra, searchLines_append, hq, Nat.zero_add]

/-- Idle lines behind the root do not disturb the search. -/
lemma findIncludes_trailing (hlines : Text.lines text' = Text.lines text ++ extra)
    (hidle : ∀ line ∈ extra, IsIdle text line) (hfind : (ofSource text kind).findIncludes lib = (p, [])) :
    ∃ q, (ofSource text' kind).findIncludes lib = (q, []) ∧ Trails extra p q := by
  obtain ⟨hsearch, hcycle⟩ := findIncludes_eq_nil_iff.1 hfind
  rw [searchModules_ofSource] at hsearch
  rcases heq : searchLines lib root 0 (Text.lines text) (ofSource text kind) with ⟨p₁, _ | failure⟩
  · rw [heq] at hsearch
    obtain ⟨q₁, h₁, hroot, -, hrest⟩ :=
      searchLines_trailing hlines heq (List.append_nil extra).symm hidle
    obtain ⟨h₂, hsame⟩ := h₁.searchModules hroot lib Nat.one_ne_zero lib.macros.length
    dsimp only at hsearch
    rw [hsearch] at h₂ hsame
    refine ⟨_, findIncludes_eq_nil_iff.2 ⟨?_, fun hreach => hcycle ?_⟩, h₂⟩
    · rw [searchModules_ofSource, hrest]
      exact Prod.ext rfl hsame
    · exact hreach.map (f := id) (includes_of_idle hlines hidle)
  · rw [heq] at hsearch
    cases hsearch

/-- Whether a line is refused depends on the name of the module alone. -/
lemma searchLine_error_congr {source : String} {e : IncludeError} {number number' : Nat}
    (hname : (q.module m).name = (p.module m).name) (h : p.searchLine lib m number source = .error e) :
    q.searchLine lib m number' source = .error e := by
  rw [searchLine] at h ⊢
  cases hcall : MacroCall.ofLine? source with
  | error e' =>
    rw [hcall] at h
    exact h
  | ok o =>
    rw [hcall] at h
    cases o with
    | none => cases h
    | some call =>
      dsimp only at h ⊢
      rw [checkCall, hname, ← checkCall]
      cases hcheck : p.checkCall lib m call with
      | error e' =>
        rw [hcheck] at h
        exact h
      | ok found =>
        rw [hcheck] at h
        cases h

/-- A line behind the root that is refused fails the search. -/
lemma findIncludes_refused {idle rest : List String} {bad : String} {e : IncludeError}
    (hlines : Text.lines text' = Text.lines text ++ extra) (hextra : extra = idle ++ bad :: rest)
    (hidle : ∀ line ∈ idle, IsIdle text line) (hfind : (ofSource text kind).findIncludes lib = (p, []))
    (hbad : (ofSource text kind).searchLine lib root 0 bad = .error e) :
    ∃ q, (ofSource text' kind).findIncludes lib =
      (q, [⟨(Text.lines text).length + idle.length, .ofInclude e⟩]) := by
  obtain ⟨hsearch, -⟩ := findIncludes_eq_nil_iff.1 hfind
  rw [searchModules_ofSource] at hsearch
  rcases heq : searchLines lib root 0 (Text.lines text) (ofSource text kind) with ⟨p₁, _ | failure⟩
  · obtain ⟨q₁, h₁, -, hname, hrest⟩ := searchLines_trailing hlines heq hextra hidle
    have hbad' : q₁.searchLine lib root ((Text.lines text).length + idle.length) bad = .error e :=
      searchLine_error_congr (p := ofSource text kind) ((h₁.name_eq root).trans hname) hbad
    obtain ⟨-, l, hreport, hline⟩ :=
      failInclude_spec q₁ root ((Text.lines text).length + idle.length) e
    obtain rfl := hline rfl
    refine ⟨(q₁.failInclude root ((Text.lines text).length + idle.length) e).1, ?_⟩
    rw [← hreport, findIncludes, searchModules_ofSource, hrest, searchLines, hbad']
  · rw [heq] at hsearch
    cases hsearch

/-! ### The assembly -/

lemma Trails.readContext_eq (h : Trails extra p q) (lib : MacroLibrary) :
    q.readContext lib = p.readContext lib := by
  have hnamed : q.instanceNamed? = p.instanceNamed? := by
    funext name args
    simp only [instanceNamed?, h.moduleNamed?_eq, h.instance?_eq]
  rw [readContext, readContext, h.isSystem_eq, hnamed]

/-- Lines behind the one that ends a module are not read. -/
lemma readLines_trailing {number : Nat} {sources more : List String} {draft draft' : Draft}
    {lines : List Line} (hctx : ∀ lib, q.readContext lib = p.readContext lib)
    (h : p.readLines number sources draft = (draft', .ok lines)) :
    q.readLines number (sources ++ more) draft = (draft', .ok lines) := by
  induction sources generalizing number draft lines with
  | nil => cases h
  | cons source rest ih =>
    rw [readLines] at h
    rw [List.cons_append, readLines, hctx]
    generalize Reader.line (p.readContext draft.library) number (tokenize source) = reading at h ⊢
    obtain ⟨marks, e | line⟩ := reading
    · cases h
    · dsimp only at h ⊢
      split at h
      next hend =>
        rw [if_pos hend]
        exact h
      next hend =>
        rw [if_neg hend]
        split at h
        · cases h
        next draft₂ lines₂ hrest =>
          cases h
          rw [ih hrest]

/-- What is read of an instance in the first program is read in the second one, too. -/
lemma Trails.readLines_eq (h : Trails extra p q) {id : Nat} {draft draft' : Draft} {lines : List Line}
    (hread : p.readLines 0 (p.sourceOf id) draft = (draft', .ok lines)) :
    q.readLines 0 (q.sourceOf id) draft = (draft', .ok lines) := by
  have hinst : q.inst id = p.inst id := by rw [inst, inst, h.instances_eq]
  obtain ⟨more, hmore⟩ : ∃ more, q.sourceOf id = p.sourceOf id ++ more := by
    rw [sourceOf, sourceOf, hinst]
    by_cases hroot : (p.inst id).moduleId = root
    · refine ⟨extra.map (Placeholder.substitute (p.inst id).args), ?_⟩
      rw [hroot, h.root_lines, List.map_append]
    · exact ⟨[], by rw [h.lines_eq _ hroot, List.append_nil]⟩
  rw [hmore]
  exact readLines_trailing h.readContext_eq hread

/-- States of assemblies of programs that differ in lines at the end of the root. -/
structure TrailsIn (extra : List String) (s s' : Progress) : Prop where
  program : Trails extra s.program s'.program
  library_eq : s'.library = s.library
  called_eq : s'.called = s.called
  failure_eq : s'.failure = s.failure

namespace TrailsIn

variable {s s' : Progress} {id : Nat} {ids : List Nat}

lemma assembleInstance (h : TrailsIn extra s s') (hfail : (s.assembleInstance id).failure = none) :
    TrailsIn extra (s.assembleInstance id) (s'.assembleInstance id) := by
  obtain ⟨draft, lines, hread, heq⟩ := assembleInstance_eq hfail
  have hinst : s'.program.inst id = s.program.inst id := by
    rw [inst, inst, h.program.instances_eq]
  have hread' : s'.program.readLines 0 (s'.program.sourceOf id)
      ⟨s'.program.symbols.table (s'.program.inst id).table, s'.library⟩ = (draft, .ok lines) := by
    rw [hinst, h.program.symbols_eq, h.library_eq]
    exact h.program.readLines_eq hread
  rw [heq, Progress.assembleInstance]
  dsimp only
  rw [hread', hinst]
  dsimp only
  refine ⟨{ h.program with instances_eq := ?_, symbols_eq := ?_ }, rfl, ?_, h.failure_eq⟩
  · simp only [modifyInstance, modifyTable, h.program.instances_eq]
  · simp only [modifyInstance, modifyTable, h.program.symbols_eq]
  · rw [h.called_eq]

lemma visit (h : TrailsIn extra s s') (hfail : (s.visit id).failure = none) :
    TrailsIn extra (s.visit id) (s'.visit id) := by
  have hinst : s'.program.inst id = s.program.inst id := by
    rw [inst, inst, h.program.instances_eq]
  rw [Progress.visit] at hfail
  rw [Progress.visit, Progress.visit, h.failure_eq, hinst]
  split at hfail
  next hskip =>
    rw [if_pos hskip, if_pos hskip]
    exact h
  next hskip =>
    rw [if_neg hskip, if_neg hskip]
    exact h.assembleInstance hfail

lemma visits (h : TrailsIn extra s s') (hfail : (ids.foldl Progress.visit s).failure = none) :
    TrailsIn extra (ids.foldl Progress.visit s) (ids.foldl Progress.visit s') := by
  induction ids generalizing s s' with
  | nil => exact h
  | cons id ids ih => exact ih (h.visit (failure_eq_none_of_foldl hfail)) hfail

lemma run (h : TrailsIn extra s s') (hfail : (Progress.run n ids s).failure = none) :
    TrailsIn extra (Progress.run n ids s) (Progress.run n ids s') := by
  induction n generalizing ids s s' with
  | zero => exact h
  | succ n ih =>
    have hstart : TrailsIn extra { s with called := [] } { s' with called := [] } :=
      { h with called_eq := rfl }
    rw [Progress.run] at hfail
    rw [Progress.run, Progress.run]
    split at hfail
    next hempty =>
      have hlevel := hstart.visits hfail
      rw [if_pos hempty, if_pos (by rwa [hlevel.called_eq])]
      exact hlevel
    next hmore =>
      have hlevel := hstart.visits (failure_eq_none_of_run hfail)
      rw [if_neg hmore, if_neg (by rwa [hlevel.called_eq]), hlevel.called_eq]
      exact ih hlevel hfail

end TrailsIn

/-- An assembly without a report does not depend on lines at the end of the root. -/
lemma Trails.assemble (h : Trails extra p q) (hassemble : p.assemble lib = (p', lib', [])) :
    ∃ q', q.assemble lib = (q', lib', []) ∧ Trails extra p' q' := by
  simp only [Program.assemble, Prod.mk.injEq, Option.toList_eq_nil_iff] at hassemble
  obtain ⟨rfl, rfl, hfail⟩ := hassemble
  have hstart : TrailsIn extra { program := p, library := lib } { program := q, library := lib } :=
    ⟨h, rfl, rfl, rfl⟩
  have hrun := hstart.run hfail
  refine ⟨_, ?_, hrun.program⟩
  rw [Program.assemble, h.instances_eq, hrun.library_eq, hrun.failure_eq, hfail]
  rfl

end Program

/-! ### The build -/

variable {options : Options} {lib lib' : MacroLibrary} {kind : ModuleKind} {text text' : String}
  {exports : Option (List ExportedSymbol)} {o : Output} {extra : List String}

open Program

/-- If a build succeeds, then more lines may come behind the end of the program as long as there is
no call on them but what is called on an earlier line: the build succeeds, with the same object
code, bounds and listings.  But if a line behind the end is refused, having no other than such lines
before it, then the build fails, and the report stands on that line. -/
theorem trailing_text (hbuild : build options lib kind text exports = (lib', .ok o))
    (hlines : Text.lines text' = Text.lines text ++ extra) :
    ((∀ line ∈ extra, IsIdle text line) →
      ∃ o', build options lib kind text' exports = (lib', .ok o') ∧ o'.code = o.code ∧
        o'.bounds = o.bounds ∧ o'.program.listing = o.program.listing ∧
        o'.program.symbolListing = o.program.symbolListing) ∧
    ∀ idle bad rest e, extra = idle ++ bad :: rest → (∀ line ∈ idle, IsIdle text line) →
      (ofSource text kind).searchLine lib root 0 bad = .error e →
      ∃ log, build options lib kind text' exports = (lib, .error log) ∧
        ⟨(Text.lines text).length + idle.length, .ofInclude e⟩ ∈ log.reports := by
  obtain ⟨p₁, p, q, hfind, hassemble, hlink, rfl⟩ := build_eq_ok hbuild
  constructor
  · intro hidle
    obtain ⟨p₁', hfind', h₁⟩ := findIncludes_trailing hlines hidle hfind
    obtain ⟨p', hassemble', h₂⟩ := h₁.assemble hassemble
    obtain ⟨base, hlink'⟩ := h₂.toTwin.link hlink
    refine ⟨(q.onto base).output options, ?_, ?_⟩
    · rw [build, hfind']
      dsimp only
      rw [hassemble']
      dsimp only
      rw [hlink']
    · rw [Program.output, Program.output, annotate_onto]
      exact ⟨codeOf_onto, bounds_onto, listing_onto, symbolListing_onto⟩
  · intro idle bad rest e hextra hidle hbad
    obtain ⟨p₁', hfind'⟩ := findIncludes_refused hlines hextra hidle hfind hbad
    refine ⟨p₁'.log.reportAll [⟨(Text.lines text).length + idle.length, .ofInclude e⟩], ?_, ?_⟩
    · rw [build, hfind']
    · exact Ordered.mem_insert.2 (.inl rfl)

/-- A macro that stores its argument, and one that calls it. -/
def letterLibrary : MacroLibrary :=
  ⟨[⟨"STORE", 1, .user, "@STORE 1\n.BYTE $1\n.END\n"⟩,
    ⟨"CAPITAL", 0, .user, "@CAPITAL 0\n@STORE 'A'\n.END\n"⟩]⟩

/-- A program that calls both. -/
def letterSource : String := "@STORE 'b'\n@CAPITAL\n.END\n"

/-- A remark behind the end does nothing, nor does a call that has been made before.  An address
with an at sign fails the build. -/
theorem trailing_text_remark :
    ∃ o o' log, build {} letterLibrary .userProgram letterSource none = (letterLibrary, .ok o) ∧
      o.code = [0x62, 0x41] ∧
      build {} letterLibrary .userProgram (letterSource ++ "a remark\n@STORE 'b'\n") none =
        (letterLibrary, .ok o') ∧
      o'.code = o.code ∧ o'.bounds = o.bounds ∧ o'.program.listing = o.program.listing ∧
      o'.program.symbolListing = o.program.symbolListing ∧
      build {} letterLibrary .userProgram (letterSource ++ "a remark\nmail bob@home.org\n") none =
        (letterLibrary, .error log) ∧
      ⟨4, .ofInclude .noIdentifier⟩ ∈ log.reports := by
  obtain ⟨b, hb⟩ : ∃ b, b = build {} letterLibrary .userProgram letterSource none := ⟨_, rfl⟩
  obtain ⟨hlib, hcode⟩ : b.1 = letterLibrary ∧ b.2.toOption.map Output.code = some [0x62, 0x41] := by
    rw [hb, build, Program.ofSource_of_chars letterSource rfl]
    decide +kernel
  obtain ⟨lib, e | o⟩ := b
  · cases hcode
  · subst hlib
    have hremark : IsIdle letterSource "a remark" := ⟨none, by decide +kernel, by simp⟩
    have hcall : MacroCall.ofLine? "@STORE 'b'" = .ok (some ⟨"STORE", ["'b'"]⟩) := by decide +kernel
    have hstore : IsIdle letterSource "@STORE 'b'" := by
      refine ⟨_, hcall, fun call heq => ⟨"@STORE 'b'", by decide +kernel, ?_⟩⟩
      rw [hcall, heq]
    have hlines : Text.lines (letterSource ++ "a remark\n@STORE 'b'\n") =
        Text.lines letterSource ++ ["a remark", "@STORE 'b'"] := by decide +kernel
    have hlines' : Text.lines (letterSource ++ "a remark\nmail bob@home.org\n") =
        Text.lines letterSource ++ ["a remark", "mail bob@home.org"] := by decide +kernel
    obtain ⟨o', hbuild, hsame, hbounds, hlisting, hsymbols⟩ := (trailing_text hb.symm hlines).1 (by
      rw [List.forall_mem_cons, List.forall_mem_singleton]
      exact ⟨hremark, hstore⟩)
    obtain ⟨log, hfail, hreport⟩ := (trailing_text hb.symm hlines').2 ["a remark"] "mail bob@home.org" []
      .noIdentifier rfl (by simpa using hremark) (by decide +kernel)
    exact ⟨o, o', log, hb.symm, Option.some.inj hcode, hbuild, hsame, hbounds, hlisting, hsymbols, hfail,
      hreport⟩

/-- A remark behind the end fails a build that succeeds without it, and a call behind the end
changes the object code of a program: the instance that it brings about is taken for the one that
the macro asks for, whose argument differs in case. -/
theorem remark_after_end :
    (build {} ⟨[]⟩ .userProgram ".WORD 1\n.END\n" none).2.toOption.map Output.code = some [0, 1] ∧
      (build {} ⟨[]⟩ .userProgram ".WORD 1\n.END\nmail bob@home.org\n" none).2.toOption.map
        Output.code = none ∧
      (build {} letterLibrary .userProgram "@CAPITAL\n.END\n" none).2.toOption.map Output.code =
        some [0x41] ∧
      (build {} letterLibrary .userProgram "@CAPITAL\n.END\n@STORE 'a'\n" none).2.toOption.map
        Output.code = some [0x61] := by
  decide +kernel

end Pep10
