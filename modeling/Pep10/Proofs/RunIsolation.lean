import Pep10.Proofs.Line.Offering
import Pep10.Proofs.Program.IncludeRelation
import Pep10.Proofs.Program.Reading
import Pep10.Build

/-!
# Builds do not leak into each other

A build changes the library by registering the system calls that its lines offer, and in no other
way.  The calls are collected from the marks of all lines that are read, up to the one that fails if
one does (`callsOffered`); none of them is refused (`registers_build`).  A user program offers none,
so it leaves the library alone.  An operating system starts from a library without system calls, so
that what an earlier one has offered is gone.

Nothing but what is found under a name is ever asked of the library.  Two builds with libraries that
agree go through the same states, apart from the library (`build_eq_of_agrees`).
-/

namespace Pep10

/-! ### Registering system calls -/

namespace MacroLibrary

variable {lib lib' lib'' : MacroLibrary} {calls calls' : List (SystemCall × String)}

/-- The order of macros does not matter if their names differ in more than case. -/
lemma Agrees.of_perm (h : lib.macros.Perm lib'.macros)
    (hnames : lib.macros.Pairwise fun m m' => Text.sameName m.name m'.name = false) :
    lib.Agrees lib' := by
  have hsymm : Std.Symm fun m m' : Macro => Text.sameName m.name m'.name = false := by
    refine ⟨fun m m' hdiffer => ?_⟩
    rw [← Bool.not_eq_true, Text.sameName_iff] at hdiffer ⊢
    exact fun heq => hdiffer heq.symm
  intro name
  cases hm : lib.get? name with
  | none =>
    refine (List.find?_eq_none.2 fun m hmem => ?_).symm
    exact List.find?_eq_none.1 hm m (h.mem_iff.2 hmem)
  | some m =>
    have hsame := sameName_of_get? hm
    have hmem : m ∈ lib.macros := List.mem_of_find?_eq_some hm
    cases hm' : lib'.get? name with
    | none => exact absurd hsame (List.find?_eq_none.1 hm' m (h.mem_iff.1 hmem))
    | some m' =>
      have hsame' := sameName_of_get? hm'
      have hmem' : m' ∈ lib.macros := h.mem_iff.2 (List.mem_of_find?_eq_some hm')
      by_contra hne
      have hdiffer := hnames.forall hmem hmem' fun heq => hne (by rw [heq])
      rw [Text.sameName_iff] at hsame hsame'
      rw [← Bool.not_eq_true, Text.sameName_iff, hsame, hsame'] at hdiffer
      exact hdiffer rfl

/-- Registering the given system calls one after the other, none of which is refused, leads from one
library to the other. -/
inductive Registers : MacroLibrary → List (SystemCall × String) → MacroLibrary → Prop
  | nil (lib : MacroLibrary) : Registers lib [] lib
  | cons {lib lib₁ lib' : MacroLibrary} {call : SystemCall} {name : String}
      {calls : List (SystemCall × String)} (hfirst : lib.registerCall? call name = some lib₁)
      (hrest : Registers lib₁ calls lib') : Registers lib ((call, name) :: calls) lib'

lemma Registers.append (h : lib.Registers calls lib') (h' : lib'.Registers calls' lib'') :
    lib.Registers (calls ++ calls') lib'' := by
  induction h with
  | nil => exact h'
  | cons hfirst _ ih => exact .cons hfirst (ih h')

/-- The macros of the system calls come behind the others, in order. -/
lemma Registers.exists_made (h : lib.Registers calls lib') :
    ∃ made, lib'.macros = lib.macros ++ made ∧ (∀ m ∈ made, m.kind = .system) ∧
      made.map (fun m => (m.name, m.text)) = calls.map fun c => (c.2, c.1.text c.2) := by
  induction h with
  | nil => exact ⟨[], (List.append_nil _).symm, nofun, rfl⟩
  | @cons _ _ _ call name _ hfirst _ ih =>
    obtain ⟨made, hmacros, hkind, htexts⟩ := ih
    obtain ⟨declared, arity, -, -, hadded⟩ := register?_eq_some hfirst
    refine ⟨⟨name, arity, .system, call.text name⟩ :: made, ?_, ?_, ?_⟩
    · rw [hmacros, hadded, List.append_assoc, List.singleton_append]
    · exact List.forall_mem_cons.2 ⟨rfl, hkind⟩
    · rw [List.map_cons, List.map_cons, htexts]

lemma clearCalls_clearCalls (lib : MacroLibrary) : lib.clearCalls.clearCalls = lib.clearCalls := by
  simp [clearCalls, List.filter_filter]

/-- Clearing the system calls undoes registering them, and the system calls are those that have been
registered if there were none before. -/
lemma Registers.of_clearCalls (h : lib.clearCalls.Registers calls lib') :
    lib'.clearCalls = lib.clearCalls ∧
      (lib'.macros.filter fun m => m.kind == .system).map (fun m => (m.name, m.text)) =
        calls.map fun c => (c.2, c.1.text c.2) := by
  obtain ⟨made, hmacros, hkind, htexts⟩ := h.exists_made
  have hother : ∀ m ∈ lib.clearCalls.macros, ¬(m.kind == .system) = true := by
    intro m hm
    simpa [bne] using (List.mem_filter.1 hm).2
  have hnone : made.filter (fun m => m.kind != .system) = [] :=
    List.filter_eq_nil_iff.2 fun m hm => by simp [hkind m hm]
  constructor
  · rw [clearCalls, hmacros, List.filter_append, hnone, List.append_nil]
    exact clearCalls_clearCalls lib
  · rw [hmacros, List.filter_append, List.filter_eq_nil_iff.2 hother, List.nil_append,
      List.filter_eq_self.2 fun m hm => by simp [hkind m hm], htexts]

end MacroLibrary

/-! ### Drafts -/

namespace Draft

variable {d d' : Draft}

/-- The library changes with the marks that offer a system call. -/
lemma library_foldl_enter (d : Draft) (marks : List Mark) :
    (marks.foldl enter d).library =
      (marks.filterMap Mark.offered?).foldl
        (fun lib c => (lib.registerCall? c.1 c.2).getD lib) d.library := by
  induction marks generalizing d with
  | nil => rfl
  | cons mark marks ih =>
    rw [List.foldl_cons, ih]
    cases mark with
    | offer call name => rfl
    | _ => rfl

/-- Drafts with the same symbol table and libraries that agree. -/
structure Alike (d d' : Draft) : Prop where
  table_eq : d.table = d'.table
  library : d.library.Agrees d'.library

lemma Alike.enter (h : Alike d d') (mark : Mark) : Alike (d.enter mark) (d'.enter mark) := by
  cases mark with
  | offer call name =>
    refine ⟨h.table_eq, ?_⟩
    change MacroLibrary.Agrees ((d.library.registerCall? call name).getD d.library)
      ((d'.library.registerCall? call name).getD d'.library)
    rcases h.library.register? .system name (call.text name) with ⟨hnone, hnone'⟩ | ⟨m, hsome, hsome'⟩
    · rw [MacroLibrary.registerCall?, MacroLibrary.registerCall?, hnone, hnone']
      exact h.library
    · rw [MacroLibrary.registerCall?, MacroLibrary.registerCall?, hsome, hsome']
      exact h.library.append [m]
  | declare name => exact ⟨congrArg (·.declare name) h.table_eq, h.library⟩
  | mention name => exact ⟨congrArg (·.mention name) h.table_eq, h.library⟩
  | assign name value => exact ⟨congrArg (·.assign name (.numeric value)) h.table_eq, h.library⟩
  | publish name => exact ⟨congrArg (·.publish name) h.table_eq, h.library⟩

lemma Alike.foldl_enter (h : Alike d d') (marks : List Mark) :
    Alike (marks.foldl Draft.enter d) (marks.foldl Draft.enter d') := by
  induction marks generalizing d d' with
  | nil => exact h
  | cons mark marks ih => exact ih (h.enter mark)

end Draft

namespace Program

variable {p p' : Program} {lib lib' : MacroLibrary} {d d' : Draft} {s s' : Progress} {number id : Nat}
  {text : String} {kind : ModuleKind}

/-! ### The marks of a run -/

/-- The marks that reading source lines leaves, up to the line that ends the module or fails. -/
def marksOfLines (p : Program) : Nat → List String → Draft → List Mark
  | _, [], _ => []
  | number, source :: rest, draft =>
    let reading := Reader.line (p.readContext draft.library) number (tokenize source)
    reading.marks ++
      match reading.outcome with
      | .error _ => []
      | .ok line =>
        if line.statement == .endMark then []
        else p.marksOfLines (number + 1) rest (reading.marks.foldl Draft.enter draft)

namespace Progress

/-- The marks that visiting an instance leaves. -/
def marksOf (s : Progress) (id : Nat) : List Mark :=
  if s.failure.isSome || (s.program.inst id).assembled then []
  else s.program.marksOfLines 0 (s.program.sourceOf id) (s.draftFor id)

/-- The marks that visiting the given instances leaves. -/
def marksOfLevel : List Nat → Progress → List Mark
  | [], _ => []
  | id :: ids, s => s.marksOf id ++ marksOfLevel ids (s.visit id)

/-- The marks that assembling the given instances and those that they call leaves. -/
def marksOfRun : Nat → List Nat → Progress → List Mark
  | 0, _, _ => []
  | n + 1, ids, s =>
    let s' := ids.foldl visit { s with called := [] }
    marksOfLevel ids { s with called := [] } ++
      if s'.called.isEmpty then [] else marksOfRun n s'.called s'

end Progress

/-! ### One line -/

/-- A line that is read registers the system calls that it offers. -/
lemma registers_line (p : Program) (d : Draft) (number : Nat) (tokens : List Token) :
    d.library.Registers (Reader.line (p.readContext d.library) number tokens).offers
      ((Reader.line (p.readContext d.library) number tokens).marks.foldl Draft.enter d).library := by
  rw [Draft.library_foldl_enter]
  change MacroLibrary.Registers _ _ ((Reader.line (p.readContext d.library) number tokens).offers.foldl _ _)
  rcases Reader.line_accepted (p.readContext d.library) number tokens with
    hsilent | ⟨-, call, name, lib', hoffers, hlib⟩
  · rw [hsilent]
    exact .nil _
  · rw [hoffers]
    change d.library.registerCall? call name = some lib' at hlib
    rw [List.foldl_cons, hlib]
    exact .cons hlib (.nil _)

/-- Lines of user programs offer nothing. -/
lemma offers_line (h : p.isSystem = false) (lib : MacroLibrary) (number : Nat) (tokens : List Token) :
    (Reader.line (p.readContext lib) number tokens).offers = [] := by
  refine (Reader.line_accepted (p.readContext lib) number tokens).resolve_right fun hsystem => ?_
  have : p.isSystem = true := hsystem.1
  rw [h] at this
  cases this

/-! ### The lines of an instance -/

/-- Reading lines registers the system calls that they offer, also if one of the lines fails. -/
lemma registers_readLines (p : Program) (number : Nat) (sources : List String) (d : Draft) :
    d.library.Registers ((p.marksOfLines number sources d).filterMap Mark.offered?)
      (p.readLines number sources d).1.library := by
  induction sources generalizing number d with
  | nil => exact .nil _
  | cons source rest ih =>
    have hline := p.registers_line d number (tokenize source)
    rw [marksOfLines, readLines, List.filterMap_append]
    refine hline.append ?_
    clear hline
    generalize Reader.line (p.readContext d.library) number (tokenize source) = reading
    obtain ⟨marks, e | line⟩ := reading
    · exact .nil _
    · dsimp only
      by_cases hend : (line.statement == .endMark) = true
      · rw [if_pos hend, if_pos hend]
        exact .nil _
      · rw [if_neg hend, if_neg hend]
        have hrest := ih (number + 1) (marks.foldl Draft.enter d)
        generalize p.readLines (number + 1) rest (marks.foldl Draft.enter d) = r at hrest ⊢
        obtain ⟨draft, e | lines⟩ := r <;> exact hrest

lemma offered_marksOfLines (h : p.isSystem = false) (number : Nat) (sources : List String)
    (d : Draft) : (p.marksOfLines number sources d).filterMap Mark.offered? = [] := by
  induction sources generalizing number d with
  | nil => rfl
  | cons source rest ih =>
    rw [marksOfLines]
    rw [List.filterMap_append, List.append_eq_nil_iff]
    refine ⟨offers_line h d.library number (tokenize source), ?_⟩
    split
    · rfl
    · split
      · rfl
      · exact ih _ _

/-- Reading lines with drafts that are alike leaves the same marks, gives the same lines or the same
error, and ends with drafts that are alike. -/
lemma readLines_of_alike (p : Program) (h : d.Alike d') (number : Nat) (sources : List String) :
    p.marksOfLines number sources d = p.marksOfLines number sources d' ∧
      (p.readLines number sources d).2 = (p.readLines number sources d').2 ∧
      (p.readLines number sources d).1.Alike (p.readLines number sources d').1 := by
  induction sources generalizing number d d' with
  | nil => exact ⟨rfl, rfl, h⟩
  | cons source rest ih =>
    have hline : Reader.line (p.readContext d.library) number (tokenize source) =
        Reader.line (p.readContext d'.library) number (tokenize source) :=
      Reader.line_eq_of_agrees h.library number (tokenize source)
    rw [marksOfLines, marksOfLines, readLines, readLines, hline]
    generalize Reader.line (p.readContext d'.library) number (tokenize source) = reading
    obtain ⟨marks, e | line⟩ := reading
    · exact ⟨rfl, rfl, h.foldl_enter marks⟩
    · dsimp only
      by_cases hend : (line.statement == .endMark) = true
      · simp only [if_pos hend]
        exact ⟨trivial, trivial, h.foldl_enter marks⟩
      · simp only [if_neg hend]
        obtain ⟨hmarks, hresult, hdraft⟩ := ih (h.foldl_enter marks) (number + 1)
        rw [hmarks]
        refine ⟨rfl, ?_⟩
        generalize p.readLines (number + 1) rest (marks.foldl Draft.enter d) = r at hresult hdraft ⊢
        generalize p.readLines (number + 1) rest (marks.foldl Draft.enter d') = r' at hresult hdraft ⊢
        obtain ⟨draft, e | lines⟩ := r <;> obtain ⟨draft', e' | lines'⟩ := r' <;> cases hresult <;>
          exact ⟨rfl, hdraft⟩

/-! ### The run -/

namespace Progress

lemma library_assembleInstance (s : Progress) (id : Nat) : (s.assembleInstance id).library =
    (s.program.readLines 0 (s.program.sourceOf id) (s.draftFor id)).1.library := by
  unfold assembleInstance draftFor
  dsimp only
  split <;> rfl

lemma modules_visit (s : Progress) (id : Nat) : (s.visit id).program.modules = s.program.modules := by
  unfold visit assembleInstance
  dsimp only
  repeat' split
  all_goals rfl

lemma isSystem_visit (s : Progress) (id : Nat) :
    (s.visit id).program.isSystem = s.program.isSystem := by
  rw [isSystem, isSystem, Program.module, Program.module, modules_visit]

lemma isSystem_visits (s : Progress) (ids : List Nat) :
    (ids.foldl visit s).program.isSystem = s.program.isSystem := by
  induction ids generalizing s with
  | nil => rfl
  | cons id ids ih => exact (ih _).trans (s.isSystem_visit id)

lemma registers_visit (s : Progress) (id : Nat) :
    s.library.Registers ((s.marksOf id).filterMap Mark.offered?) (s.visit id).library := by
  unfold visit marksOf
  split
  · exact .nil _
  · rw [library_assembleInstance]
    exact registers_readLines s.program 0 _ (s.draftFor id)

lemma registers_visits (s : Progress) (ids : List Nat) :
    s.library.Registers ((marksOfLevel ids s).filterMap Mark.offered?) (ids.foldl visit s).library := by
  induction ids generalizing s with
  | nil => exact .nil _
  | cons id ids ih =>
    rw [marksOfLevel, List.filterMap_append]
    exact (s.registers_visit id).append (ih _)

/-- A run registers the system calls that are offered in it, also if it fails. -/
lemma registers_run (n : Nat) (ids : List Nat) (s : Progress) :
    s.library.Registers ((marksOfRun n ids s).filterMap Mark.offered?) (run n ids s).library := by
  induction n generalizing ids s with
  | zero => exact .nil _
  | succ n ih =>
    have hlevel := registers_visits { s with called := [] } ids
    rw [marksOfRun, run]
    rw [List.filterMap_append]
    refine hlevel.append ?_
    split
    · exact .nil _
    · exact ih _ _

lemma offered_marksOfLevel (h : s.program.isSystem = false) (ids : List Nat) :
    (marksOfLevel ids s).filterMap Mark.offered? = [] := by
  induction ids generalizing s with
  | nil => rfl
  | cons id ids ih =>
    rw [marksOfLevel, List.filterMap_append, ih (by rwa [isSystem_visit]), List.append_nil, marksOf]
    split
    · rfl
    · exact offered_marksOfLines h 0 _ _

/-- Nothing is offered while a user program is assembled. -/
lemma offered_marksOfRun (h : s.program.isSystem = false) (n : Nat) (ids : List Nat) :
    (marksOfRun n ids s).filterMap Mark.offered? = [] := by
  induction n generalizing ids s with
  | zero => rfl
  | succ n ih =>
    have hstart : ({ s with called := [] } : Progress).program.isSystem = false := h
    rw [marksOfRun]
    rw [List.filterMap_append, offered_marksOfLevel hstart, List.nil_append]
    split
    · rfl
    · exact ih (by rwa [isSystem_visits]) _

/-- States of the assembly that differ in the library only, the libraries agreeing. -/
structure Alike (s s' : Progress) : Prop where
  program_eq : s.program = s'.program
  called_eq : s.called = s'.called
  failure_eq : s.failure = s'.failure
  library : s.library.Agrees s'.library

lemma Alike.draftFor (h : Alike s s') (id : Nat) : (s.draftFor id).Alike (s'.draftFor id) :=
  ⟨by rw [Progress.draftFor, Progress.draftFor, h.program_eq], h.library⟩

lemma Alike.assembleInstance (h : Alike s s') (id : Nat) :
    Alike (s.assembleInstance id) (s'.assembleInstance id) := by
  obtain ⟨-, hresult, hdraft⟩ :=
    readLines_of_alike s.program (h.draftFor id) 0 (s.program.sourceOf id)
  obtain ⟨q, l, c, f⟩ := s
  obtain ⟨q', l', c', f'⟩ := s'
  obtain ⟨rfl, rfl, rfl, hlib⟩ := h
  unfold Progress.assembleInstance
  dsimp only
  revert hresult hdraft
  unfold Progress.draftFor
  dsimp only
  generalize q.readLines 0 (q.sourceOf id) _ = r
  generalize q.readLines 0 (q.sourceOf id) _ = r'
  obtain ⟨⟨t, l⟩, result⟩ := r
  obtain ⟨⟨t', l'⟩, result'⟩ := r'
  rintro ⟨⟩ ⟨rfl, hagrees⟩
  cases result with
  | error e => exact ⟨rfl, rfl, rfl, hagrees⟩
  | ok lines => exact ⟨rfl, rfl, rfl, hagrees⟩

/-- Visiting an instance in states that are alike leaves the same marks and ends in states that are
alike. -/
lemma Alike.visit (h : Alike s s') (id : Nat) :
    s.marksOf id = s'.marksOf id ∧ Alike (s.visit id) (s'.visit id) := by
  obtain ⟨hmarks, -⟩ := readLines_of_alike s.program (h.draftFor id) 0 (s.program.sourceOf id)
  have hagain := h.assembleInstance id
  unfold marksOf Progress.visit
  rw [hmarks, h.program_eq, h.failure_eq]
  split
  · exact ⟨rfl, h⟩
  · exact ⟨rfl, hagain⟩

lemma Alike.visits (h : Alike s s') (ids : List Nat) :
    marksOfLevel ids s = marksOfLevel ids s' ∧
      Alike (ids.foldl Progress.visit s) (ids.foldl Progress.visit s') := by
  induction ids generalizing s s' with
  | nil => exact ⟨rfl, h⟩
  | cons id ids ih =>
    obtain ⟨hmarks, hnext⟩ := h.visit id
    obtain ⟨hrest, hend⟩ := ih hnext
    exact ⟨by rw [marksOfLevel, marksOfLevel, hmarks, hrest], hend⟩

/-- Runs from states that are alike leave the same marks and end in states that are alike. -/
lemma Alike.run (h : Alike s s') (n : Nat) (ids : List Nat) :
    marksOfRun n ids s = marksOfRun n ids s' ∧
      Alike (Progress.run n ids s) (Progress.run n ids s') := by
  induction n generalizing ids s s' with
  | zero => exact ⟨rfl, h⟩
  | succ n ih =>
    have hstart : Alike { s with called := [] } { s' with called := [] } :=
      ⟨h.program_eq, rfl, h.failure_eq, h.library⟩
    obtain ⟨hmarks, hlevel⟩ := hstart.visits ids
    rw [marksOfRun, marksOfRun, Progress.run, Progress.run]
    rw [hmarks, hlevel.called_eq]
    split
    · exact ⟨rfl, hlevel⟩
    · obtain ⟨hrest, hend⟩ := ih hlevel (ids.foldl Progress.visit { s' with called := [] }).called
      exact ⟨by rw [hrest], hend⟩

end Progress

/-! ### The search -/

/-- A line is searched in the same way with all libraries that agree. -/
lemma searchLine_eq_of_agrees (h : lib.Agrees lib') (p : Program) (m line : Nat) (source : String) :
    p.searchLine lib m line source = p.searchLine lib' m line source := by
  have hcheck : ∀ call, p.checkCall lib m call = p.checkCall lib' m call := by
    intro call
    rw [checkCall, checkCall, h call.name]
  unfold searchLine
  simp only [hcheck]

lemma searchLines_eq_of_agrees (h : lib.Agrees lib') (m line : Nat) (sources : List String)
    (p : Program) : searchLines lib m line sources p = searchLines lib' m line sources p := by
  induction sources generalizing line p with
  | nil => rfl
  | cons source rest ih =>
    rw [searchLines, searchLines, searchLine_eq_of_agrees h]
    split
    · rfl
    · exact ih _ _

lemma searchModules_eq_of_agrees (h : lib.Agrees lib') (n m : Nat) (p : Program) :
    searchModules lib n m p = searchModules lib' n m p := by
  induction n generalizing m p with
  | zero => rfl
  | succ n ih =>
    rw [searchModules, searchModules, searchLines_eq_of_agrees h]
    split
    · split
      · rfl
      · exact ih _ _
    · rfl

/-- The same modules are found with libraries that agree.  The size of a library bounds the number
of rounds, but it is not for want of rounds that the search ends. -/
lemma findIncludes_eq_of_agrees (h : lib.Agrees lib') (text : String) (kind : ModuleKind) :
    (ofSource text kind).findIncludes lib = (ofSource text kind).findIncludes lib' := by
  have hsearch : searchModules lib ((ofSource text kind).modules.size + lib.macros.length) 0
        (ofSource text kind) =
      searchModules lib' ((ofSource text kind).modules.size + lib'.macros.length) 0
        (ofSource text kind) := by
    have hsize : (ofSource text kind).modules.size = 1 := rfl
    rw [hsize]
    calc searchModules lib (1 + lib.macros.length) 0 (ofSource text kind)
        = searchModules lib (1 + lib.macros.length + lib'.macros.length) 0 (ofSource text kind) :=
          (Charted.ofSource text kind lib).searchModules_eq (by omega) (by omega)
      _ = searchModules lib' (1 + lib.macros.length + lib'.macros.length) 0 (ofSource text kind) :=
          searchModules_eq_of_agrees h _ 0 _
      _ = searchModules lib' (1 + lib'.macros.length) 0 (ofSource text kind) :=
          (Charted.ofSource text kind lib').searchModules_eq (by omega) (by omega)
  rw [findIncludes, findIncludes, hsearch]

end Program

/-! ### Builds -/

open Program (root)

variable {options : Options} {lib lib' : MacroLibrary} {kind : ModuleKind} {source : String}
  {exports : Option (List ExportedSymbol)}

/-- The system calls that are offered when a program is built: by all lines that are read, in
order. -/
def callsOffered (lib : MacroLibrary) (kind : ModuleKind) (source : String) :
    List (SystemCall × String) :=
  match (Program.ofSource source kind).findIncludes lib with
  | (_, _ :: _) => []
  | (p, []) =>
    (Program.Progress.marksOfRun (p.instances.size + 1) [root]
      { program := p, library := lib }).filterMap Mark.offered?

/-- A build registers the system calls that are offered in it, and changes nothing else in the
library. -/
theorem registers_build :
    lib.Registers (callsOffered lib kind source) (build options lib kind source exports).1 := by
  unfold build callsOffered
  rcases (Program.ofSource source kind).findIncludes lib with ⟨p, _ | ⟨r, rs⟩⟩
  · have hrun : lib.Registers _ (p.assemble lib).2.1 :=
      Program.Progress.registers_run (p.instances.size + 1) [root] { program := p, library := lib }
    dsimp only
    generalize p.assemble lib = a at hrun ⊢
    obtain ⟨q, lib', _ | ⟨r, rs⟩⟩ := a
    · dsimp only
      split <;> exact hrun
    · exact hrun
  · exact .nil _

/-- A user program offers no system calls. -/
lemma callsOffered_userProgram : callsOffered lib .userProgram source = [] := by
  unfold callsOffered
  split
  · rfl
  next p hfind =>
    obtain ⟨hp, -⟩ := (Program.collected_ofSource source .userProgram lib).findIncludes rfl hfind
    refine Program.Progress.offered_marksOfRun ?_ _ _
    rw [Program.isSystem, hp.root_kind]
    rfl

/-- Builds with libraries that agree give the same result, and the same system calls are offered. -/
theorem build_eq_of_agrees (h : lib.Agrees lib') :
    (build options lib kind source exports).2 = (build options lib' kind source exports).2 ∧
      callsOffered lib kind source = callsOffered lib' kind source := by
  unfold build callsOffered
  rw [Program.findIncludes_eq_of_agrees h]
  rcases (Program.ofSource source kind).findIncludes lib' with ⟨p, _ | ⟨r, rs⟩⟩
  · have hstart : Program.Progress.Alike { program := p, library := lib }
        { program := p, library := lib' } := ⟨rfl, rfl, rfl, h⟩
    obtain ⟨hmarks, hend⟩ := hstart.run (p.instances.size + 1) [root]
    refine ⟨?_, congrArg (List.filterMap Mark.offered?) hmarks⟩
    have hprogram : (p.assemble lib).1 = (p.assemble lib').1 := hend.program_eq
    have hreports : (p.assemble lib).2.2 = (p.assemble lib').2.2 := congrArg Option.toList hend.failure_eq
    dsimp only
    generalize p.assemble lib = a at hprogram hreports ⊢
    generalize p.assemble lib' = a' at hprogram hreports ⊢
    obtain ⟨q, l, reports⟩ := a
    obtain ⟨q', l', reports'⟩ := a'
    cases hprogram
    cases hreports
    cases reports with
    | cons r rs => rfl
    | nil =>
      dsimp only
      split <;> rfl
  · exact ⟨rfl, rfl⟩

/-- Builds do not leak into each other.  A user program leaves the library as it is, whatever comes
of the build.  An operating system leaves all macros but the system calls as they are; the system
calls that are there in the end are those that its lines have offered, none of which has been
refused; and the result, like the calls that are offered, depends on what is found in the library
without the system calls.  So building an operating system again changes nothing. -/
theorem builds_isolated (options : Options) (lib : MacroLibrary) (source : String) :
    (∀ os, (buildUser options lib source os).1 = lib) ∧
      (buildSystem options lib source).1.clearCalls = lib.clearCalls ∧
      lib.clearCalls.Registers (callsOffered lib.clearCalls .operatingSystem source)
        (buildSystem options lib source).1 ∧
      ((buildSystem options lib source).1.macros.filter fun m => m.kind == .system).map
          (fun m => (m.name, m.text)) =
        (callsOffered lib.clearCalls .operatingSystem source).map (fun c => (c.2, c.1.text c.2)) ∧
      (∀ other : MacroLibrary, other.clearCalls.Agrees lib.clearCalls →
        (buildSystem options other source).2 = (buildSystem options lib source).2 ∧
          callsOffered other.clearCalls .operatingSystem source =
            callsOffered lib.clearCalls .operatingSystem source) ∧
      buildSystem options (buildSystem options lib source).1 source = buildSystem options lib source := by
  have hregisters : lib.clearCalls.Registers (callsOffered lib.clearCalls .operatingSystem source)
      (buildSystem options lib source).1 := registers_build
  obtain ⟨hothers, hcalls⟩ := hregisters.of_clearCalls
  refine ⟨fun os => ?_, hothers, hregisters, hcalls, fun other hagrees => build_eq_of_agrees hagrees, ?_⟩
  · have huser : lib.Registers (callsOffered lib .userProgram source)
        (buildUser options lib source os).1 := registers_build
    rw [callsOffered_userProgram] at huser
    generalize (buildUser options lib source os).1 = lib' at huser
    cases huser
    rfl
  · rw [buildSystem, hothers]
    rfl

/-- Two macros of users, and a system call that some operating system has left behind. -/
def usedLibrary : MacroLibrary :=
  ⟨[⟨"ECHO", 0, .user, "@ECHO 0\nNOP\n.END\n"⟩, ⟨"OLD", 0, .system, "@OLD 0\nNOP\n.END\n"⟩,
    ⟨"HALT", 0, .user, "@HALT 0\nRET\n.END\n"⟩]⟩

/-- The two macros of users in the other order, and another system call. -/
def otherLibrary : MacroLibrary :=
  ⟨[⟨"GET", 0, .system, "@GET 0\nNOP\n.END\n"⟩, ⟨"HALT", 0, .user, "@HALT 0\nRET\n.END\n"⟩,
    ⟨"ECHO", 0, .user, "@ECHO 0\nNOP\n.END\n"⟩]⟩

/-- An operating system that offers two system calls and fails on the line of the second one. -/
def offeringSource : String := "@ECHO\n.SCALL GET\n.USCALL PUT 5\n.SCALL LAST\n.END\n"

/-- The calls that are offered before the failure and on the line that fails are registered, and the
one that was there before is gone.  The result is the same with the other library, although it knows
the name of a call. -/
theorem builds_isolated_offering :
    (buildSystem {} usedLibrary offeringSource).1.macros.map Macro.name = ["ECHO", "HALT", "GET", "PUT"] ∧
      (buildSystem {} usedLibrary offeringSource).2.toOption.isNone = true ∧
      callsOffered usedLibrary.clearCalls .operatingSystem offeringSource =
        [(.nonunary, "GET"), (.unary, "PUT")] ∧
      ((buildSystem {} usedLibrary offeringSource).1.macros.filter fun m => m.kind == .system).map
          (fun m => (m.name, m.text)) =
        [("GET", SystemCall.nonunary.text "GET"), ("PUT", SystemCall.unary.text "PUT")] ∧
      (buildSystem {} otherLibrary offeringSource).2 = (buildSystem {} usedLibrary offeringSource).2 ∧
      (buildUser {} usedLibrary offeringSource none).1 = usedLibrary := by
  obtain ⟨huser, -, -, hcalls, hresult, -⟩ := builds_isolated {} usedLibrary offeringSource
  have hoffered : callsOffered usedLibrary.clearCalls .operatingSystem offeringSource =
      [(.nonunary, "GET"), (.unary, "PUT")] := by decide +kernel
  have hagrees : otherLibrary.clearCalls.Agrees usedLibrary.clearCalls :=
    .of_perm (List.Perm.swap _ _ _) (by decide)
  refine ⟨by decide +kernel, by decide +kernel, hoffered, ?_, (hresult otherLibrary hagrees).1, huser none⟩
  rw [hcalls, hoffered]
  rfl

end Pep10
