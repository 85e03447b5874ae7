import Mathlib.Order.Bounds.Basic
import Pep10.Proofs.Program.IncludeRelation

/-!
# Circular inclusion

The search for included modules always ends, and it makes at most one module for each macro of the
library.  If nothing is reported, then no part of the program includes itself, directly or not.  If
inclusion is reported to be circular, then it is, and the report stands on the first root line that
calls a macro from which a cycle can be reached.
-/

namespace Pep10.Program

open Relation (ReflTransGen TransGen)

variable {p q : Program} {lib : MacroLibrary} {text : String} {kind : ModuleKind} {m line : Nat}
  {e : IncludeError}

/-! ### Errors of the search -/

lemma ofText_ne_circular {text : List Char} (h : MacroCall.ofText text = .error e) : e ≠ .circular := by
  unfold MacroCall.ofText at h
  dsimp only at h
  split at h
  next hname =>
    cases h
    unfold MacroCall.checkName at hname
    repeat' split at hname
    all_goals cases hname
    all_goals simp
  · cases h

lemma ofLine?_ne_circular {source : String} (h : MacroCall.ofLine? source = .error e) :
    e ≠ .circular := by
  unfold MacroCall.ofLine? at h
  dsimp only at h
  split at h
  next text _ =>
    cases htext : MacroCall.ofText text with
    | error e =>
      rw [htext] at h
      cases h
      exact ofText_ne_circular htext
    | ok call =>
      rw [htext] at h
      cases h
  · cases h
    simp
  · cases h

lemma checkCall_ne_circular {call : MacroCall} (h : p.checkCall lib m call = .error e) :
    e ≠ .circular := by
  unfold checkCall at h
  repeat' split at h
  all_goals cases h
  all_goals simp

/-- No error on a line is about circular inclusion. -/
lemma searchLine_ne_circular {source : String} (h : p.searchLine lib m line source = .error e) :
    e ≠ .circular := by
  unfold searchLine at h
  split at h
  next hread =>
    cases h
    exact ofLine?_ne_circular hread
  · cases h
  · split at h
    next hcheck =>
      cases h
      exact checkCall_ne_circular hcheck
    · cases h

lemma searchLines_ne_circular {sources : List String} {l : Nat}
    (h : searchLines lib m line sources p = (q, some (l, e))) : e ≠ .circular := by
  induction sources generalizing p line with
  | nil => cases h
  | cons source rest ih =>
    rw [searchLines] at h
    split at h
    next hfail =>
      cases h
      exact searchLine_ne_circular hfail
    · exact ih h

lemma searchModules_ne_circular {n j l : Nat}
    (h : searchModules lib n m p = (q, some (j, l, e))) : e ≠ .circular := by
  induction n generalizing p m with
  | zero => cases h
  | succ n ih =>
    rw [searchModules] at h
    split at h
    · split at h
      next hfail =>
        cases h
        exact searchLines_ne_circular hfail
      · exact ih h
    · cases h

/-! ### The reported line -/

/-- A failure is reported once, and it changes the log only. -/
lemma failInclude_spec (p : Program) (m line : Nat) (e : IncludeError) :
    (p.failInclude m line e).1.modules = p.modules ∧
      ∃ l, (p.failInclude m line e).2 = [⟨l, Diagnostic.ofInclude e⟩] ∧ (m = root → l = line) := by
  unfold failInclude
  dsimp only
  split <;> exact ⟨rfl, _, rfl, fun h => by rw [h]; rfl⟩

/-- In a list that is in order, what is found comes before everything else that qualifies. -/
lemma fst_le_of_find? {l : List (Nat × Nat)} {q : Nat × Nat → Bool} {x y : Nat × Nat}
    (hl : l.Pairwise fun a b => a.1 < b.1) (hx : l.find? q = some x) (hy : y ∈ l)
    (hq : q y = true) : x.1 ≤ y.1 := by
  obtain ⟨-, before, behind, rfl, hbefore⟩ := List.find?_eq_some_iff_append.1 hx
  rcases List.mem_append.1 hy with hy | hy
  · exact absurd hq (by simpa using hbefore y hy)
  · rcases List.mem_cons.1 hy with rfl | hy
    · exact Nat.le_refl _
    · exact Nat.le_of_lt ((List.pairwise_cons.1 (List.pairwise_append.1 hl).2.1).1 y hy)

/-- A root line that calls a macro from which a cycle can be reached is recorded to lead to a module
that pruning leaves. -/
lemma Charted.exists_call (h : Charted text kind lib p)
    (hs : ∀ j < p.modules.size, Searched lib p j) (hline : line ∈ circularLines lib text) :
    ∃ id, (line, id) ∈ (p.module root).calls ∧
      p.includes.prune.contains (p.inst id).moduleId = true := by
  obtain ⟨source, found, hsource, hcalled, hcycle⟩ := hline
  rw [← h.root_lines] at hsource
  obtain ⟨child, id, hedge, hpart, hcall, rfl⟩ :=
    h.exists_called (hs root h.root_lt_size) hsource hcalled
  refine ⟨id, ?_, ?_⟩
  · obtain ⟨⟨l, j⟩, hfind, rfl⟩ := Option.map_eq_some_iff.1 hcall
    obtain rfl : l = line := by simpa using List.find?_some hfind
    exact List.mem_of_find?_eq_some hfind
  · rw [h.contains_prune_iff hs ((h.vertices _).1 (h.ends _ hedge)), hpart]
    exact hcycle

/-- If a cycle can be reached from the root, then circular inclusion is reported on the first of the
root lines through which one can be reached. -/
lemma Charted.isLeast_circularLine (h : Charted text kind lib p)
    (hs : ∀ j < p.modules.size, Searched lib p j) (hcycle : ReachesCycle (Includes lib text) none) :
    IsLeast (circularLines lib text) p.circularLine := by
  -- The first step into the cycle is made on some root line.
  obtain ⟨_, ⟨source, hsource, found, hcalled, rfl⟩, hnext⟩ := hcycle.exists_next
  obtain ⟨line, hline⟩ := List.getElem?_of_mem hsource
  obtain ⟨id, hmem, hid⟩ := h.exists_call hs ⟨source, found, hline, hcalled, hnext⟩
  cases hfind : (p.module root).calls.find?
      fun call => p.includes.prune.contains (p.inst call.2).moduleId with
  | none => exact absurd hid (List.find?_eq_none.1 hfind _ hmem)
  | some first =>
    have hfirst : p.circularLine = first.1 := by
      rw [circularLine, rootLineCalling?, hfind]
      rfl
    rw [hfirst]
    constructor
    · obtain ⟨source, found, hsource, hcalled, hlt, hpart⟩ :=
        h.calls first (List.mem_of_find?_eq_some hfind)
      refine ⟨source, found, hsource, hcalled, ?_⟩
      have hleft := List.find?_some hfind
      rwa [h.contains_prune_iff hs (h.owner_lt _ hlt), hpart] at hleft
    · intro line hline
      obtain ⟨id, hmem, hid⟩ := h.exists_call hs hline
      exact fst_le_of_find? h.sorted hfind hmem hid

/-- Looking for the included modules of a source text: either the search is given up with an error
that is not about circular inclusion, or all modules are searched, and then either nothing is
reported and no cycle can be reached from the root, or circular inclusion is reported and one can be
reached. -/
lemma findIncludes_cases {reports : List Report}
    (h : (ofSource text kind).findIncludes lib = (p, reports)) :
    ∃ q, Charted text kind lib q ∧ p.modules = q.modules ∧
      ((∃ l e, e ≠ .circular ∧ reports = [⟨l, Diagnostic.ofInclude e⟩]) ∨
        reports = [] ∧ ¬ReachesCycle (Includes lib text) none ∨
        reports = [⟨q.circularLine, Diagnostic.ofInclude .circular⟩] ∧
          (∀ j < q.modules.size, Searched lib q j) ∧ ReachesCycle (Includes lib text) none) := by
  have hcharted := (Charted.ofSource text kind lib).searchModules (m := 0)
    ((ofSource text kind).modules.size + lib.macros.length)
  unfold findIncludes at h
  rcases hq : searchModules lib ((ofSource text kind).modules.size + lib.macros.length) 0
    (ofSource text kind) with ⟨q, _ | ⟨j, line, e⟩⟩
  · rw [hq] at hcharted h
    obtain ⟨-, hs⟩ := (collected_ofSource text kind lib).searchModules
      (fun j hj => absurd hj (Nat.not_lt_zero j)) (Nat.add_comm _ _).le hq
    refine ⟨q, hcharted, ?_⟩
    dsimp only at h
    split at h
    next hempty =>
      cases h
      exact ⟨rfl, .inr (.inl ⟨rfl, (hcharted.isEmpty_prune_iff hs).1 hempty⟩)⟩
    next hne =>
      obtain ⟨hmodules, l, hreport, hline⟩ := failInclude_spec q root q.circularLine .circular
      obtain rfl := hline rfl
      rw [h] at hmodules hreport
      refine ⟨hmodules, .inr (.inr ⟨hreport, hs, ?_⟩)⟩
      by_contra hnone
      exact hne ((hcharted.isEmpty_prune_iff hs).2 hnone)
  · rw [hq] at hcharted h
    obtain ⟨hmodules, l, hreport, -⟩ := failInclude_spec q j line e
    dsimp only at h
    rw [h] at hmodules hreport
    exact ⟨q, hcharted, hmodules, .inl ⟨l, e, searchModules_ne_circular hq, hreport⟩⟩

/-! ### The search as a whole -/

/-- Different modules hold different parts. -/
lemma Charted.injOn_partOf (h : Charted text kind lib p) :
    Set.InjOn (p.partOf lib) { m | m < p.modules.size } := by
  have hpart : ∀ m < p.modules.size, m ≠ root →
      ∃ found, p.partOf lib m = some found ∧ (p.module m).name = found.name := by
    intro m hm hne
    obtain ⟨found, hget, hname, -⟩ := h.holds m hm hne
    exact ⟨found, by rw [partOf, if_neg hne, hget], hname⟩
  have hroot : p.partOf lib root = none := if_pos rfl
  intro i hi j hj heq
  by_cases hir : i = root <;> by_cases hjr : j = root
  · rw [hir, hjr]
  · obtain ⟨found, hfound, -⟩ := hpart j hj hjr
    rw [hir, hroot, hfound] at heq
    cases heq
  · obtain ⟨found, hfound, -⟩ := hpart i hi hir
    rw [hjr, hroot, hfound] at heq
    cases heq
  · obtain ⟨found, hfound, hname⟩ := hpart i hi hir
    obtain ⟨found', hfound', hname'⟩ := hpart j hj hjr
    obtain rfl : found = found' := Option.some.inj (hfound.symm.trans (heq.trans hfound'))
    exact h.name_inj i hi j hj (hname.trans hname'.symm)

lemma partOf_congr (h : p.modules = q.modules) : p.partOf lib = q.partOf lib := by
  funext m
  rw [partOf, partOf, Program.module, Program.module, h]

/-- The search for the modules that a program includes ends by itself, not for want of rounds.  It
makes at most one module for each macro of the library, and the root.  If nothing is reported, then
no part of the program that can be reached from the root includes itself, directly or not.  If
circular inclusion is reported, then the line is the first root line that calls a macro from which a
cycle can be reached. -/
theorem circular_inclusion {reports : List Report}
    (h : (ofSource text kind).findIncludes lib = (p, reports)) :
    (∀ n, lib.macros.length + 1 ≤ n → searchModules lib n 0 (ofSource text kind) =
        searchModules lib (lib.macros.length + 1) 0 (ofSource text kind)) ∧
      p.modules.size ≤ lib.macros.length + 1 ∧
      (∀ m < p.modules.size, m ≠ root → ∃ found ∈ lib.macros, p.partOf lib m = some found ∧
        (p.module m).lines = Text.lines found.body) ∧
      Set.InjOn (p.partOf lib) { m | m < p.modules.size } ∧
      (reports = [] →
        ∀ a, ReflTransGen (Includes lib text) none a → ¬TransGen (Includes lib text) a a) ∧
      ∀ line, ⟨line, Diagnostic.ofInclude .circular⟩ ∈ reports →
        IsLeast (circularLines lib text) line := by
  obtain ⟨q, hq, hmodules, hcases⟩ := findIncludes_cases h
  have hmodule : ∀ m, p.module m = q.module m := fun m => congrArg (·.getD m default) hmodules
  refine ⟨fun n hn => ?_, ?_, fun m hm hne => ?_, ?_, fun hnil => ?_, fun line hline => ?_⟩
  · exact (Charted.ofSource text kind lib).searchModules_eq hn (Nat.le_refl _)
  · rw [hmodules]
    exact hq.size_modules_le
  · rw [hmodules] at hm
    obtain ⟨found, hget, -, hlines⟩ := hq.holds m hm hne
    refine ⟨found, List.mem_of_find?_eq_some hget, ?_, by rw [hmodule, hlines]⟩
    rw [partOf, if_neg hne, hmodule, hget]
  · rw [partOf_congr hmodules, hmodules]
    exact hq.injOn_partOf
  · rcases hcases with ⟨l, e, -, rfl⟩ | ⟨-, hnone⟩ | ⟨rfl, -⟩
    · cases hnil
    · exact fun a ha hcycle => hnone ⟨a, ha, hcycle⟩
    · cases hnil
  · rcases hcases with ⟨l, e, hne, rfl⟩ | ⟨rfl, -⟩ | ⟨rfl, hs, hcycle⟩
    · cases List.mem_singleton.1 hline
      exact absurd rfl hne
    · cases hline
    · cases List.mem_singleton.1 hline
      exact hq.isLeast_circularLine hs hcycle

/-- Two macros include each other, and a third one does no harm. -/
def looping : MacroLibrary :=
  ⟨[⟨"PLAIN", 0, .user, "@PLAIN 0\nNOP\n.END\n"⟩, ⟨"LEFT", 0, .user, "@LEFT 0\n@RIGHT\n.END\n"⟩,
    ⟨"RIGHT", 0, .user, "@RIGHT 0\n@plain\n@left\n.END\n"⟩]⟩

/-- Circular inclusion is reported on the third line, which is the first one to call a macro that
leads into a cycle.  Without that line and the next one nothing is reported. -/
theorem circular_inclusion_of_looping :
    (∃ p, (ofSource "@PLAIN\nNOP\n@LEFT\n@RIGHT\n.END\n" .userProgram).findIncludes looping =
        (p, [⟨2, Diagnostic.ofInclude .circular⟩]) ∧ p.modules.size = 4 ∧
      IsLeast (circularLines looping "@PLAIN\nNOP\n@LEFT\n@RIGHT\n.END\n") 2) ∧
    ∃ p, (ofSource "@PLAIN\nNOP\n.END\n" .userProgram).findIncludes looping = (p, []) ∧
      p.modules.size = 2 ∧
      ∀ a, ReflTransGen (Includes looping "@PLAIN\nNOP\n.END\n") none a →
        ¬TransGen (Includes looping "@PLAIN\nNOP\n.END\n") a a := by
  constructor
  · obtain ⟨f, hf⟩ : ∃ f, f =
        (ofSource "@PLAIN\nNOP\n@LEFT\n@RIGHT\n.END\n" .userProgram).findIncludes looping := ⟨_, rfl⟩
    obtain ⟨hreport, hsize⟩ : f.2 = [⟨2, Diagnostic.ofInclude .circular⟩] ∧ f.1.modules.size = 4 := by
      rw [hf]
      decide +kernel
    have hfound : (ofSource "@PLAIN\nNOP\n@LEFT\n@RIGHT\n.END\n" .userProgram).findIncludes looping =
        (f.1, [⟨2, Diagnostic.ofInclude .circular⟩]) := by rw [← hf, ← hreport]
    obtain ⟨-, -, -, -, -, hleast⟩ := circular_inclusion hfound
    exact ⟨f.1, hfound, hsize, hleast 2 (List.mem_singleton.2 rfl)⟩
  · obtain ⟨f, hf⟩ : ∃ f, f =
        (ofSource "@PLAIN\nNOP\n.END\n" .userProgram).findIncludes looping := ⟨_, rfl⟩
    obtain ⟨hreport, hsize⟩ : f.2 = [] ∧ f.1.modules.size = 2 := by
      rw [hf]
      decide +kernel
    have hfound : (ofSource "@PLAIN\nNOP\n.END\n" .userProgram).findIncludes looping = (f.1, []) := by
      rw [← hf, ← hreport]
    obtain ⟨-, -, -, -, hacyclic, -⟩ := circular_inclusion hfound
    exact ⟨f.1, hfound, hsize, hacyclic rfl⟩

end Pep10.Program
