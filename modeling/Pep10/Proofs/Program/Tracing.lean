import Pep10.Proofs.Program.Expansion
import Pep10.Program.Tracing

/-!
# Tracing leaves programs alone

Annotating a program puts commands on lines and changes nothing else.  `Retraced` relates programs
that differ in their commands only; such programs have the same expansion, up to commands, and the
same object code at every site.
-/

namespace Pep10

/-- A line without its commands. -/
def Line.untraced (line : Line) : Line := { line with trace := [] }

/-- A site without the commands on its line. -/
def Site.untraced (site : Site) : Site := { site with line := site.line.untraced }

/-- Of sites that are the same up to commands, each is found again. -/
lemma exists_untraced_eq {site : Site} {sites sites' : List Site}
    (h : sites'.map Site.untraced = sites.map Site.untraced) (hsite : site ∈ sites') :
    ∃ site' ∈ sites, site'.untraced = site.untraced := by
  have hmem := List.mem_map_of_mem (f := Site.untraced) hsite
  rw [h] at hmem
  exact List.mem_map.1 hmem

namespace Program

variable {p p' p₁ : Program} {depth id index : Nat} {rootLine : Option Nat} {lines lines' : List Line}

/-- Lines that differ in their commands only have sites that do. -/
lemma sitesOfLines_untraced (hlines : lines'.map Line.untraced = lines.map Line.untraced)
    (hcalled : ∀ rootLine id, (p'.sitesFrom depth rootLine id).map Site.untraced =
      (p.sitesFrom depth rootLine id).map Site.untraced) :
    (p'.sitesOfLines depth rootLine id index lines').map Site.untraced =
      (p.sitesOfLines depth rootLine id index lines).map Site.untraced := by
  induction lines generalizing lines' index with
  | nil =>
    obtain rfl : lines' = [] := by simpa using hlines
    rfl
  | cons line lines ih =>
    cases lines' with
    | nil => simp at hlines
    | cons line' lines' =>
      rw [List.map_cons, List.map_cons, List.cons.injEq] at hlines
      obtain ⟨hst, hnumber⟩ : line'.statement = line.statement ∧ line'.number = line.number := by
        have := hlines.1
        simp only [Line.untraced, Line.mk.injEq] at this
        exact ⟨this.1, this.2.1⟩
      rw [sitesOfLines, sitesOfLines, List.map_append, List.map_append,
        ih hlines.2, hst, hnumber]
      refine congrArg (· ++ _) ?_
      rw [List.map_cons, List.map_cons]
      refine congrArg₂ List.cons ?_ ?_
      · simp only [Site.untraced, hlines.1]
      · cases line.statement.target? with
        | none => rfl
        | some target => exact hcalled _ target

/-- The program `p'` is the program `p` with other commands on its lines. -/
structure Retraced (p p' : Program) : Prop where
  size_eq : p'.instances.size = p.instances.size
  symbols_eq : p'.symbols = p.symbols
  modules_eq : p'.modules = p.modules
  inst_eq : ∀ j, ∃ lines, p'.inst j = { p.inst j with lines } ∧
    lines.map Line.untraced = (p.inst j).lines.map Line.untraced

namespace Retraced

lemma refl (p : Program) : Retraced p p where
  size_eq := rfl
  symbols_eq := rfl
  modules_eq := rfl
  inst_eq j := ⟨(p.inst j).lines, rfl, rfl⟩

lemma trans (h : Retraced p p₁) (h' : Retraced p₁ p') : Retraced p p' where
  size_eq := h'.size_eq.trans h.size_eq
  symbols_eq := h'.symbols_eq.trans h.symbols_eq
  modules_eq := h'.modules_eq.trans h.modules_eq
  inst_eq j := by
    obtain ⟨lines, hlines, huntraced⟩ := h.inst_eq j
    obtain ⟨lines', hlines', huntraced'⟩ := h'.inst_eq j
    refine ⟨lines', by rw [hlines', hlines], ?_⟩
    rw [huntraced', hlines, huntraced]

/-- Putting commands on a line leaves all else as it is. -/
lemma setTrace (p : Program) (site : Site) (commands : List Trace.Command) :
    Retraced p (p.setTrace site commands) where
  size_eq := size_modifyInstance
  symbols_eq := rfl
  modules_eq := rfl
  inst_eq j := by
    by_cases hj : j = site.owner
    · subst hj
      rcases Nat.lt_or_ge site.owner p.instances.size with hlt | hge
      · refine ⟨_, inst_modifyInstance_self hlt, ?_⟩
        refine List.ext_getElem? fun n => ?_
        rw [List.getElem?_map, List.getElem?_map, List.getElem?_modify]
        cases (p.inst site.owner).lines[n]? with
        | none => rfl
        | some line =>
          by_cases hn : site.index = n
          · simp [hn, Line.untraced]
          · simp [hn]
      · exact ⟨(p.inst site.owner).lines, inst_modifyInstance_of_size_le hge, rfl⟩
    · exact ⟨(p.inst j).lines, inst_modifyInstance_ne hj, rfl⟩

lemma foldl_setTrace (traces : List (Site × LineTrace)) (p : Program) :
    Retraced p (traces.foldl (fun p (site, trace) => p.setTrace site trace.commands) p) := by
  induction traces generalizing p with
  | nil => exact .refl p
  | cons trace traces ih => exact (setTrace p _ _).trans (ih _)

/-- Annotating a program changes nothing but commands. -/
lemma annotate (p : Program) : Retraced p p.annotate.1 := by
  unfold Program.annotate
  dsimp only
  split
  · exact .refl p
  · exact foldl_setTrace _ p

variable (h : Retraced p p')

include h

lemma table_eq (j : Nat) : (p'.inst j).table = (p.inst j).table := by
  obtain ⟨lines, hlines, -⟩ := h.inst_eq j
  rw [hlines]

lemma burn_eq (j : Nat) : (p'.inst j).burn = (p.inst j).burn := by
  obtain ⟨lines, hlines, -⟩ := h.inst_eq j
  rw [hlines]

/-- The expansion is the same up to commands. -/
lemma sitesFrom (depth : Nat) (rootLine : Option Nat) (id : Nat) :
    (p'.sitesFrom depth rootLine id).map Site.untraced =
      (p.sitesFrom depth rootLine id).map Site.untraced := by
  induction depth generalizing rootLine id with
  | zero => rfl
  | succ depth ih =>
    obtain ⟨lines, hinst, hlines⟩ := h.inst_eq id
    rw [sitesFrom_succ, sitesFrom_succ]
    exact sitesOfLines_untraced (by rw [hinst, hlines]) ih

lemma sites (id : Nat) :
    (p'.sites id).map Site.untraced = (p.sites id).map Site.untraced := by
  rw [Program.sites, Program.sites, h.size_eq]
  exact h.sitesFrom _ _ id

/-- The object code at a site does not depend on commands. -/
lemma codeAt_untraced (site : Site) : p'.codeAt site = p.codeAt site.untraced := by
  rw [codeAt, codeAt, h.symbols_eq, h.table_eq]
  rfl

end Retraced

end Program

end Pep10
