import Pep10.Proofs.Program.FirstPass
import Pep10.Proofs.Program.Relocation
import Pep10.Proofs.Program.Tracing
import Pep10.Program.Listing

/-!
# Programs whose calls go down

Modules have ranks, and an instance calls instances of modules with a lower rank only (`Descends`).
Then no instance is called from itself, and everything that walks along calls comes to an end: a
bound on the depth that exceeds the rank at the start is not felt.

Copies are instances of the same module, so that linking keeps the ranks, whether it reports faults
or not (`Linker.keepsDescent_linkInstance`).  What comes behind it moves lines and puts commands on
them, and leaves the calls as they are (`SameCalls`).
-/

namespace Pep10

namespace Program

variable {p q q' : Program} {rank : Nat → Nat} {id depth depth' bound : Nat} {line : Line}
  {lines lines' : List Line} {text : String} {kind : ModuleKind} {lib lib' : MacroLibrary}

/-- The rank of an instance is that of its module. -/
def rankOf (p : Program) (rank : Nat → Nat) (id : Nat) : Nat := rank (p.inst id).moduleId

/-- The instances that an instance calls are there and have a lower rank. -/
def Descends (p : Program) (rank : Nat → Nat) : Prop :=
  ∀ id, p.CallsBelow (p.rankOf rank) (p.rankOf rank id) (p.inst id).lines

namespace Descends

lemma calls (h : p.Descends rank) {a b : Nat} (hab : p.Calls a b) :
    b < p.instances.size ∧ p.rankOf rank b < p.rankOf rank a := by
  obtain ⟨line, hline, ht⟩ := List.mem_filterMap.1 hab
  exact (h a line hline b ht).2

/-- Going along calls comes to an end. -/
lemma wellFounded (h : p.Descends rank) : WellFounded fun b a => p.Calls a b :=
  Subrelation.wf (fun hcall => (h.calls hcall).2) (measure (p.rankOf rank)).wf

/-- No instance is called from itself. -/
lemma not_transGen (h : p.Descends rank) (a : Nat) : ¬Relation.TransGen p.Calls a a := by
  have hlt : ∀ {a b}, Relation.TransGen p.Calls a b → p.rankOf rank b < p.rankOf rank a := by
    intro a b hab
    induction hab with
    | single hcall => exact (h.calls hcall).2
    | tail _ hcall ih => exact Nat.lt_trans (h.calls hcall).2 ih
  exact fun hcycle => Nat.lt_irrefl _ (hlt hcycle)

/-- Ranks can be counted by instances, so that there are no more of them. -/
lemma exists_lt (h : p.Descends rank) : ∃ rank' : Nat → Nat, p.Descends rank' ∧
    ∀ id < p.instances.size, p.rankOf rank' id < p.instances.size := by
  let rank' : Nat → Nat := fun m =>
    ((Finset.range p.instances.size).filter fun j => rank (p.inst j).moduleId < rank m).card
  refine ⟨rank', fun id line hline target ht => ?_, fun id hid => instanceRank_lt hid⟩
  obtain ⟨hne, hlt, hrank⟩ := h id line hline target ht
  exact ⟨hne, hlt, instanceRank_lt_of_lt hlt hrank⟩

/-! ### Walks that leave the program alone -/

/-- The sites of an instance do not depend on a depth above its rank. -/
lemma sitesFrom_eq (h : p.Descends rank) (rootLine : Option Nat)
    (hdepth : p.rankOf rank id < depth) (hdepth' : p.rankOf rank id < depth') :
    p.sitesFrom depth rootLine id = p.sitesFrom depth' rootLine id := by
  induction depth generalizing depth' rootLine id with
  | zero => omega
  | succ depth ih =>
    obtain ⟨depth', rfl⟩ := Nat.exists_eq_add_one_of_ne_zero (Nat.ne_zero_of_lt hdepth')
    refine List.flatMap_congr fun x hx => ?_
    obtain ⟨line, index⟩ := x
    have hline : line ∈ (p.inst id).lines := List.fst_mem_of_mem_zipIdx hx
    dsimp only
    cases hst : line.statement with
    | call name args target =>
      have hlow := (h id line hline target (by rw [hst]; rfl)).2.2
      exact congrArg (List.cons _) (ih _ (by omega) (by omega))
    | _ => rfl

/-- The lines at the sites of an instance are its expansion. -/
lemma expands_sitesFrom (h : p.Descends rank) (rootLine : Option Nat) (hdepth : p.rankOf rank id < depth) :
    p.Expands (p.inst id).lines ((p.sitesFrom depth rootLine id).map Site.line) := by
  induction depth generalizing rootLine id with
  | zero => omega
  | succ depth ih =>
    have hlines : ∀ (index : Nat) (lines : List Line), p.CallsBelow (p.rankOf rank) depth lines →
        p.Expands lines ((p.sitesOfLines depth rootLine id index lines).map Site.line) := by
      intro index lines hlines
      induction lines generalizing index with
      | nil => exact .nil
      | cons line rest ihrest =>
        have hrest := ihrest (index + 1) fun line hline => hlines line (List.mem_cons_of_mem _ hline)
        cases ht : line.statement.target? with
        | none =>
          rw [sitesOfLines_plain ht]
          exact .plain ht hrest
        | some target =>
          rw [sitesOfLines, ht, List.map_append, List.map_cons]
          exact .call ht (ih _ (hlines line List.mem_cons_self target ht).2.2) hrest
    rw [sitesFrom_succ]
    refine hlines 0 _ fun line hline target ht => ?_
    obtain ⟨hne, hlt, hlow⟩ := h id line hline target ht
    exact ⟨hne, hlt, by omega⟩

lemma expands_sites (h : p.Descends rank) (hid : id < p.instances.size) :
    p.Expands (p.inst id).lines ((p.sites id).map Site.line) := by
  obtain ⟨rank', h', hlt⟩ := h.exists_lt
  exact h'.expands_sitesFrom none (hlt id hid)

/-- The listing of an instance does not depend on a depth above its rank. -/
lemma listInstance_eq (h : p.Descends rank) (hdepth : p.rankOf rank id < depth)
    (hdepth' : p.rankOf rank id < depth') : p.listInstance depth id = p.listInstance depth' id := by
  induction depth generalizing depth' id with
  | zero => omega
  | succ depth ih =>
    obtain ⟨depth', rfl⟩ := Nat.exists_eq_add_one_of_ne_zero (Nat.ne_zero_of_lt hdepth')
    refine congrArg String.join (List.map_congr_left fun line hline => ?_)
    rw [Line.listingIn, Line.listingIn]
    cases hst : line.statement with
    | call name args target =>
      have hlow := (h id line hline target (by rw [hst]; rfl)).2.2
      have hchild : p.listInstance depth target = p.listInstance depth' target := ih (by omega) (by omega)
      dsimp only
      rw [hchild]
    | _ => rfl

/-- The end of an instance does not depend on a depth above its rank. -/
lemma instanceEnd_eq (h : p.Descends rank) (address : Int) (hdepth : p.rankOf rank id < depth)
    (hdepth' : p.rankOf rank id < depth') :
    p.instanceEnd depth address id = p.instanceEnd depth' address id := by
  induction depth generalizing depth' address id with
  | zero => omega
  | succ depth ih =>
    obtain ⟨depth', rfl⟩ := Nat.exists_eq_add_one_of_ne_zero (Nat.ne_zero_of_lt hdepth')
    refine List.foldl_ext _ _ _ fun address line hline => ?_
    cases hst : line.statement with
    | call name args target =>
      have hlow := (h id line hline target (by rw [hst]; rfl)).2.2
      exact ih address (by omega) (by omega)
    | _ => rfl

end Descends

lemma levels_nil (n : Nat) : p.levels n [] = [] := by
  induction n with
  | zero => rfl
  | succ n ih => exact ih

/-- There are no more levels than ranks. -/
lemma Descends.levels_eq (h : p.Descends rank) {n n' : Nat} {ids : List Nat}
    (hn : ∀ id ∈ ids, p.rankOf rank id < n) (hn' : ∀ id ∈ ids, p.rankOf rank id < n') :
    p.levels n ids = p.levels n' ids := by
  induction n generalizing n' ids with
  | zero =>
    obtain rfl : ids = [] := List.eq_nil_iff_forall_not_mem.2 fun id hid => Nat.not_lt_zero _ (hn id hid)
    exact (levels_nil n').symm
  | succ n ih =>
    cases n' with
    | zero =>
      obtain rfl : ids = [] :=
        List.eq_nil_iff_forall_not_mem.2 fun id hid => Nat.not_lt_zero _ (hn' id hid)
      exact levels_nil _
    | succ n' =>
      have hcalled : ∀ b ∈ ids.flatMap p.callsOf, ∃ a ∈ ids, p.rankOf rank b < p.rankOf rank a := by
        intro b hb
        obtain ⟨a, ha, hab⟩ := List.mem_flatMap.1 hb
        exact ⟨a, ha, (h.calls hab).2⟩
      refine congrArg (ids ++ ·) (ih (fun b hb => ?_) fun b hb => ?_)
      · obtain ⟨a, ha, hlt⟩ := hcalled b hb
        exact Nat.lt_of_lt_of_le hlt (Nat.le_of_lt_succ (hn a ha))
      · obtain ⟨a, ha, hlt⟩ := hcalled b hb
        exact Nat.lt_of_lt_of_le hlt (Nat.le_of_lt_succ (hn' a ha))

/-! ### Assembled programs -/

/-- In an assembled program calls go down in the rank of modules that the search for included
modules has found. -/
lemma descends_of_assemble {p₁ : Program} (hfind : (ofSource text kind).findIncludes lib = (p₁, []))
    (hassemble : p₁.assemble lib = (p, lib', [])) : ∃ rank, p.Descends rank := by
  obtain ⟨hp, hsearched, ⟨rank, hrank⟩, s, rfl, -, h⟩ := assembling_of_assemble hfind hassemble
  refine ⟨rank, fun id line hline target ht => ?_⟩
  rcases Nat.lt_or_ge id s.program.instances.size with hid | hid
  · rw [h.size_eq] at hid
    have hdone : (s.program.inst id).assembled = true := by
      by_contra hfresh
      rw [(h.fresh id hid (by simpa using hfresh)).1, (hp.fresh_lines hid).2.1] at hline
      cases hline
    obtain ⟨n, source, hsource, hread⟩ := (h.done id hid hdone).reads.exists_source hline
    rw [Nat.zero_add] at hread
    obtain ⟨_, _, _, _, _, _, _, hcall, -⟩ := hread.call hp hsearched hid hsource ht
    obtain ⟨hlt, hne, hedge⟩ := hcall.target hp
    rw [h.size_eq, rankOf, rankOf, (h.inst_eq id).1, (h.inst_eq target).1]
    exact ⟨hne, hlt, hrank _ hedge⟩
  · rw [lines_of_size_le hid] at hline
    cases hline

/-! ### Changes that keep the calls -/

/-- The instances that some lines call. -/
def targetsOf (lines : List Line) : List Nat := lines.filterMap fun line => line.statement.target?

lemma targetsOf_cons_congr {line' : Line} (hline : line'.statement.target? = line.statement.target?)
    (hlines : targetsOf lines' = targetsOf lines) :
    targetsOf (line' :: lines') = targetsOf (line :: lines) := by
  rw [targetsOf, targetsOf, List.filterMap_cons, List.filterMap_cons, hline]
  simp only [targetsOf] at hlines
  rw [hlines]

/-- Instances of the same modules call each other in the same way. -/
structure SameCalls (p q : Program) : Prop where
  size_eq : q.instances.size = p.instances.size
  moduleId_eq : ∀ id, (q.inst id).moduleId = (p.inst id).moduleId
  callsOf_eq : ∀ id, q.callsOf id = p.callsOf id

namespace SameCalls

lemma refl (p : Program) : SameCalls p p := ⟨rfl, fun _ => rfl, fun _ => rfl⟩

lemma trans (h : SameCalls p q) (h' : SameCalls q q') : SameCalls p q' where
  size_eq := h'.size_eq.trans h.size_eq
  moduleId_eq id := (h'.moduleId_eq id).trans (h.moduleId_eq id)
  callsOf_eq id := (h'.callsOf_eq id).trans (h.callsOf_eq id)

lemma of_instances_eq (h : q.instances = p.instances) : SameCalls p q := by
  refine ⟨by rw [h], fun id => ?_, fun id => ?_⟩
  · rw [inst, inst, h]
  · rw [callsOf, callsOf, inst, inst, h]

/-- An instance may be changed as long as it calls the same instances. -/
lemma modifyInstance {f : Instance → Instance} (hmodule : (f (p.inst id)).moduleId = (p.inst id).moduleId)
    (hcalls : targetsOf (f (p.inst id)).lines = p.callsOf id) :
    SameCalls p (p.modifyInstance id f) := by
  have hinst : ∀ j, ((p.modifyInstance id f).inst j).moduleId = (p.inst j).moduleId ∧
      (p.modifyInstance id f).callsOf j = p.callsOf j := by
    intro j
    rcases Nat.lt_or_ge id p.instances.size with hlt | hge
    · by_cases hj : j = id
      · subst hj
        rw [callsOf, inst_modifyInstance_self hlt]
        exact ⟨hmodule, hcalls⟩
      · rw [callsOf, inst_modifyInstance_ne hj]
        exact ⟨rfl, rfl⟩
    · rw [callsOf, inst_modifyInstance_of_size_le hge]
      exact ⟨rfl, rfl⟩
  exact ⟨size_modifyInstance, fun j => (hinst j).1, fun j => (hinst j).2⟩

lemma rankOf_eq (h : SameCalls p q) (id : Nat) : q.rankOf rank id = p.rankOf rank id := by
  rw [rankOf, rankOf, h.moduleId_eq]

lemma descends (h : SameCalls p q) (hp : p.Descends rank) : q.Descends rank := by
  intro a line hline b ht
  have hab : b ∈ p.callsOf a := by
    rw [← h.callsOf_eq]
    exact List.mem_filterMap.2 ⟨line, hline, ht⟩
  obtain ⟨line', hline', ht'⟩ := List.mem_filterMap.1 hab
  obtain ⟨hne, hlt, hrank⟩ := hp a line' hline' b ht'
  rw [h.size_eq, h.rankOf_eq, h.rankOf_eq]
  exact ⟨hne, hlt, hrank⟩

/-- Putting commands on lines keeps the calls. -/
lemma of_retraced (h : Retraced p q) : SameCalls p q := by
  refine ⟨h.size_eq, fun id => ?_, fun id => ?_⟩
  · obtain ⟨lines, hinst, -⟩ := h.inst_eq id
    rw [hinst]
  · obtain ⟨lines, hinst, huntraced⟩ := h.inst_eq id
    have htargets : ∀ lines : List Line, (lines.map Line.untraced).filterMap
        (fun line => line.statement.target?) = lines.filterMap fun line => line.statement.target? := by
      intro lines
      rw [List.filterMap_map]
      rfl
    rw [callsOf, callsOf, hinst, ← htargets, huntraced, htargets]

lemma moveLabel (p : Program) (table : Nat) (line : Line) (address : Int) :
    SameCalls p (p.moveLabel table line address) :=
  of_instances_eq instances_moveLabel

end SameCalls

/-! ### Laying out -/

/-- Laying a called instance out keeps the calls. -/
def LaysCalls (layChild : Program → Int → Nat → Program × Int) : Prop :=
  ∀ p address id, SameCalls p (layChild p address id).1

lemma layLine_sameCalls {layChild : Program → Int → Nat → Program × Int} (hchild : LaysCalls layChild)
    (emits : Bool) (table : Nat) (p : Program) (address : Int) (line : Line) :
    SameCalls p (layLine layChild emits table p address line).1 ∧
      (layLine layChild emits table p address line).2.2.statement.target? = line.statement.target? := by
  have hmove := SameCalls.moveLabel p table { line.startingAt address with emits } address
  have htarget : (line.startingAt address).statement.target? = line.statement.target? :=
    Statement.target?_startingAt
  rw [layLine]
  dsimp only
  split
  · exact ⟨hmove.trans (hchild _ _ _), htarget⟩
  · exact ⟨hmove, htarget⟩

lemma layLines_sameCalls {layChild : Program → Int → Nat → Program × Int} (hchild : LaysCalls layChild)
    (emits : Bool) (table : Nat) (p : Program) (address : Int) (lines : List Line) :
    SameCalls p (layLines layChild emits table p address lines).1 ∧
      targetsOf (layLines layChild emits table p address lines).2.2 = targetsOf lines := by
  induction lines generalizing p address with
  | nil => exact ⟨.refl p, rfl⟩
  | cons line rest ih =>
    obtain ⟨hline, htarget⟩ := layLine_sameCalls hchild emits table p address line
    obtain ⟨hrest, htargets⟩ := ih (layLine layChild emits table p address line).1
      (layLine layChild emits table p address line).2.1
    exact ⟨hline.trans hrest, targetsOf_cons_congr htarget htargets⟩

lemma laysCalls_layInstance (emits : Bool) (depth : Nat) : LaysCalls (layInstance emits depth) := by
  induction depth with
  | zero => exact fun p _ _ => .refl p
  | succ depth ih =>
    intro p address id
    obtain ⟨hlines, htargets⟩ := layLines_sameCalls ih emits (p.inst id).table p address (p.inst id).lines
    refine hlines.trans (.modifyInstance rfl ?_)
    rw [hlines.callsOf_eq]
    exact htargets

/-- Laying lines out asks for the layout of instances below a rank only. -/
lemma Descends.layLines_congr {f g : Program → Int → Nat → Program × Int} (hf : LaysCalls f)
    (hfg : ∀ p : Program, p.Descends rank → ∀ address id, p.rankOf rank id < bound →
      f p address id = g p address id) (emits : Bool) (table : Nat) (hp : p.Descends rank)
    (address : Int) (hlines : p.CallsBelow (p.rankOf rank) bound lines) :
    layLines f emits table p address lines = layLines g emits table p address lines := by
  induction lines generalizing p address with
  | nil => rfl
  | cons line rest ih =>
    have hline : layLine f emits table p address line = layLine g emits table p address line := by
      have hmove := SameCalls.moveLabel p table { line.startingAt address with emits } address
      rw [layLine, layLine]
      dsimp only
      split
      · next name args target hst =>
        have ht : line.statement.target? = some target := by
          rw [← Statement.target?_startingAt (a := address)]
          exact congrArg Statement.target? hst
        have hlow := (hlines line List.mem_cons_self target ht).2.2
        rw [← hmove.rankOf_eq] at hlow
        rw [hfg _ (hmove.descends hp) _ _ hlow]
      · rfl
    obtain ⟨hsame, -⟩ := layLine_sameCalls hf emits table p address line
    rw [layLines, layLines, ← hline]
    dsimp only
    rw [ih (hsame.descends hp) _ fun line' hline' target ht => ?_]
    rw [hsame.size_eq, hsame.rankOf_eq]
    exact hlines line' (List.mem_cons_of_mem _ hline') target ht

/-- The layout of an instance does not depend on a depth above its rank. -/
lemma Descends.layInstance_eq (h : p.Descends rank) (emits : Bool) (address : Int)
    (hdepth : p.rankOf rank id < depth) (hdepth' : p.rankOf rank id < depth') :
    layInstance emits depth p address id = layInstance emits depth' p address id := by
  induction depth generalizing depth' p address id with
  | zero => omega
  | succ depth ih =>
    obtain ⟨depth', rfl⟩ := Nat.exists_eq_add_one_of_ne_zero (Nat.ne_zero_of_lt hdepth')
    have hlines : layLines (layInstance emits depth) emits (p.inst id).table p address (p.inst id).lines =
        layLines (layInstance emits depth') emits (p.inst id).table p address (p.inst id).lines :=
      h.layLines_congr (laysCalls_layInstance emits depth)
        (fun p hp address id hid => ih hp address (by omega) (by omega)) emits _ address (h id)
    rw [layInstance, layInstance, hlines]

lemma layBefore_sameCalls (depth table : Nat) (p : Program) (below : Int) (line : Line) :
    SameCalls p (layBefore depth table p below line).1 ∧
      (layBefore depth table p below line).2.2.statement.target? = line.statement.target? := by
  rw [layBefore]
  split
  · next n padding hst =>
    refine ⟨.moveLabel p table line _, ?_⟩
    rw [hst]
    rfl
  · exact ⟨(SameCalls.moveLabel p table line _).trans (laysCalls_layInstance false depth _ _ _),
      Statement.target?_startingAt⟩
  · exact ⟨.moveLabel p table line _, Statement.target?_startingAt⟩

lemma layAllBefore_sameCalls (depth table : Nat) (p : Program) (below : Int) (lines : List Line) :
    SameCalls p (layAllBefore depth table p below lines).1 ∧
      targetsOf (layAllBefore depth table p below lines).2.2 = targetsOf lines := by
  induction lines with
  | nil => exact ⟨.refl p, rfl⟩
  | cons line rest ih =>
    obtain ⟨hline, htarget⟩ := layBefore_sameCalls depth table
      (layAllBefore depth table p below rest).1 (layAllBefore depth table p below rest).2.1 line
    exact ⟨ih.1.trans hline, targetsOf_cons_congr htarget ih.2⟩

/-- Relocation keeps the calls. -/
lemma relocate_sameCalls (p : Program) (next : Nat) : SameCalls p (p.relocate next).1 := by
  rw [relocate]
  dsimp only
  split
  · exact .refl p
  · generalize searchStart _ _ _ = start
    obtain ⟨hrom', htargets⟩ := layLines_sameCalls (laysCalls_layInstance true p.instances.size) true
      (p.inst root).table p start ((p.inst root).lines.dropWhile fun line => !line.statement.isBurn)
    generalize layLines _ _ _ _ _ _ = laid at hrom' htargets ⊢
    obtain ⟨p₁, _, rom⟩ := laid
    obtain ⟨hram', htargets'⟩ := layAllBefore_sameCalls p.instances.size (p.inst root).table p₁ start
      ((p.inst root).lines.takeWhile fun line => !line.statement.isBurn)
    generalize layAllBefore _ _ _ _ _ = laid at hram' htargets' ⊢
    obtain ⟨p₂, below, ram⟩ := laid
    have hlines : SameCalls p₂ (p₂.modifyInstance root fun i => { i with lines := ram ++ rom }) := by
      refine .modifyInstance rfl ?_
      dsimp only at htargets htargets'
      rw [hram'.callsOf_eq, hrom'.callsOf_eq, targetsOf, List.filterMap_append, ← targetsOf, ← targetsOf,
        htargets, htargets', targetsOf, targetsOf, ← List.filterMap_append,
        List.takeWhile_append_dropWhile]
      rfl
    have hmoved := (hrom'.trans hram').trans hlines
    split
    · exact hmoved
    · exact hmoved.trans (.modifyInstance rfl rfl)

/-- Checking the `.BURN` directives keeps the calls. -/
lemma finishLink_sameCalls (p : Program) (next : Nat) (options : Options) :
    SameCalls p (p.finishLink next options).1 := by
  rw [finishLink]
  split
  · exact .refl p
  · split
    · exact .refl p
    · split
      · exact .refl p
      · exact relocate_sameCalls p next

lemma instances_addDiagnostics (p : Program) (id : Nat) (faults : List Fault) :
    (faults.foldl (fun p (number, e) => p.addDiagnostic id number (.ofLink e)) p).instances =
      p.instances := by
  induction faults generalizing p with
  | nil => rfl
  | cons fault rest ih => exact ih _

end Program

namespace Linker

open Program (CallsBelow Descends SameCalls)

variable {p : Program} {rank : Nat → Nat} {id table depth depth' bound : Nat} {l l' : Linker} {line : Line}
  {lines : List Line} {f g : Linker → Nat → Linker × List Fault}

/-- Instances are added only, and they stay instances of their modules. -/
structure Grows (p p' : Program) : Prop where
  size_le : p.instances.size ≤ p'.instances.size
  moduleId_eq : ∀ id < p.instances.size, (p'.inst id).moduleId = (p.inst id).moduleId

namespace Grows

variable {p₁ p' : Program}

lemma of_sameCalls (h : SameCalls p p') : Grows p p' :=
  ⟨h.size_eq.ge, fun id _ => h.moduleId_eq id⟩

lemma trans (h : Grows p p₁) (h' : Grows p₁ p') : Grows p p' where
  size_le := h.size_le.trans h'.size_le
  moduleId_eq id hid :=
    (h'.moduleId_eq id (Nat.lt_of_lt_of_le hid h.size_le)).trans (h.moduleId_eq id hid)

lemma callsBelow (h : Grows p p') (hlines : p.CallsBelow (p.rankOf rank) bound lines) :
    p'.CallsBelow (p'.rankOf rank) bound lines := by
  intro line hline target ht
  obtain ⟨hne, hlt, hrank⟩ := hlines line hline target ht
  refine ⟨hne, Nat.lt_of_lt_of_le hlt h.size_le, ?_⟩
  rwa [Program.rankOf, h.moduleId_eq target hlt]

end Grows

lemma SymbolsOnly.sameCalls (h : SymbolsOnly l l') : SameCalls l.program l'.program := by
  obtain ⟨s, -, rfl⟩ := h
  exact .of_instances_eq rfl

/-- A copy is an instance of the same module, which calls the same instances. -/
lemma copyFor_descends (hl : l.program.Descends rank) (id number target : Nat) :
    (l.copyFor id number target).program.Descends rank ∧
      Grows l.program (l.copyFor id number target).program := by
  have hgrows : Grows l.program (l.copyFor id number target).program := by
    refine ⟨?_, fun j hj => ?_⟩
    · rw [size_copyFor]
      exact Nat.le_succ _
    · rw [inst_copyFor_of_lt hj]
  refine ⟨fun j => ?_, hgrows⟩
  rcases Nat.lt_trichotomy j l.program.instances.size with hlt | rfl | hgt
  · rw [Program.rankOf, inst_copyFor_of_lt hlt]
    exact hgrows.callsBelow (hl j)
  · rw [Program.rankOf, inst_copyFor_size]
    exact hgrows.callsBelow (hl target)
  · rw [Program.lines_of_size_le (by rw [size_copyFor]; exact hgt)]
    exact fun _ hline => absurd hline List.not_mem_nil

/-- What becomes of a line does not depend on how called instances are linked, except for a call
without errors of its own. -/
lemma linkLine_cases (id table : Nat) (l : Linker) (line : Line) : ∃ l₁, SymbolsOnly l l₁ ∧
    ((∃ next overflowed faults, ∀ linkChild,
        linkLine linkChild id table l line = ({ l₁ with next, overflowed }, l.here line, faults)) ∨
      ∃ name args target, (l.here line).statement = .call name args target ∧ ∀ linkChild,
        linkLine linkChild id table l line = linkCall linkChild id l₁ (l.here line) name args target) := by
  cases hlabel : l.bindLabel table (line.startingAt l.address.toNat) with
  | error e =>
    refine ⟨l, .refl l, .inl ⟨l.next, l.overflowed, [(line.number, e)], fun linkChild => ?_⟩⟩
    simp only [linkLine, hlabel]
    rfl
  | ok l₁ =>
    have hl₁ := symbolsOnly_bindLabel hlabel
    cases hoperand : l₁.bindOperand id table (line.startingAt l.address.toNat) with
    | error e =>
      refine ⟨l₁, hl₁, .inl ⟨l₁.next, l₁.overflowed, [(line.number, e)], fun linkChild => ?_⟩⟩
      simp only [linkLine, hlabel, hoperand]
      rfl
    | ok l₂ =>
      refine ⟨l₂, hl₁.trans (symbolsOnly_bindOperand hoperand), ?_⟩
      obtain ⟨size, hsize⟩ : ∃ size, size = ((l.here line).size l₂.program.symbols table).toNat := ⟨_, rfl⟩
      have hadvance : ∃ next overflowed faults, (l₂.advance size).1 = { l₂ with next, overflowed } ∧
          (l₂.advance size).2.toList.map (fun e => (line.number, e)) = faults := by
        rw [advance]
        split
        · exact ⟨_, _, _, rfl, rfl⟩
        · exact ⟨_, _, _, rfl, rfl⟩
      obtain ⟨next, overflowed, faults, hfst, hsnd⟩ := hadvance
      cases hst : (line.startingAt l.address.toNat).statement with
      | call name args target =>
        refine .inr ⟨name, args, target, hst, fun linkChild => ?_⟩
        simp only [linkLine, hlabel, hoperand, hst]
        rfl
      | _ =>
        refine .inl ⟨next, overflowed, faults, fun linkChild => ?_⟩
        simp only [linkLine, hlabel, hoperand, hst]
        rw [← hfst, ← hsnd, hsize]
        rfl

/-- Linking a called instance keeps the ranks. -/
def KeepsDescent (rank : Nat → Nat) (linkChild : Linker → Nat → Linker × List Fault) : Prop :=
  ∀ l id, l.program.Descends rank → id < l.program.instances.size →
    (linkChild l id).1.program.Descends rank ∧ Grows l.program (linkChild l id).1.program

lemma instances_logAll (l : Linker) (id : Nat) (faults : List Fault) :
    (l.logAll id faults).program.instances = l.program.instances :=
  Program.instances_addDiagnostics l.program id faults

/-- Linking a line keeps the ranks, and what the line calls ranks no higher than before. -/
lemma linkLine_descends (hf : KeepsDescent rank f) (id table : Nat) (hl : l.program.Descends rank)
    (hline : l.program.CallsBelow (l.program.rankOf rank) bound [line])
    (hroot : Program.root < l.program.instances.size) :
    (linkLine f id table l line).1.program.Descends rank ∧
      Grows l.program (linkLine f id table l line).1.program ∧
      (linkLine f id table l line).1.program.CallsBelow
        ((linkLine f id table l line).1.program.rankOf rank) bound [(linkLine f id table l line).2.1] := by
  obtain ⟨l₁, hsame, hcases⟩ := linkLine_cases id table l line
  have hl₁ : l₁.program.Descends rank := hsame.sameCalls.descends hl
  have hgrows : Grows l.program l₁.program := .of_sameCalls hsame.sameCalls
  have hhere : ∀ target, (l.here line).statement.target? = some target →
      line.statement.target? = some target := by
    intro target ht
    rwa [here, Line.statement_startingAt, Statement.target?_startingAt] at ht
  rcases hcases with ⟨next, overflowed, faults, heq⟩ | ⟨name, args, target, hst, heq⟩
  · rw [heq f]
    refine ⟨hl₁, hgrows, hgrows.callsBelow fun line' hline' target ht => ?_⟩
    obtain rfl := List.mem_singleton.1 hline'
    exact hline line List.mem_cons_self target (hhere target ht)
  · obtain ⟨-, hlt, hlow⟩ := hline line List.mem_cons_self target (hhere target (by rw [hst]; rfl))
    obtain ⟨hcopied, hcopy⟩ := copyFor_descends hl₁ id (l.here line).number target
    have hfresh : l₁.program.instances.size <
        (l₁.copyFor id (l.here line).number target).program.instances.size := by
      rw [size_copyFor]
      exact Nat.lt_succ_self _
    obtain ⟨hlinked, hlink⟩ := hf _ _ hcopied hfresh
    have hlogged : SameCalls (f (l₁.copyFor id (l.here line).number target) l₁.program.instances.size).1.program
        (linkLine f id table l line).1.program := by
      rw [heq f]
      exact .of_instances_eq (instances_logAll _ _ _)
    have hlater := hlink.trans (.of_sameCalls hlogged)
    refine ⟨hlogged.descends hlinked, (hgrows.trans hcopy).trans hlater, fun line' hline' copy ht => ?_⟩
    obtain rfl := List.mem_singleton.1 hline'
    obtain rfl : copy = l₁.program.instances.size := by
      rw [heq f] at ht
      exact (Option.some.inj ht).symm
    refine ⟨(Nat.lt_of_lt_of_le hroot hgrows.size_le).ne', Nat.lt_of_lt_of_le hfresh hlater.size_le, ?_⟩
    rw [Program.rankOf, hlater.moduleId_eq _ hfresh, inst_copyFor_size]
    rwa [Program.rankOf, ← hgrows.moduleId_eq target hlt] at hlow

/-- Linking lines keeps the ranks, and what the lines call ranks no higher than before. -/
lemma linkLines_descends (hf : KeepsDescent rank f) (id table : Nat) (hl : l.program.Descends rank)
    (hlines : l.program.CallsBelow (l.program.rankOf rank) bound lines)
    (hroot : Program.root < l.program.instances.size) :
    (linkLines f id table l lines).1.program.Descends rank ∧
      Grows l.program (linkLines f id table l lines).1.program ∧
      (linkLines f id table l lines).1.program.CallsBelow
        ((linkLines f id table l lines).1.program.rankOf rank) bound (linkLines f id table l lines).2.1 := by
  induction lines generalizing l with
  | nil => exact ⟨hl, ⟨Nat.le_refl _, fun _ _ => rfl⟩, fun _ h => absurd h List.not_mem_nil⟩
  | cons line rest ih =>
    obtain ⟨hl₁, hgrows₁, hline⟩ := linkLine_descends hf id table hl
      (fun line' h => hlines line' (List.mem_cons.2 (.inl (List.mem_singleton.1 h)))) hroot
    obtain ⟨hl₂, hgrows₂, hrest⟩ := ih hl₁
      (hgrows₁.callsBelow fun line' h => hlines line' (List.mem_cons_of_mem _ h))
      (Nat.lt_of_lt_of_le hroot hgrows₁.size_le)
    refine ⟨hl₂, hgrows₁.trans hgrows₂, fun line' hline' => ?_⟩
    rcases List.mem_cons.1 hline' with rfl | hline'
    · exact hgrows₂.callsBelow hline _ (List.mem_singleton_self _)
    · exact hrest line' hline'

/-- An instance may be given lines that rank below it. -/
lemma store_descends (hl : l.program.Descends rank) (id : Nat)
    (hlines : l.program.CallsBelow (l.program.rankOf rank) (l.program.rankOf rank id) lines) :
    (l.store id lines).program.Descends rank ∧ Grows l.program (l.store id lines).program := by
  have hmodule : ∀ j, ((l.store id lines).program.inst j).moduleId = (l.program.inst j).moduleId := by
    intro j
    rcases Nat.lt_or_ge id l.program.instances.size with hlt | hge
    · by_cases hj : j = id
      · rw [hj, inst_store_self hlt]
        rfl
      · rw [inst_store_ne hj]
    · rw [store, Program.inst_modifyInstance_of_size_le hge]
  have hgrows : Grows l.program (l.store id lines).program := ⟨by rw [size_store], fun j _ => hmodule j⟩
  refine ⟨fun j => ?_, hgrows⟩
  rw [show (l.store id lines).program.rankOf rank j = l.program.rankOf rank j from congrArg rank (hmodule j)]
  rcases Nat.lt_or_ge id l.program.instances.size with hlt | hge
  · by_cases hj : j = id
    · rw [hj, inst_store_self hlt]
      exact hgrows.callsBelow hlines
    · rw [inst_store_ne hj]
      exact hgrows.callsBelow (hl j)
  · rw [store, Program.inst_modifyInstance_of_size_le hge]
    exact hgrows.callsBelow (hl j)

/-- Linking an instance keeps the ranks, with faults or without. -/
lemma keepsDescent_linkInstance (rank : Nat → Nat) (depth : Nat) :
    KeepsDescent rank (linkInstance depth) := by
  induction depth with
  | zero => exact fun l _ hl _ => ⟨hl, ⟨Nat.le_refl _, fun _ _ => rfl⟩⟩
  | succ depth ih =>
    intro l id hl hid
    obtain ⟨hl', hgrows, hlines⟩ := linkLines_descends ih id (l.program.inst id).table hl (hl id)
      (Nat.lt_of_le_of_lt (Nat.zero_le _) hid)
    have hstore := store_descends hl' id (by
      rw [Program.rankOf, hgrows.moduleId_eq id hid]
      exact hlines)
    exact ⟨hstore.1, hgrows.trans hstore.2⟩

/-- Linking lines asks for the linking of instances below a rank only. -/
lemma linkLines_congr (hf : KeepsDescent rank f)
    (hfg : ∀ l : Linker, l.program.Descends rank → ∀ id < l.program.instances.size,
      l.program.rankOf rank id < bound → f l id = g l id)
    (id table : Nat) (hl : l.program.Descends rank)
    (hlines : l.program.CallsBelow (l.program.rankOf rank) bound lines)
    (hroot : Program.root < l.program.instances.size) :
    linkLines f id table l lines = linkLines g id table l lines := by
  induction lines generalizing l with
  | nil => rfl
  | cons line rest ih =>
    have hfirst : l.program.CallsBelow (l.program.rankOf rank) bound [line] := fun line' h =>
      hlines line' (List.mem_cons.2 (.inl (List.mem_singleton.1 h)))
    have hline : linkLine f id table l line = linkLine g id table l line := by
      obtain ⟨l₁, hsame, ⟨next, overflowed, faults, heq⟩ | ⟨name, args, target, hst, heq⟩⟩ :=
        linkLine_cases id table l line
      · rw [heq f, heq g]
      · have ht : line.statement.target? = some target := by
          rw [← Statement.target?_startingAt (a := l.address.toNat)]
          exact congrArg Statement.target? hst
        obtain ⟨-, hlt, hlow⟩ := hfirst line List.mem_cons_self target ht
        have hl₁ : l₁.program.Descends rank := hsame.sameCalls.descends hl
        rw [heq f, heq g, linkCall, linkCall, hfg _ (copyFor_descends hl₁ id _ target).1 _ ?_ ?_]
        · rw [size_copyFor]
          exact Nat.lt_succ_self _
        · rwa [Program.rankOf, inst_copyFor_size, hsame.sameCalls.moduleId_eq]
    obtain ⟨hl₁, hgrows, -⟩ := linkLine_descends hf id table hl hfirst hroot
    rw [linkLines, linkLines, ← hline]
    dsimp only
    rw [ih hl₁ (hgrows.callsBelow fun line' h => hlines line' (List.mem_cons_of_mem _ h))
      (Nat.lt_of_lt_of_le hroot hgrows.size_le)]

/-- Linking an instance does not depend on a depth above its rank. -/
lemma linkInstance_eq (hl : l.program.Descends rank) (hid : id < l.program.instances.size)
    (hdepth : l.program.rankOf rank id < depth) (hdepth' : l.program.rankOf rank id < depth') :
    linkInstance depth l id = linkInstance depth' l id := by
  induction depth generalizing depth' l id with
  | zero => omega
  | succ depth ih =>
    obtain ⟨depth', rfl⟩ := Nat.exists_eq_add_one_of_ne_zero (Nat.ne_zero_of_lt hdepth')
    have hlines : linkLines (linkInstance depth) id (l.program.inst id).table l (l.program.inst id).lines =
        linkLines (linkInstance depth') id (l.program.inst id).table l (l.program.inst id).lines :=
      linkLines_congr (keepsDescent_linkInstance rank depth)
        (fun l hl id hid hlow => ih hl hid (by omega) (by omega)) id _ hl (hl id)
        (Nat.lt_of_le_of_lt (Nat.zero_le _) hid)
    rw [linkInstance, linkInstance, hlines]

end Linker

end Pep10
