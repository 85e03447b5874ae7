import Pep10.Build
import Pep10.Proofs.Program.LinkerStep

/-!
# What linking and listing look at

Once a program has been assembled, the texts of its modules do not matter any more, nor do the calls
that were recorded for their lines, the graph of inclusion and the log.  Linking goes on with the
instances and the symbol tables, and needs to know besides whether the program is an operating
system; object code, listings and bounds are made from the instances and the symbol tables alone.

So a program is compared here with the same instances and symbol tables over the modules of another
one (`onto`).  What changes nothing else commutes with this; linking also records calls and logs
faults, and leads from programs that differ in this way only to such programs (`Twin`).
-/

namespace Pep10

namespace Program

variable {p q base : Program} {id table : Nat} {address : Int} {line : Line} {lines : List Line}

/-- The instances and the symbol tables of a program over the modules of another one. -/
def onto (p base : Program) : Program :=
  { base with instances := p.instances, symbols := p.symbols }

@[simp] lemma inst_onto : (p.onto base).inst id = p.inst id := rfl

@[simp] lemma instances_onto : (p.onto base).instances = p.instances := rfl

@[simp] lemma symbols_onto : (p.onto base).symbols = p.symbols := rfl

/-! ### Expansion -/

lemma sitesFrom_onto (depth : Nat) (rootLine : Option Nat) (id : Nat) :
    (p.onto base).sitesFrom depth rootLine id = p.sitesFrom depth rootLine id := by
  induction depth generalizing rootLine id with
  | zero => rfl
  | succ depth ih =>
    rw [sitesFrom, sitesFrom]
    simp only [inst_onto, ih]

@[simp] lemma sites_onto : (p.onto base).sites id = p.sites id := sitesFrom_onto _ _ _

@[simp] lemma byteCount_onto : (p.onto base).byteCount id = p.byteCount id := by
  rw [byteCount, byteCount, sites_onto]
  rfl

@[simp] lemma codeOf_onto : (p.onto base).codeOf id = p.codeOf id := by
  rw [codeOf, codeOf, sites_onto]
  rfl

@[simp] lemma bounds_onto : (p.onto base).bounds = p.bounds := by
  rw [bounds, bounds, byteCount_onto]
  rfl

lemma listInstance_onto (depth id : Nat) :
    (p.onto base).listInstance depth id = p.listInstance depth id := by
  induction depth generalizing id with
  | zero => rfl
  | succ depth ih =>
    rw [listInstance, listInstance, funext ih]
    rfl

@[simp] lemma listing_onto : (p.onto base).listing = p.listing := listInstance_onto _ _

@[simp] lemma symbolListing_onto : (p.onto base).symbolListing = p.symbolListing := rfl

/-! ### Tracing -/

lemma setTraces_onto (traces : List (Site × LineTrace)) (p base : Program) :
    traces.foldl (fun p (site, trace) => p.setTrace site trace.commands) (p.onto base) =
      (traces.foldl (fun p (site, trace) => p.setTrace site trace.commands) p).onto base := by
  induction traces generalizing p with
  | nil => rfl
  | cons trace traces ih => exact ih (p.setTrace trace.1 trace.2.commands)

lemma annotate_onto (p base : Program) :
    (p.onto base).annotate = (p.annotate.1.onto base, p.annotate.2) := by
  rw [annotate, annotate, sites_onto]
  split
  · rfl
  · exact Prod.ext (setTraces_onto _ p base) rfl

/-! ### Laying out -/

lemma linesEnd_onto : (p.onto base).linesEnd = p.linesEnd := rfl

lemma instanceEnd_onto (depth : Nat) : (p.onto base).instanceEnd depth = p.instanceEnd depth := by
  induction depth with
  | zero => rfl
  | succ depth ih =>
    funext address id
    rw [instanceEnd, instanceEnd, ih]
    rfl

lemma moveLabel_onto (p base : Program) (table : Nat) (line : Line) (address : Int) :
    (p.onto base).moveLabel table line address = (p.moveLabel table line address).onto base := by
  unfold moveLabel
  split
  · rfl
  · split <;> rfl

/-- Laying a called instance out commutes with going over to other modules. -/
def LaysOnto (base : Program) (layChild : Program → Int → Nat → Program × Int) : Prop :=
  ∀ p address id, layChild (p.onto base) address id =
    ((layChild p address id).1.onto base, (layChild p address id).2)

lemma layLine_onto {layChild : Program → Int → Nat → Program × Int} (hchild : LaysOnto base layChild)
    (emits : Bool) (table : Nat) (p : Program) (address : Int) (line : Line) :
    layLine layChild emits table (p.onto base) address line =
      ((layLine layChild emits table p address line).1.onto base,
        (layLine layChild emits table p address line).2) := by
  rw [layLine, layLine]
  simp only [moveLabel_onto]
  split
  · rw [hchild]
  · rfl

lemma layLines_onto {layChild : Program → Int → Nat → Program × Int} (hchild : LaysOnto base layChild)
    (emits : Bool) (table : Nat) (p : Program) (address : Int) (lines : List Line) :
    layLines layChild emits table (p.onto base) address lines =
      ((layLines layChild emits table p address lines).1.onto base,
        (layLines layChild emits table p address lines).2) := by
  induction lines generalizing p address with
  | nil => rfl
  | cons line rest ih =>
    rw [layLines, layLines, layLine_onto hchild]
    dsimp only
    rw [ih]

lemma laysOnto_layInstance (base : Program) (emits : Bool) (depth : Nat) :
    LaysOnto base (layInstance emits depth) := by
  induction depth with
  | zero => exact fun _ _ _ => rfl
  | succ depth ih =>
    intro p address id
    rw [layInstance, layInstance, inst_onto, layLines_onto ih]
    rfl

lemma layBefore_onto (depth table : Nat) (p base : Program) (below : Int) (line : Line) :
    layBefore depth table (p.onto base) below line =
      ((layBefore depth table p below line).1.onto base, (layBefore depth table p below line).2) := by
  unfold layBefore
  split
  · dsimp only
    rw [moveLabel_onto]
  · dsimp only
    rw [byteCount_onto, moveLabel_onto, laysOnto_layInstance base false depth]
  · dsimp only
    rw [moveLabel_onto]
    rfl

lemma layAllBefore_onto (depth table : Nat) (p base : Program) (below : Int) (lines : List Line) :
    layAllBefore depth table (p.onto base) below lines =
      ((layAllBefore depth table p below lines).1.onto base,
        (layAllBefore depth table p below lines).2) := by
  induction lines with
  | nil => rfl
  | cons line rest ih =>
    rw [layAllBefore, layAllBefore, ih]
    dsimp only
    rw [layBefore_onto]

lemma relocate_onto (p base : Program) (next : Nat) :
    (p.onto base).relocate next = ((p.relocate next).1.onto base, (p.relocate next).2) := by
  rw [relocate, relocate]
  simp only [inst_onto, instances_onto, linesEnd_onto, instanceEnd_onto]
  split
  · rfl
  · generalize searchStart _ _ _ = start
    rw [layLines_onto (laysOnto_layInstance base true _)]
    generalize layLines _ _ _ _ _ _ = rom
    dsimp only
    rw [layAllBefore_onto]
    generalize layAllBefore _ _ _ _ _ = ram
    by_cases hbelow : ram.2.1 < 0
    · simp only [if_pos hbelow]
      rfl
    · simp only [if_neg hbelow]
      rfl

/-- The end of linking commutes with going over to other modules of the same kind. -/
lemma finishLink_onto (h : (p.onto base).isSystem = p.isSystem) (next : Nat) (options : Options) :
    (p.onto base).finishLink next options =
      ((p.finishLink next options).1.onto base, (p.finishLink next options).2) := by
  rw [finishLink, finishLink, h, inst_onto]
  split
  · rfl
  · split
    · rfl
    · split
      · rfl
      · exact relocate_onto p base next

/-! ### Twins -/

/-- Programs that differ at most in the texts and the recorded calls of their modules, in the graph
of inclusion and in the log. -/
structure Twin (p q : Program) : Prop where
  instances_eq : q.instances = p.instances
  symbols_eq : q.symbols = p.symbols
  kind_eq : (q.module root).kind = (p.module root).kind

namespace Twin

lemma eq_onto (h : Twin p q) : q = p.onto q := by
  rw [onto, ← h.instances_eq, ← h.symbols_eq]

lemma isSystem_eq (h : Twin p q) : q.isSystem = p.isSystem := by
  rw [isSystem, isSystem, h.kind_eq]

end Twin

lemma kind_setCall (p : Program) (m line id j : Nat) :
    ((p.modifyModule m fun owner => owner.setCall line id).module j).kind = (p.module j).kind := by
  rw [module_modifyModule]
  split <;> rfl

end Program

/-! ### Linking -/

namespace Linker

open Program (Twin)

variable {l l' : Linker} {base : Program} {id table number target : Nat} {name : String} {line : Line}
  {lines : List Line} {f : Linker → Nat → Linker × List Fault}

/-- The state of linking over the modules of another program. -/
def onto (l : Linker) (base : Program) : Linker := { l with program := l.program.onto base }

@[simp] lemma symbols_onto : (l.onto base).program.symbols = l.program.symbols := rfl

lemma bindLabel_onto : (l.onto base).bindLabel table line = (l.bindLabel table line).map (onto · base) := by
  rw [bindLabel, bindLabel, symbols_onto]
  cases line.label with
  | none => rfl
  | some name =>
    dsimp only
    cases (l.program.symbols.table table).find? name with
    | none => rfl
    | some s =>
      dsimp only
      by_cases hmultiple : s.multiplyDefined = true
      · rw [if_pos hmultiple, if_pos hmultiple]
        cases s.value <;> rfl
      · rw [if_neg hmultiple, if_neg hmultiple]
        by_cases hequate : line.statement.isEquate = true
        · rw [if_pos hequate, if_pos hequate]
          rfl
        · rw [if_neg hequate, if_neg hequate]
          rfl

lemma referToRoot_onto : (l.onto base).referToRoot table name = (l.referToRoot table name).onto base := by
  have hroot : (l.onto base).program.rootTable = l.program.rootTable := rfl
  rw [referToRoot, referToRoot, symbols_onto, hroot]
  cases (l.program.symbols.table l.program.rootTable).indexOf? name <;> rfl

lemma importToRoot_onto : (l.onto base).importToRoot name = (l.importToRoot name).map (onto · base) := by
  have himport : (l.onto base).import? name = l.import? name := rfl
  rw [importToRoot, importToRoot, himport]
  cases l.import? name <;> rfl

lemma resolve_onto : (l.onto base).resolve id table name = (l.resolve id table name).map (onto · base) := by
  have hdeclares : ∀ t, (l.onto base).declares t name = l.declares t name := fun _ => rfl
  have hroot : (l.onto base).program.rootTable = l.program.rootTable := rfl
  rw [resolve, resolve, hdeclares, hroot, hdeclares]
  split
  · rfl
  · split
    · rfl
    · split
      · rw [referToRoot_onto]
        rfl
      · rw [importToRoot_onto, Option.map_map, Option.map_map]
        exact congrArg (Option.map · _) (funext fun l => referToRoot_onto)

lemma bindOperand_onto :
    (l.onto base).bindOperand id table line = (l.bindOperand id table line).map (onto · base) := by
  rw [bindOperand, bindOperand]
  cases line.statement.operand?.bind Operand.symbol? with
  | none => rfl
  | some name =>
    dsimp only
    rw [resolve_onto]
    cases l.resolve id table name <;> rfl

/-- States of linking that differ at most in what their programs may differ in. -/
structure Twin (l l' : Linker) : Prop where
  program : Program.Twin l.program l'.program
  next_eq : l'.next = l.next
  overflowed_eq : l'.overflowed = l.overflowed
  imports_eq : l'.imports = l.imports

namespace Twin

lemma eq_onto (h : Twin l l') : l' = l.onto l'.program := by
  rw [onto, ← h.program.eq_onto, ← h.next_eq, ← h.overflowed_eq, ← h.imports_eq]

/-- A change of symbols that commutes with going over to other modules leads to twins. -/
lemma of_symbolsOnly (h : Twin l l') {l₁ : Linker} (hs : SymbolsOnly l l₁) :
    Twin l₁ (l₁.onto l'.program) := by
  obtain ⟨s, -, rfl⟩ := hs
  exact ⟨⟨rfl, rfl, h.program.kind_eq⟩, rfl, rfl, rfl⟩

lemma bindLabel (h : Twin l l') (table : Nat) (line : Line) :
    (∃ e, l.bindLabel table line = .error e ∧ l'.bindLabel table line = .error e) ∨
      ∃ l₁ l₁', l.bindLabel table line = .ok l₁ ∧ l'.bindLabel table line = .ok l₁' ∧ Twin l₁ l₁' := by
  have heq : l'.bindLabel table line = (l.bindLabel table line).map (Linker.onto · l'.program) := by
    rw [← bindLabel_onto, ← h.eq_onto]
  rw [heq]
  cases hbind : l.bindLabel table line with
  | error e => exact .inl ⟨e, rfl, rfl⟩
  | ok l₁ => exact .inr ⟨l₁, _, rfl, rfl, h.of_symbolsOnly (symbolsOnly_bindLabel hbind)⟩

lemma bindOperand (h : Twin l l') (id table : Nat) (line : Line) :
    (∃ e, l.bindOperand id table line = .error e ∧ l'.bindOperand id table line = .error e) ∨
      ∃ l₁ l₁', l.bindOperand id table line = .ok l₁ ∧ l'.bindOperand id table line = .ok l₁' ∧
        Twin l₁ l₁' := by
  have heq : l'.bindOperand id table line =
      (l.bindOperand id table line).map (Linker.onto · l'.program) := by
    rw [← bindOperand_onto, ← h.eq_onto]
  rw [heq]
  cases hbind : l.bindOperand id table line with
  | error e => exact .inl ⟨e, rfl, rfl⟩
  | ok l₁ => exact .inr ⟨l₁, _, rfl, rfl, h.of_symbolsOnly (symbolsOnly_bindOperand hbind)⟩

lemma advance (h : Twin l l') (size : Nat) :
    Twin (l.advance size).1 (l'.advance size).1 ∧ (l'.advance size).2 = (l.advance size).2 := by
  rw [Linker.advance, Linker.advance, h.next_eq, h.overflowed_eq]
  split
  · exact ⟨⟨h.program, rfl, rfl, h.imports_eq⟩, rfl⟩
  · exact ⟨⟨h.program, rfl, rfl, h.imports_eq⟩, rfl⟩

lemma copyFor (h : Twin l l') (id number target : Nat) :
    Twin (l.copyFor id number target) (l'.copyFor id number target) := by
  have hinstances := h.program.instances_eq
  have hsymbols := h.program.symbols_eq
  refine ⟨⟨?_, ?_, ?_⟩, h.next_eq, h.overflowed_eq, h.imports_eq⟩
  · change (l'.program.copyInstance target).instances = (l.program.copyInstance target).instances
    rw [Program.copyInstance, Program.copyInstance, Program.inst, Program.inst, hinstances, hsymbols]
  · change (l'.program.copyInstance target).symbols = (l.program.copyInstance target).symbols
    rw [Program.copyInstance, Program.copyInstance, Program.inst, Program.inst, hinstances, hsymbols]
  · rw [Linker.copyFor, Linker.copyFor]
    dsimp only
    rw [Program.kind_setCall, Program.kind_setCall]
    exact h.program.kind_eq

lemma logAll (h : Twin l l') (id : Nat) (faults : List Fault) :
    Twin (l.logAll id faults) (l'.logAll id faults) := by
  induction faults generalizing l l' with
  | nil => exact h
  | cons fault rest ih =>
    have hfirst : Twin { l with program := l.program.addDiagnostic id fault.1 (.ofLink fault.2) }
        { l' with program := l'.program.addDiagnostic id fault.1 (.ofLink fault.2) } :=
      ⟨⟨h.program.instances_eq, h.program.symbols_eq, h.program.kind_eq⟩, h.next_eq, h.overflowed_eq,
        h.imports_eq⟩
    exact ih hfirst

end Twin

/-- Linking a called instance leads from twins to twins, with the same faults. -/
def KeepsTwins (linkChild : Linker → Nat → Linker × List Fault) : Prop :=
  ∀ l l' id, Twin l l' → Twin (linkChild l id).1 (linkChild l' id).1 ∧ (linkChild l' id).2 = (linkChild l id).2

namespace Twin

lemma linkCall (hf : KeepsTwins f) (h : Twin l l') (id : Nat) (line : Line) (name : String)
    (args : List String) (target : Nat) :
    Twin (linkCall f id l line name args target).1 (linkCall f id l' line name args target).1 ∧
      (Linker.linkCall f id l' line name args target).2 = (Linker.linkCall f id l line name args target).2 := by
  obtain ⟨hchild, hfaults⟩ := hf _ _ l.program.instances.size (h.copyFor id line.number target)
  rw [Linker.linkCall, Linker.linkCall, h.program.instances_eq]
  dsimp only
  rw [hfaults]
  exact ⟨hchild.logAll _ _, rfl⟩

lemma linkLine (hf : KeepsTwins f) (h : Twin l l') (id table : Nat) (line : Line) :
    Twin (linkLine f id table l line).1 (linkLine f id table l' line).1 ∧
      (Linker.linkLine f id table l' line).2 = (Linker.linkLine f id table l line).2 := by
  have haddress : l'.address = l.address := by rw [address, address, h.next_eq]
  rw [Linker.linkLine, Linker.linkLine, haddress]
  generalize line.startingAt l.address.toNat = line
  rcases h.bindLabel table line with ⟨e, heq, heq'⟩ | ⟨l₁, l₁', heq, heq', h₁⟩
  · rw [heq, heq']
    exact ⟨h, rfl⟩
  · rw [heq, heq']
    dsimp only
    rcases h₁.bindOperand id table line with ⟨e, heq, heq'⟩ | ⟨l₂, l₂', heq, heq', h₂⟩
    · rw [heq, heq']
      exact ⟨h₁, rfl⟩
    · rw [heq, heq']
      dsimp only
      cases line.statement with
      | call name args target => exact h₂.linkCall hf id line name args target
      | _ =>
        dsimp only
        rw [h₂.program.symbols_eq]
        obtain ⟨hadvance, he⟩ := h₂.advance (line.size l₂.program.symbols table).toNat
        rw [he]
        exact ⟨hadvance, rfl⟩

lemma linkLines (hf : KeepsTwins f) (h : Twin l l') (id table : Nat) (lines : List Line) :
    Twin (linkLines f id table l lines).1 (linkLines f id table l' lines).1 ∧
      (Linker.linkLines f id table l' lines).2 = (Linker.linkLines f id table l lines).2 := by
  induction lines generalizing l l' with
  | nil => exact ⟨h, rfl⟩
  | cons line rest ih =>
    obtain ⟨hline, heq⟩ := h.linkLine hf id table line
    obtain ⟨hrest, heq'⟩ := ih hline
    refine ⟨hrest, Prod.ext ?_ ?_⟩
    · exact congrArg₂ List.cons (congrArg Prod.fst heq) (congrArg Prod.fst heq')
    · exact congrArg₂ List.append (congrArg Prod.snd heq) (congrArg Prod.snd heq')

end Twin

lemma keepsTwins_linkInstance (depth : Nat) : KeepsTwins (linkInstance depth) := by
  induction depth with
  | zero => exact fun l l' id h => ⟨h, rfl⟩
  | succ depth ih =>
    intro l l' id h
    have hinst : l'.program.inst id = l.program.inst id := by
      rw [Program.inst, Program.inst, h.program.instances_eq]
    obtain ⟨hlines, heq⟩ := h.linkLines ih id (l.program.inst id).table (l.program.inst id).lines
    rw [linkInstance, linkInstance, hinst]
    generalize Linker.linkLines _ _ _ l _ = linked at hlines heq ⊢
    generalize Linker.linkLines _ _ _ l' _ = linked' at hlines heq ⊢
    obtain ⟨l₁, lines, faults⟩ := linked
    obtain ⟨l₁', lines', faults'⟩ := linked'
    cases heq
    refine ⟨⟨⟨?_, hlines.program.symbols_eq, hlines.program.kind_eq⟩, hlines.next_eq, hlines.overflowed_eq,
      hlines.imports_eq⟩, rfl⟩
    exact congrArg (·.modify id (withLines lines)) hlines.program.instances_eq

/-- Linking starts with twins if the programs are twins. -/
lemma twin_start {p q : Program} (h : Program.Twin p q) (exports : Option (List ExportedSymbol)) :
    Twin (start p exports) (start q exports) := by
  have hroot : q.rootTable = p.rootTable := by rw [Program.rootTable, Program.rootTable, Program.inst,
    Program.inst, h.instances_eq]
  unfold start
  rw [h.isSystem_eq]
  split
  · exact ⟨h, rfl, rfl, rfl⟩
  · split
    · exact ⟨h, rfl, rfl, rfl⟩
    · refine ⟨⟨h.instances_eq, ?_, h.kind_eq⟩, rfl, rfl, ?_⟩
      · change (q.symbols.push _).modify q.rootTable _ = (p.symbols.push _).modify p.rootTable _
        rw [h.symbols_eq, hroot]
      · rw [h.symbols_eq]

end Linker

namespace Program

variable {p q linked : Program} {exports : Option (List ExportedSymbol)} {options : Options}

/-- If a program is linked without a report, then so are its twins, with the same instances and the
same symbol tables in the end. -/
lemma Twin.link (h : Twin p q) (hlink : p.link exports options = (linked, [])) :
    ∃ base, q.link exports options = (linked.onto base, []) := by
  obtain ⟨hpass, hfaults⟩ := Linker.keepsTwins_linkInstance p.instances.size _ _ root
    (Linker.twin_start h exports)
  rw [Program.link] at hlink ⊢
  rw [h.instances_eq]
  generalize Linker.linkInstance p.instances.size (Linker.start p exports) root = pass at *
  generalize Linker.linkInstance p.instances.size (Linker.start q exports) root = pass' at *
  obtain ⟨l, faults⟩ := pass
  obtain ⟨l', faults'⟩ := pass'
  cases hfaults
  cases faults with
  | cons fault rest => cases congrArg Prod.snd hlink
  | nil =>
    have hsystem : (l.program.onto l'.program).isSystem = l.program.isSystem := by
      rw [← hpass.program.eq_onto, hpass.program.isSystem_eq]
    have heq : l'.program.finishLink l'.next options =
        ((l.program.finishLink l.next options).1.onto l'.program,
          (l.program.finishLink l.next options).2) := by
      rw [← finishLink_onto hsystem, ← hpass.program.eq_onto, hpass.next_eq]
    refine ⟨l'.program, ?_⟩
    dsimp only at hlink ⊢
    rw [List.isEmpty_nil, if_pos rfl] at hlink ⊢
    rw [heq]
    generalize l.program.finishLink l.next options = done at hlink ⊢
    obtain ⟨p₁, found⟩ := done
    cases found with
    | cons fault rest => cases congrArg Prod.snd hlink
    | nil =>
      cases hlink
      rfl

end Program

end Pep10
