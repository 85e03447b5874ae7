import Pep10.Proofs.Program.Linkable
import Pep10.Proofs.Symbol.Rebinding

/-!
# Linking in step

Linking a program that has been linked goes the way of the first time.  Both times lines are bound
one after the other, and the copies that are made the second time are copies of those that were made
the first time.  So the two runs are compared step by step.  `InStep` relates the states: the tables
of the instance at hand, and those of the root, differ in values to come only.

What the second run finds is what the first one has left (`Leftover`): lines that may have been
moved in between, and symbols that have values already.  What it makes of that echoes what the first
one made (`Echoes`): the same lines at the same addresses, with calls that lead to other copies.
-/

namespace Pep10

/-! ### Lines -/

/-- The call leads to an instance further on. -/
def Statement.retarget (d : Nat) : Statement → Statement
  | call name args target => call name args (target + d)
  | s => s

/-- The line has been moved, and its call leads to an instance further on. -/
structure Line.MovedBy (d : Nat) (line line' : Line) : Prop where
  shape_eq : line'.shape = line.shape
  target_eq : line'.statement.target? = line.statement.target?.map (· + d)

/-- The line stands at the same place, and its call leads to an instance further on. -/
def Line.Echoes (d : Nat) (line line' : Line) : Prop :=
  line' = { line with statement := line.statement.retarget d, emits := line'.emits }

/-- The line is the same, but its call leads to an instance further on. -/
def Line.Retargets (d : Nat) (line line' : Line) : Prop :=
  line' = { line with statement := line.statement.retarget d }

namespace Statement

variable {s : Statement} {d : Nat}

lemma retarget_of_target?_none (h : s.target? = none) (d : Nat) : s.retarget d = s := by
  cases s <;> first | rfl | cases h

@[simp] lemma target?_retarget : (s.retarget d).target? = s.target?.map (· + d) := by cases s <;> rfl

@[simp] lemma shape_retarget : (s.retarget d).shape = s.shape := by cases s <;> rfl

@[simp] lemma extent_retarget : (s.retarget d).extent = s.extent := by cases s <;> rfl

end Statement

namespace Line

variable {line line' : Line} {d : Nat} {a : Int}

/-- Lines of the same shape differ in their places and in their calls. -/
lemma eq_of_shape (h : line'.shape = line.shape) :
    line' = { line with statement := line'.statement, address := line'.address, emits := line'.emits } := by
  obtain ⟨s, number, label, comment, address, emits, trace⟩ := line
  obtain ⟨s', number', label', comment', address', emits', trace'⟩ := line'
  simp only [shape, Line.mk.injEq] at h
  obtain ⟨-, rfl, rfl, rfl, -, -, rfl⟩ := h
  rfl

/-- A line that is no call stands where another line of the same shape would. -/
lemma echoes_startingAt (h : line'.shape = line.shape) (hr : line.statement.Regular)
    (htarget : line.statement.target? = none) : Echoes d (line.startingAt a) (line'.startingAt a) := by
  have heq : ({ line' with emits := line.emits } : Line).startingAt a = line.startingAt a :=
    startingAt_congr h hr htarget rfl
  rw [Echoes, Statement.retarget_of_target?_none (by rwa [statement_startingAt, Statement.target?_startingAt]),
    ← heq]
  rfl

/-- A call that is bound to another instance stands where another call of the same shape would. -/
lemma echoes_call {name : String} {args : List String} (h : line'.shape = line.shape) (target : Nat) :
    Echoes d { line.startingAt a with statement := .call name args target }
      { line'.startingAt a with statement := .call name args (target + d) } := by
  have heq := eq_of_shape h
  have haddress := address_startingAt_congr (a := a) h
  rw [Echoes, Line.mk.injEq]
  refine ⟨rfl, ?_, ?_, ?_, haddress, rfl, ?_⟩ <;> rw [heq] <;> rfl

/-- A call that has been moved calls the same macro. -/
lemma MovedBy.statement_eq {name : String} {args : List String} {target : Nat} (h : MovedBy d line line')
    (hline : line.statement = .call name args target) : line'.statement = .call name args (target + d) := by
  obtain ⟨name', args', hline'⟩ : ∃ name' args', line'.statement = .call name' args' (target + d) :=
    Statement.eq_call_of_target? (by rw [h.target_eq, hline]; rfl)
  have hshape : line'.statement.shape = line.statement.shape := congrArg Line.statement h.shape_eq
  rw [hline, hline'] at hshape
  rw [hline']
  cases hshape
  rfl

lemma MovedBy.isBurn_eq (h : MovedBy d line line') : line'.statement.isBurn = line.statement.isBurn := by
  have hst : line'.statement.shape = line.statement.shape := congrArg Line.statement h.shape_eq
  rw [← Statement.isBurn_shape, hst, Statement.isBurn_shape]

/-- A line that has been moved stands where the line itself would. -/
lemma MovedBy.echoes_startingAt (h : MovedBy d line line') (hr : line.statement.Regular) :
    Echoes d (line.startingAt a) (line'.startingAt a) := by
  cases htarget : line.statement.target? with
  | none => exact Line.echoes_startingAt h.shape_eq hr htarget
  | some target =>
    obtain ⟨name, args, hline⟩ := Statement.eq_call_of_target? htarget
    have hbound : ∀ {line : Line} {target : Nat}, line.statement = .call name args target →
        line.startingAt a = { line.startingAt a with statement := .call name args target } := by
      intro line target hline
      rw [Line.mk.injEq]
      exact ⟨by rw [statement_startingAt, hline]; rfl, rfl, rfl, rfl, rfl, rfl, rfl⟩
    rw [hbound hline, hbound (h.statement_eq hline)]
    exact echoes_call h.shape_eq target

/-- Lines that stand at the same place are echoes of each other whether they emit code or not. -/
lemma Echoes.retargets (h : Echoes d line line') (emits : Bool) :
    Retargets d { line with emits } { line' with emits } := by
  rw [h]
  rfl

lemma Echoes.movedBy (h : Echoes d line line') : MovedBy d line line' := by
  rw [h]
  exact ⟨by simp [shape], Statement.target?_retarget⟩

lemma Retargets.echoes (h : Retargets d line line') : Echoes d line line' := by
  rw [h]
  rfl

end Line

namespace Linker

open SymbolStore (Later)

variable {p q : Program} {id id' table table' d : Nat} {l l' l₁ m m₁ : Linker} {line line' : Line}
  {lines lines' rest : List Line} {name : String} {x : Symbol}

/-! ### What linking does to the symbols -/

/-! The steps of binding a line change nothing but the values of symbols that are stale in the table
at hand. -/

namespace Holds

variable {stale : String → Bool → Prop} {other : String} {t : Nat}

lemma alikeAt_assign (hl : Holds p id table l) (t : Nat) (name : String) {v : SymbolValue}
    (hstale : ∀ x, (l.program.symbols.table table).find? other = some x → stale other x.defined) :
    (l.program.symbols.table t).AlikeAt (fun n defined => t = table ∧ stale n defined) name
      ((l.modifyTable table fun t => t.assign other v).program.symbols.table t) := by
  rw [symbols_modifyTable]
  by_cases ht : t = table
  · subst ht
    rw [SymbolStore.table_modify_self hl.table_lt]
    exact .assign_right v fun x hx => ⟨rfl, hstale x hx⟩
  · rw [SymbolStore.table_modify_ne ht]
    exact .refl _ _ _

lemma alikeAt_bindLabel (hl : Holds p id table l) (t : Nat) (name : String)
    (hbind : l.bindLabel table line = .ok l₁)
    (hstale : ∀ other defined, line.addressLabel? = some other → stale other defined) :
    (l.program.symbols.table t).AlikeAt (fun n defined => t = table ∧ stale n defined) name
      (l₁.program.symbols.table t) := by
  rcases bindLabel_eq_ok hbind with ⟨-, rfl⟩ | ⟨other, hother, ⟨-, rfl⟩ | ⟨x, -, -, rfl⟩⟩
  · exact .refl _ _ _
  · exact .refl _ _ _
  · split
    · exact .refl _ _ _
    next hequate =>
      refine hl.alikeAt_assign t name fun x _ => hstale other _ ?_
      rw [Line.addressLabel?, if_neg hequate, hother]

lemma alikeAt_referToRoot (hl : Holds p id table l) (t : Nat) (name : String)
    (hown : l.declares table other = false) (hstale : stale other false) :
    (l.program.symbols.table t).AlikeAt (fun n defined => t = table ∧ stale n defined) name
      ((l.referToRoot table other).program.symbols.table t) := by
  unfold referToRoot
  split
  · exact .refl _ _ _
  · refine hl.alikeAt_assign t name fun x hx => ?_
    rwa [defined_eq_false hown hx]

/-- To import a name changes no other name of the root. -/
lemma alikeAt_importToRoot (hl : Holds p id table l) (hfrom : ImportsFrom p l.imports)
    (himport : l.importToRoot other = some l₁)
    (hname : t = p.rootTable → importedFrom p l.imports name = none) :
    (l.program.symbols.table t).AlikeAt stale name (l₁.program.symbols.table t) := by
  obtain ⟨ref, href, rfl⟩ := importToRoot_eq_some himport
  rw [symbols_modifyTable, hl.rootTable_eq]
  by_cases ht : t = p.rootTable
  · subst ht
    refine .of_find?_eq ?_
    rw [SymbolStore.table_modify_self (Nat.lt_of_lt_of_le hl.rootTable_lt hl.size_symbols_le),
      SymbolTable.find?_mention_update, if_neg]
    rintro rfl
    rw [hl.import?_eq hfrom, hname rfl] at href
    cases href
  · rw [SymbolStore.table_modify_ne ht]
    exact .refl _ _ _

lemma alikeAt_bindOperand (hl : Holds p id table l) (hfrom : ImportsFrom p l.imports)
    (hname : t = p.rootTable → importedFrom p l.imports name = none)
    (hbind : l.bindOperand id table line = .ok l₁)
    (hstale : ∀ other, line.statement.symbol? = some other → stale other false) :
    (l.program.symbols.table t).AlikeAt (fun n defined => t = table ∧ stale n defined) name
      (l₁.program.symbols.table t) := by
  rcases bindOperand_eq_ok hbind with ⟨-, rfl⟩ | ⟨other, hother, hres⟩
  · exact .refl _ _ _
  · rcases resolve_eq_some hres with ⟨-, rfl⟩ | ⟨hown, hid, l₂, rfl, ⟨-, rfl⟩ | ⟨hroot, himport⟩⟩
    · exact .refl _ _ _
    · exact hl.alikeAt_referToRoot t name hown (hstale other hother)
    · rw [hl.rootTable_eq] at hroot
      obtain ⟨-, hl₂, -, htable⟩ := later_importToRoot hl hid hroot himport
      exact (hl.alikeAt_importToRoot hfrom himport hname).trans
        (hl₂.alikeAt_referToRoot t name (by rwa [declares, htable]) (hstale other hother))

end Holds

/-- Binding a line changes values that the line is to assign, and imports. -/
lemma Binds.alikeAt (h : Binds id table l (l.here line) l') (hl : Holds p id table l)
    (hfrom : ImportsFrom p l.imports) {t : Nat} (hname : t = p.rootTable → importedFrom p l.imports name = none)
    (rest : List Line) :
    (l.program.symbols.table t).AlikeAt (fun n defined => t = table ∧ Unbound (line :: rest) n defined) name
      (l'.program.symbols.table t) := by
  obtain ⟨l₁, hlabel, hoperand⟩ := h
  have hsame := symbolsOnly_bindLabel hlabel
  have hl₁ := hl.later hsame (later_bindLabel hl hlabel)
  rw [← hsame.imports_eq] at hfrom hname
  refine (hl.alikeAt_bindLabel t name hlabel fun other _ hother => unbound_cons.2 (.inl ?_)).trans
    (hl₁.alikeAt_bindOperand hfrom hname hoperand fun other hother => unbound_cons.2 (.inr (.inl ⟨rfl, ?_⟩)))
  · rwa [here, Line.addressLabel?_startingAt] at hother
  · rwa [here, Line.statement_startingAt, Statement.symbol?_startingAt] at hother

/-- Linking lines changes values that the lines are to assign, and imports. -/
lemma Links.alikeAt (h : Links p id table l lines l' lines') (hfrom : ImportsFrom p l.imports) (name : String)
    {t : Nat} (ht : t < l.program.symbols.size) (hname : t = p.rootTable → importedFrom p l.imports name = none) :
    (l.program.symbols.table t).AlikeAt (fun n defined => t = table ∧ Unbound lines n defined) name
      (l'.program.symbols.table t) := by
  induction h with
  | nil => exact .refl _ _ _
  | @plain id table l l₁ l' line rest rest' hholds _ hbind _ _ ih =>
    have himports : l₁.imports = l.imports := hbind.symbolsOnly.imports_eq
    obtain ⟨s, hsize, hl₁⟩ := hbind.symbolsOnly
    have hlt : t < l₁.program.symbols.size := by
      rw [hl₁]
      change t < s.size
      rwa [hsize]
    refine (hbind.alikeAt hholds hfrom hname rest).trans ((ih ?_ ?_ ?_).mono fun _ _ hstale =>
      ⟨hstale.1, unbound_cons.2 (.inr (.inr hstale.2))⟩)
    · rwa [skip, himports]
    · exact hlt
    · rwa [skip, himports]
  | @call id table target l l₁ l₂ l' line _ _ rest rest' body hholds _ _ _ hbind hbody hrest ihbody ihrest =>
    have himports : l₁.imports = l.imports := hbind.symbolsOnly.imports_eq
    have himports₂ : l₂.imports = l.imports := hbody.imports_eq.trans himports
    obtain ⟨s, hsize, hl₁⟩ := hbind.symbolsOnly
    have hlt : t < l₁.program.symbols.size := by
      rw [hl₁]
      change t < s.size
      rwa [hsize]
    -- The copy has a table of its own, so that of the table at hand nothing changes but imports.
    have hcopy : (l₁.program.symbols.table t).AlikeAt
        (fun n defined => t = table ∧ Unbound (line :: rest) n defined) name
        (l₂.program.symbols.table t) := by
      have hin := ihbody (by rwa [copyFor, himports])
        (by rw [symbols_copyFor, SymbolStore.size_push]; omega) (by rwa [copyFor, himports])
      rw [symbols_copyFor, SymbolStore.table_push_of_lt _ hlt] at hin
      exact hin.mono fun _ _ hstale => absurd hstale.1 (Nat.ne_of_lt hlt)
    have hsize₂ := hbody.later.size_le
    rw [symbols_copyFor, SymbolStore.size_push] at hsize₂
    refine ((hbind.alikeAt hholds hfrom hname rest).trans hcopy).trans ((ihrest ?_ ?_ ?_).mono fun _ _ hstale =>
      ⟨hstale.1, unbound_cons.2 (.inr (.inr hstale.2))⟩)
    · rwa [store, himports₂]
    · rw [symbols_store]
      omega
    · rwa [store, himports₂]

/-! ### Two runs -/

/-- What a table declares has a number there. -/
lemma exists_indexOf?_of_declares (h : l.declares table name = true) :
    ∃ k, (l.program.symbols.table table).indexOf? name = some k := by
  obtain ⟨x, hx, -⟩ := declares_eq_true.1 h
  exact SymbolTable.exists_indexOf? hx

lemma bindLabel_of_label_none (h : line.label = none) : l.bindLabel table line = .ok l := by
  rw [bindLabel, h]

lemma bindLabel_of_find?_none (h : line.label = some name)
    (hx : (l.program.symbols.table table).find? name = none) : l.bindLabel table line = .ok l := by
  rw [bindLabel, h]
  dsimp only
  rw [hx]

lemma bindLabel_of_find?_some (h : line.label = some name)
    (hx : (l.program.symbols.table table).find? name = some x) (hsingle : x.multiplyDefined = false) :
    l.bindLabel table line = .ok (if line.statement.isEquate then l
      else l.modifyTable table fun t => t.assign name (.location l.address 0)) := by
  rw [bindLabel, h]
  dsimp only
  rw [hx]
  simp only [hsingle, Bool.false_eq_true, if_false]
  split <;> rfl

lemma bindOperand_of_symbol?_none (h : line.statement.symbol? = none) : l.bindOperand id table line = .ok l := by
  have hnone : line.statement.operand?.bind Operand.symbol? = none := h
  rw [bindOperand, hnone]

lemma bindOperand_of_resolve (h : line.statement.symbol? = some name)
    (hres : l.resolve id table name = some l₁) : l.bindOperand id table line = .ok l₁ := by
  have hname : line.statement.operand?.bind Operand.symbol? = some name := h
  rw [bindOperand, hname]
  dsimp only
  rw [hres]

lemma referToRoot_of_indexOf? {k : Nat}
    (h : (l.program.symbols.table l.program.rootTable).indexOf? name = some k) :
    l.referToRoot table name =
      l.modifyTable table fun t => t.assign name (.external ⟨l.program.rootTable, k⟩) := by
  rw [referToRoot, h]

lemma resolve_of_declares (h : l.declares table name = true) : l.resolve id table name = some l := by
  rw [resolve, if_pos h]

lemma resolve_of_root (hown : l.declares table name = false) (hid : id ≠ Program.root)
    (hroot : l.declares l.program.rootTable name = true) :
    l.resolve id table name = some (l.referToRoot table name) := by
  rw [resolve, if_neg (by rw [hown]; exact Bool.false_ne_true), if_neg (by simpa using hid), if_pos hroot]

/-- The instance at hand has the table of the root exactly if it is the root. -/
lemma Holds.table_eq_iff (h : Holds p id table l) : table = p.rootTable ↔ id = Program.root := by
  refine ⟨fun htable => ?_, fun hid => ?_⟩
  · by_contra hid
    exact h.table_ne hid htable
  · rcases h.own with hroot | hcopy
    · exact hroot.2
    · have := h.root_lt
      omega

/-- The states of two runs that have come to lines with values to come.  The first run has started
with the program `p`, the second one with the program `q`, and they are at instances with the given
tables.  Values of the root that are still to come behind the instance at hand are in `outer`. -/
structure InStep (p q : Program) (imported imported' : String → Option SymbolRef) (table table' : Nat)
    (stale outer : String → Bool → Prop) (l m : Linker) : Prop where
  next_eq : m.next = l.next
  size_eq : m.program.instances.size + p.instances.size = l.program.instances.size + q.instances.size
  own : ∀ name, (table = p.rootTable → imported name = none) →
    (l.program.symbols.table table).AlikeAt stale name (m.program.symbols.table table')
  root : table ≠ p.rootTable → ∀ name, imported name = none →
    (l.program.symbols.table p.rootTable).AlikeAt outer name (m.program.symbols.table q.rootTable)
  /-- In the second run nothing has to be imported any more. -/
  imports : ∀ name ref x, imported' name = some ref →
    (m.program.symbols.table q.rootTable).find? name = some x → x.defined = true ∧ x.value = .external ref
  names_eq : (m.program.symbols.table q.rootTable).names = (q.symbols.table q.rootTable).names

namespace InStep

variable {imported imported' : String → Option SymbolRef} {stale stale' outer : String → Bool → Prop}

/-- Fewer values are to come. -/
lemma mono (h : InStep p q imported imported' table table' stale outer l m)
    (hstale : ∀ n x, (l.program.symbols.table table).find? n = some x → stale n x.defined →
      stale' n x.defined) :
    InStep p q imported imported' table table' stale' outer l m :=
  { h with own := fun name hname => (h.own name hname).mono (hstale name) }

/-- Both runs assign a value to the same symbol. -/
lemma assign (h : InStep p q imported imported' table table' stale outer l m) (hl : Holds p id table l)
    (hm : Holds q id' table' m) (hid : id' = Program.root ↔ id = Program.root)
    (himported : ∀ name, imported name = none → imported' name = none) (v : SymbolValue)
    (hname : table = p.rootTable → imported name = none)
    (hstale : ∀ n defined, stale n defined → n = name ∨ stale' n defined) :
    InStep p q imported imported' table table' stale' outer (l.modifyTable table fun t => t.assign name v)
      (m.modifyTable table' fun t => t.assign name v) := by
  have htable : q.rootTable = table' → table = p.rootTable := fun heq =>
    hl.table_eq_iff.2 (hid.1 (hm.table_eq_iff.1 heq.symm))
  refine ⟨h.next_eq, h.size_eq, fun other hother => ?_, fun hne other hother => ?_, fun other ref x href hx => ?_,
    ?_⟩
  · rw [symbols_modifyTable, symbols_modifyTable, SymbolStore.table_modify_self hl.table_lt,
      SymbolStore.table_modify_self hm.table_lt]
    exact (h.own other hother).assign v (hstale other)
  · rw [symbols_modifyTable, symbols_modifyTable, SymbolStore.table_modify_ne hne.symm,
      SymbolStore.table_modify_ne fun heq => hne (htable heq)]
    exact h.root hne other hother
  · rw [symbols_modifyTable] at hx
    by_cases ht : q.rootTable = table'
    · have hne : other ≠ name := by
        rintro rfl
        rw [himported other (hname (htable ht))] at href
        cases href
      rw [ht, SymbolStore.table_modify_self hm.table_lt, SymbolTable.find?_assign_ne v hne, ← ht] at hx
      exact h.imports other ref x href hx
    · rw [SymbolStore.table_modify_ne ht] at hx
      exact h.imports other ref x href hx
  · rw [symbols_modifyTable]
    by_cases ht : q.rootTable = table'
    · rw [ht, SymbolStore.table_modify_self hm.table_lt, SymbolTable.names_assign, ← ht]
      exact h.names_eq
    · rw [SymbolStore.table_modify_ne ht]
      exact h.names_eq

/-- An instance other than the root that declares no symbol of a name does not declare it in the
second run. -/
lemma declares_eq_false (h : InStep p q imported imported' table table' stale outer l m)
    (hne : table ≠ p.rootTable) (hown : l.declares table name = false) : m.declares table' name = false := by
  have halike := h.own name fun ht => absurd ht hne
  cases hx : (l.program.symbols.table table).find? name with
  | none => rw [declares, halike.none_right hx, Option.any_none]
  | some x =>
    obtain ⟨y, hy, hxy⟩ := halike.exists_right hx
    rw [declares, hy, Option.any_some, hxy.defined_eq, defined_eq_false hown hx]

/-- An import that the first run makes is there in the second run. -/
lemma importToRoot (h : InStep p q imported imported' table table' stale outer l m)
    (hl : Holds p id table l) (hne : table ≠ p.rootTable) (hfrom : ImportsFrom p l.imports)
    (hfirst : imported = importedFrom p l.imports) (himport : l.importToRoot name = some l₁) :
    imported name ≠ none ∧ InStep p q imported imported' table table' stale outer l₁ m := by
  obtain ⟨ref, href, rfl⟩ := importToRoot_eq_some himport
  have hname : imported name ≠ none := by
    rw [hfirst, ← hl.import?_eq hfrom, href]
    exact Option.some_ne_none ref
  refine ⟨hname, h.next_eq, h.size_eq, fun other hother => ?_, fun _ other hother => ?_, h.imports, h.names_eq⟩
  · rw [symbols_modifyTable, hl.rootTable_eq, SymbolStore.table_modify_ne hne]
    exact h.own other hother
  · have hlt := Nat.lt_of_lt_of_le hl.rootTable_lt hl.size_symbols_le
    have hother' : other ≠ name := by
      rintro rfl
      exact hname hother
    rw [symbols_modifyTable, hl.rootTable_eq, SymbolStore.table_modify_self hlt, SymbolTable.AlikeAt,
      SymbolTable.find?_mention_update, if_neg hother']
    exact h.root hne other hother

/-- Whether the first run has to import a name to the root or not, it stays in step, and the root
declares it. -/
lemma declared_root {l₂ : Linker} (h : InStep p q imported imported' table table' stale outer l m)
    (hl : Holds p id table l) (hid : id ≠ Program.root) (hfrom : ImportsFrom p l.imports)
    (hfirst : imported = importedFrom p l.imports)
    (hdeclared : (l.declares p.rootTable name = true ∧ l₂ = l) ∨
      (l.declares p.rootTable name = false ∧ l.importToRoot name = some l₂)) :
    (l.declares p.rootTable name = true ∨ imported name ≠ none) ∧ Holds p id table l₂ ∧
      l₂.declares p.rootTable name = true ∧ InStep p q imported imported' table table' stale outer l₂ m := by
  rcases hdeclared with ⟨hdec, rfl⟩ | ⟨hdec, himport⟩
  · exact ⟨.inl hdec, hl, hdec, h⟩
  · obtain ⟨-, hl₂, hdec₂, -⟩ := later_importToRoot hl hid hdec himport
    obtain ⟨hname, h₂⟩ := h.importToRoot hl (hl.table_ne hid) hfrom hfirst himport
    exact ⟨.inr hname, hl₂, hdec₂, h₂⟩

section Step

variable (h : InStep p q imported imported' table table' stale outer l m) (hl : Holds p id table l)
  (hm : Holds q id' table' m) (hid : id' = Program.root ↔ id = Program.root)
  (himported : ∀ name, imported' name = none ↔ imported name = none)

include h hl hm hid himported

/-- If the first run binds a label, so does the second one. -/
lemma bindLabel (hbind : l.bindLabel table line = .ok l₁) (hlabel : line'.label = line.label)
    (hequate : line'.statement.isEquate = line.statement.isEquate)
    (hunimported : table = p.rootTable → ∀ name, line.label = some name → imported name = none)
    (hstale : ∀ n defined, stale n defined → line.addressLabel? = some n ∨ stale' n defined) :
    ∃ m₁, m.bindLabel table' line' = .ok m₁ ∧
      InStep p q imported imported' table table' stale' outer l₁ m₁ := by
  rcases bindLabel_eq_ok hbind with ⟨hnone, rfl⟩ | ⟨name, hname, ⟨hx, rfl⟩ | ⟨x, hx, hsingle, rfl⟩⟩
  · refine ⟨m, bindLabel_of_label_none (hlabel.trans hnone), h.mono fun n _ _ hs => ?_⟩
    refine (hstale n _ hs).resolve_left fun hn => ?_
    rw [Line.label_of_addressLabel? hn] at hnone
    cases hnone
  · have hown := h.own name fun ht => hunimported ht name hname
    refine ⟨m, bindLabel_of_find?_none (hlabel.trans hname) (hown.none_right hx), h.mono fun n y hy hs => ?_⟩
    refine (hstale n _ hs).resolve_left fun hn => ?_
    rw [Line.label_of_addressLabel? hn] at hname
    cases hname
    rw [hx] at hy
    cases hy
  · obtain ⟨y, hy, hxy⟩ := (h.own name fun ht => hunimported ht name hname).exists_right hx
    refine ⟨_, bindLabel_of_find?_some (hlabel.trans hname) hy (hxy.multiplyDefined_eq.trans hsingle), ?_⟩
    rw [hequate]
    by_cases heq : line.statement.isEquate = true
    · rw [if_pos heq, if_pos heq]
      refine h.mono fun n _ _ hs => (hstale n _ hs).resolve_left fun hn => ?_
      rw [Line.addressLabel?, if_pos heq] at hn
      cases hn
    · rw [if_neg heq, if_neg heq, show m.address = l.address from congrArg UInt16.ofNat h.next_eq]
      refine h.assign hl hm hid (fun n => (himported n).2) _ (fun ht => hunimported ht name hname)
        fun n _ hs => (hstale n _ hs).imp_left fun hn => ?_
      rw [Line.label_of_addressLabel? hn] at hname
      exact Option.some.inj hname

/-- What the root declares in the first run, possibly by an import, it declares in the second
one. -/
lemma declares_root (hroot : l.declares p.rootTable name = true ∨ imported name ≠ none)
    (hindex : ∃ k, (q.symbols.table q.rootTable).indexOf? name = some k) :
    m.declares m.program.rootTable name = true := by
  rw [hm.rootTable_eq, declares_eq_true]
  by_cases hnone : imported name = none
  · obtain ⟨x, hx, hdef⟩ := declares_eq_true.1 (hroot.resolve_right fun hne => hne hnone)
    by_cases ht : table = p.rootTable
    · have htable' : table' = q.rootTable := hm.table_eq_iff.2 (hid.2 (hl.table_eq_iff.1 ht))
      have hown := h.own name fun _ => hnone
      rw [ht, htable'] at hown
      obtain ⟨y, hy, hxy⟩ := hown.exists_right hx
      exact ⟨y, hy, hxy.defined_eq.trans hdef⟩
    · obtain ⟨y, hy, hxy⟩ := (h.root ht name hnone).exists_right hx
      exact ⟨y, hy, hxy.defined_eq.trans hdef⟩
  · obtain ⟨ref, href⟩ := Option.ne_none_iff_exists'.1 fun hnone' => hnone ((himported name).1 hnone')
    obtain ⟨k, hk⟩ := hindex
    rw [← SymbolTable.indexOf?_of_names h.names_eq] at hk
    obtain ⟨y, hy⟩ := SymbolTable.exists_find? hk
    exact ⟨y, hy, (h.imports name ref y href hy).1⟩

/-- What the instance at hand declares in the first run, it declares in the second one. -/
lemma declares_own (hown : l.declares table name = true)
    (hindex : ∀ k, (l.program.symbols.table p.rootTable).indexOf? name = some k →
      (q.symbols.table q.rootTable).indexOf? name = some k) : m.declares table' name = true := by
  by_cases ht : table = p.rootTable
  · have htable' : table' = q.rootTable := hm.table_eq_iff.2 (hid.2 (hl.table_eq_iff.1 ht))
    rw [ht] at hown
    rw [htable', ← hm.rootTable_eq]
    exact h.declares_root hl hm hid himported (.inl hown) ((exists_indexOf?_of_declares hown).imp hindex)
  · obtain ⟨x, hx, hdef⟩ := declares_eq_true.1 hown
    obtain ⟨y, hy, hxy⟩ := (h.own name fun ht' => absurd ht' ht).exists_right hx
    exact declares_eq_true.2 ⟨y, hy, hxy.defined_eq.trans hdef⟩

/-- Both runs let an operand stand for the symbol of the root. -/
lemma referToRoot (hne : table ≠ p.rootTable) (hroot : q.rootTable = p.rootTable)
    (hdeclares : l.declares p.rootTable name = true)
    (hindex : ∀ k, ((l.referToRoot table name).program.symbols.table p.rootTable).indexOf? name = some k →
      (q.symbols.table q.rootTable).indexOf? name = some k)
    (hstale : ∀ n defined, stale n defined → n = name ∨ stale' n defined) :
    InStep p q imported imported' table table' stale' outer (l.referToRoot table name)
      (m.referToRoot table' name) := by
  obtain ⟨k, hk⟩ := exists_indexOf?_of_declares hdeclares
  have hrefer : l.referToRoot table name =
      l.modifyTable table fun t => t.assign name (.external ⟨l.program.rootTable, k⟩) :=
    referToRoot_of_indexOf? (by rwa [hl.rootTable_eq])
  rw [hrefer, symbols_modifyTable, SymbolStore.table_modify_ne hne.symm] at hindex
  have hk' := hindex k hk
  rw [← SymbolTable.indexOf?_of_names h.names_eq] at hk'
  rw [hrefer, referToRoot_of_indexOf? (by rwa [hm.rootTable_eq]), hl.rootTable_eq, hm.rootTable_eq, hroot]
  exact h.assign hl hm hid (fun n => (himported n).2) _ (fun ht => absurd ht hne) hstale

/-- If the first run binds an operand, so does the second one. -/
lemma bindOperand (hbind : l.bindOperand id table line = .ok l₁) (hfrom : ImportsFrom p l.imports)
    (hfirst : imported = importedFrom p l.imports) (hroot : q.rootTable = p.rootTable)
    (hoperand : line'.statement.symbol? = line.statement.symbol?)
    (hindex : ∀ name k, (l₁.program.symbols.table p.rootTable).indexOf? name = some k →
      (q.symbols.table q.rootTable).indexOf? name = some k)
    (hstale : ∀ n defined, stale n defined →
      (defined = false ∧ line.statement.symbol? = some n) ∨ stale' n defined) :
    ∃ m₁, m.bindOperand id' table' line' = .ok m₁ ∧
      InStep p q imported imported' table table' stale' outer l₁ m₁ := by
  rcases bindOperand_eq_ok hbind with ⟨hnone, rfl⟩ | ⟨name, hname, hres⟩
  · have hsymbol : line.statement.symbol? = none := hnone
    refine ⟨m, bindOperand_of_symbol?_none (hoperand.trans hsymbol), h.mono fun n _ _ hs => ?_⟩
    refine (hstale n _ hs).resolve_left fun hn => ?_
    rw [hsymbol] at hn
    cases hn.2
  · have hsymbol : line.statement.symbol? = some name := hname
    rcases resolve_eq_some hres with ⟨hown, rfl⟩ | ⟨hown, hcopy, l₂, rfl, hdeclared⟩
    · refine ⟨m, bindOperand_of_resolve (hoperand.trans hsymbol)
        (resolve_of_declares (h.declares_own hl hm hid himported hown (hindex name))), ?_⟩
      refine h.mono fun n y hy hs => (hstale n _ hs).resolve_left fun hn => ?_
      rw [hsymbol] at hn
      obtain ⟨hundef, ⟨⟩⟩ := hn
      obtain ⟨x, hx, hdef⟩ := declares_eq_true.1 hown
      rw [hy] at hx
      cases hx
      rw [hundef] at hdef
      cases hdef
    · have hne : table ≠ p.rootTable := hl.table_ne hcopy
      rw [hl.rootTable_eq] at hdeclared
      obtain ⟨himport, hl₂, hdec₂, h₂⟩ := h.declared_root hl hcopy hfrom hfirst hdeclared
      have hindex₂ : ∀ k, (l₂.program.symbols.table p.rootTable).indexOf? name = some k →
          (q.symbols.table q.rootTable).indexOf? name = some k := by
        intro k hk
        refine hindex name k ?_
        rw [Linker.referToRoot]
        split
        · exact hk
        · rwa [symbols_modifyTable, SymbolStore.table_modify_ne hne.symm]
      refine ⟨_, bindOperand_of_resolve (hoperand.trans hsymbol) (resolve_of_root ?_ ?_ ?_),
        h₂.referToRoot hl₂ hm hid himported hne hroot hdec₂ (hindex name) fun n _ hs => ?_⟩
      · exact h.declares_eq_false hne hown
      · exact fun hroot' => hcopy (hid.1 hroot')
      · exact h.declares_root hl hm hid himported himport ((exists_indexOf?_of_declares hdec₂).imp hindex₂)
      · refine (hstale n _ hs).imp_left fun hn => ?_
        rw [hsymbol] at hn
        exact (Option.some.inj hn.2).symm

end Step

/-- If the first run binds a line, so does the second one. -/
lemma binds {rest : List Line}
    (h : InStep p q imported imported' table table' (Unbound (line :: rest)) outer l m)
    (hl : Holds p id table l) (hm : Holds q id' table' m) (hid : id' = Program.root ↔ id = Program.root)
    (himported : ∀ name, imported' name = none ↔ imported name = none)
    (hbind : Binds id table l (l.here line) l₁) (hshape : line'.shape = line.shape)
    (hfrom : ImportsFrom p l.imports) (hfirst : imported = importedFrom p l.imports)
    (hroot : q.rootTable = p.rootTable)
    (hunimported : table = p.rootTable → ∀ name, line.label = some name → imported name = none)
    (hindex : ∀ name k, (l₁.program.symbols.table p.rootTable).indexOf? name = some k →
      (q.symbols.table q.rootTable).indexOf? name = some k) :
    ∃ m₁, Binds id' table' m (m.here line') m₁ ∧
      InStep p q imported imported' table table' (Unbound rest) outer l₁ m₁ := by
  obtain ⟨l₀, hlabel, hoperand⟩ := hbind
  have hshape' : (m.here line').shape = (l.here line).shape := by
    rw [here, here, Line.shape_startingAt, Line.shape_startingAt, hshape]
  have himports : l₀.imports = l.imports := (symbolsOnly_bindLabel hlabel).imports_eq
  obtain ⟨m₀, hlabel', h₀⟩ : ∃ m₀, m.bindLabel table' (m.here line') = .ok m₀ ∧
      InStep p q imported imported' table table'
        (fun n defined => (defined = false ∧ (l.here line).statement.symbol? = some n) ∨ Unbound rest n defined)
        outer l₀ m₀ := by
    refine h.bindLabel hl hm hid himported hlabel (Line.label_of_shape hshape') (Line.isEquate_of_shape hshape')
      hunimported fun n _ hs => ?_
    rw [here, Line.addressLabel?_startingAt, Line.statement_startingAt, Statement.symbol?_startingAt]
    exact unbound_cons.1 hs
  have hl₀ := hl.later (symbolsOnly_bindLabel hlabel) (later_bindLabel hl hlabel)
  have hm₀ := hm.later (symbolsOnly_bindLabel hlabel') (later_bindLabel hm hlabel')
  obtain ⟨m₁, hoperand', h₁⟩ := h₀.bindOperand hl₀ hm₀ hid himported hoperand (by rwa [himports])
    (by rw [himports, hfirst]) hroot (Line.symbol?_of_shape hshape') hindex fun _ _ hs => hs
  exact ⟨m₁, ⟨m₀, hlabel', hoperand'⟩, h₁⟩

/-- Both runs pass over the same number of bytes. -/
lemma skip (h : InStep p q imported imported' table table' stale outer l m) (size : Nat) :
    InStep p q imported imported' table table' stale outer (l.skip size) (m.skip size) :=
  ⟨congrArg (· + size) h.next_eq, h.size_eq, h.own, h.root, h.imports, h.names_eq⟩

/-- Both runs go on with a copy.  Behind it the instance at hand has the values to come that it has
now. -/
lemma enter (h : InStep p q imported imported' table table' stale outer l m) (hl : Holds p id table l)
    (hm : Holds q id' table' m) (hid : id' = Program.root ↔ id = Program.root) {target target' : Nat}
    (number number' : Nat)
    (hcopy : ∀ name, (l.program.symbols.table (l.program.inst target).table).AlikeAt stale' name
      (m.program.symbols.table (m.program.inst target').table)) :
    InStep p q imported imported' l.program.symbols.size m.program.symbols.size stale'
      (fun n defined => (table = p.rootTable ∧ stale n defined) ∨ (table ≠ p.rootTable ∧ outer n defined))
      (l.copyFor id number target) (m.copyFor id' number' target') := by
  have hlt := Nat.lt_of_lt_of_le hl.rootTable_lt hl.size_symbols_le
  have hlt' := Nat.lt_of_lt_of_le hm.rootTable_lt hm.size_symbols_le
  have hsize := h.size_eq
  refine ⟨h.next_eq, by rw [size_copyFor, size_copyFor]; omega, fun name _ => ?_, fun _ name hname => ?_, ?_, ?_⟩
  · rw [symbols_copyFor, symbols_copyFor, SymbolStore.table_push_size, SymbolStore.table_push_size]
    exact hcopy name
  · rw [symbols_copyFor, symbols_copyFor, SymbolStore.table_push_of_lt _ hlt,
      SymbolStore.table_push_of_lt _ hlt']
    by_cases ht : table = p.rootTable
    · have hown := h.own name fun _ => hname
      rw [ht, hm.table_eq_iff.2 (hid.2 (hl.table_eq_iff.1 ht))] at hown
      exact hown.mono fun _ _ hs => .inl ⟨ht, hs⟩
    · exact (h.root ht name hname).mono fun _ _ hs => .inr ⟨ht, hs⟩
  · rw [symbols_copyFor, SymbolStore.table_push_of_lt _ hlt']
    exact h.imports
  · rw [symbols_copyFor, SymbolStore.table_push_of_lt _ hlt']
    exact h.names_eq

/-- Both runs go on behind a copy. -/
lemma leave {l₂ m₂ : Linker} {copy copy' : Nat} {stale₂ : String → Bool → Prop}
    (h : InStep p q imported imported' table table' stale outer l m) (hl : Holds p id table l)
    (hm : Holds q id' table' m) (hid : id' = Program.root ↔ id = Program.root)
    (h₂ : InStep p q imported imported' l.program.symbols.size m.program.symbols.size stale₂
      (fun n defined => (table = p.rootTable ∧ stale n defined) ∨ (table ≠ p.rootTable ∧ outer n defined))
      l₂ m₂)
    (htable : table ≠ p.rootTable → l₂.program.symbols.table table = l.program.symbols.table table)
    (htable' : table' ≠ q.rootTable → m₂.program.symbols.table table' = m.program.symbols.table table') :
    InStep p q imported imported' table table' stale outer (l₂.store copy lines) (m₂.store copy' lines') := by
  have hne : l.program.symbols.size ≠ p.rootTable :=
    Nat.ne_of_gt (Nat.lt_of_lt_of_le hl.rootTable_lt hl.size_symbols_le)
  refine ⟨h₂.next_eq, by rw [size_store, size_store]; exact h₂.size_eq, fun name hname => ?_,
    fun ht name hname => ?_, h₂.imports, h₂.names_eq⟩
  · rw [symbols_store, symbols_store]
    by_cases ht : table = p.rootTable
    · rw [ht, hm.table_eq_iff.2 (hid.2 (hl.table_eq_iff.1 ht))]
      exact (h₂.root hne name (hname ht)).mono fun _ _ hs =>
        hs.elim And.right fun hs => absurd ht hs.1
    · rw [htable ht, htable' fun ht' => ht (hl.table_eq_iff.2 (hid.1 (hm.table_eq_iff.1 ht')))]
      exact h.own name hname
  · exact (h₂.root hne name hname).mono fun _ _ hs => hs.elim (fun hs => absurd hs.1 ht) And.right

end InStep

/-! ### What the runs leave and make -/

/-- What an earlier run has left of an instance in the program `q`: its lines, which may have been
moved, with calls that lead to instances further on, and its symbols, up to the values that the
lines assign. -/
structure Leftover (c : Nat) (q : Program) (s : SymbolStore) (i : Instance) (j : Nat) : Prop where
  lt_size : j < q.instances.size
  table_lt : (q.inst j).table < q.symbols.size
  table_ne : (q.inst j).table ≠ q.rootTable
  lines : List.Forall₂ (Line.MovedBy c) i.lines (q.inst j).lines
  symbols : ∀ name, (s.table i.table).AlikeAt (Unbound i.lines) name (q.symbols.table (q.inst j).table)

/-- What has been left of an instance depends on its lines and its symbols. -/
lemma Leftover.congr {c j : Nat} {s s' : SymbolStore} {i i' : Instance} (h : Leftover c q s i j)
    (hi : i = i') (hs : s.table i'.table = s'.table i'.table) : Leftover c q s' i' j := by
  subst hi
  exact ⟨h.lt_size, h.table_lt, h.table_ne, h.lines, hs ▸ h.symbols⟩

/-- An instance with the same lines at the same places and with the same symbols. -/
structure Echoes (d : Nat) (s s' : SymbolStore) (i i' : Instance) : Prop where
  lines : List.Forall₂ (Line.Echoes d) i.lines i'.lines
  symbols : ∀ name, (s'.table i'.table).find? name = (s.table i.table).find? name

namespace Links

/-- Linking lines of an instance leaves all copies alone that exist already, and their symbols. -/
lemma copy_eq (h : Links p id table l lines l' lines') {j : Nat} (hlo : p.instances.size ≤ j)
    (hhi : j < l.program.instances.size) (hne : j ≠ id) :
    l'.program.inst j = l.program.inst j ∧
      l'.program.symbols.table (l.program.inst j).table = l.program.symbols.table (l.program.inst j).table := by
  have hholds := h.holds
  have hnum := hholds.numbered j hlo hhi
  have hsizes := hholds.sizes
  have hroot := hholds.rootTable_lt
  refine ⟨h.inst_eq hhi, h.later.other _ (by omega) ?_ (by omega)⟩
  rcases hholds.own with ⟨-, rfl⟩ | ⟨-, -, hown⟩ <;> omega

/-- Behind a call, the copy that was made for it and those that the copy calls stay as they are. -/
lemma copy_eq_of_call {target number j : Nat} {l₁ l₂ : Linker} {body : List Line} (hholds : Holds p id table l₁)
    (hbody : Links p l₁.program.instances.size l₁.program.symbols.size (l₁.copyFor id number target)
      (p.inst target).lines l₂ body)
    (hrest : Links p id table (l₂.store l₁.program.instances.size body) lines l' lines')
    (hlo : l₁.program.instances.size ≤ j) (hhi : j < l₂.program.instances.size) :
    l'.program.inst j = (l₂.store l₁.program.instances.size body).program.inst j ∧
      l'.program.symbols.table (l'.program.inst j).table =
        l₂.program.symbols.table (l'.program.inst j).table := by
  have hsize := hholds.size_le
  have hroot := hholds.root_lt
  have hne : j ≠ id := by
    rcases hholds.own with ⟨rfl, -⟩ | ⟨-, hown, -⟩ <;> omega
  obtain ⟨hinst, htable⟩ := hrest.copy_eq (by omega) (by rwa [size_store]) hne
  rw [symbols_store] at htable
  rw [hinst]
  exact ⟨rfl, htable⟩

/-- The instance at hand keeps its table while a copy is linked, unless it is the root. -/
lemma table_of_call {target number : Nat} {l₁ l₂ : Linker} {body : List Line} (hholds : Holds p id table l₁)
    (hbody : Links p l₁.program.instances.size l₁.program.symbols.size (l₁.copyFor id number target)
      (p.inst target).lines l₂ body) (hne : table ≠ p.rootTable) :
    l₂.program.symbols.table table = l₁.program.symbols.table table := by
  have hlt := hholds.table_lt
  rw [hbody.later.other table (by rw [symbols_copyFor, SymbolStore.size_push]; omega) (by omega) hne,
    symbols_copyFor, SymbolStore.table_push_of_lt _ hlt]

/-- The second run copies what the first one has left of its copy.  That is like what the first run
copied, up to the values that the lines of the copy assign. -/
lemma alikeAt_copy {c target number j : Nat} {l₁ l₂ : Linker} {body : List Line} (hholds : Holds p id table l₁)
    (hfrom : ImportsFrom p l₁.imports)
    (hbody : Links p l₁.program.instances.size l₁.program.symbols.size (l₁.copyFor id number target)
      (p.inst target).lines l₂ body)
    (hrest : Links p id table (l₂.store l₁.program.instances.size body) lines l' lines')
    (hcopy : Leftover c q l'.program.symbols (l'.program.inst l₁.program.instances.size) j)
    (hm : Holds q id' table' m) (name : String) :
    (l₁.program.symbols.table (l₁.program.inst target).table).AlikeAt (Unbound (p.inst target).lines) name
      (m.program.symbols.table (m.program.inst j).table) := by
  have hsize := hbody.size_le
  rw [size_copyFor] at hsize
  have hne : l₁.program.symbols.size ≠ p.rootTable :=
    Nat.ne_of_gt (Nat.lt_of_lt_of_le hholds.rootTable_lt hholds.size_symbols_le)
  obtain ⟨-, htable⟩ := copy_eq_of_call hholds hbody hrest (Nat.le_refl _) (by omega)
  have halike := hcopy.symbols name
  rw [htable, inst_copy rfl hbody hrest] at halike
  rw [hm.inst_eq j hcopy.lt_size, hm.table_eq _ hcopy.table_lt hcopy.table_ne]
  have hin := hbody.alikeAt hfrom name
    (by rw [symbols_copyFor, SymbolStore.size_push]; exact Nat.lt_succ_self _) fun ht => absurd ht hne
  rw [symbols_copyFor, SymbolStore.table_push_size] at hin
  exact (hin.mono fun _ _ hs => hs.2).trans (halike.mono fun _ _ hs => unbound_of_shapes hbody.shapes.symm hs)

/-- If the copies that a copy calls are echoed, so are they and the copy itself once it has been
linked. -/
lemma echoes_of_call {target number target' number' j : Nat} {l₁ l₂ m₁ m₂ m' : Linker}
    {body body' found found' : List Line}
    (hholds : Holds p id table l₁) (hbody : Links p l₁.program.instances.size l₁.program.symbols.size
      (l₁.copyFor id number target) (p.inst target).lines l₂ body)
    (hrest : Links p id table (l₂.store l₁.program.instances.size body) lines l' lines')
    (hm : Holds q id' table' m₁) (hbody' : Links q m₁.program.instances.size m₁.program.symbols.size
      (m₁.copyFor id' number' target') (q.inst target').lines m₂ body')
    (hrest' : Links q id' table' (m₂.store m₁.program.instances.size body') found m' found')
    (hsize₁ : m₁.program.instances.size = l₁.program.instances.size + d)
    (hsize₂ : m₂.program.instances.size = l₂.program.instances.size + d)
    (hlines : List.Forall₂ (Line.Echoes d) body body')
    (hown : ∀ name, (m₂.program.symbols.table m₁.program.symbols.size).find? name =
      (l₂.program.symbols.table l₁.program.symbols.size).find? name)
    (hin : ∀ j, l₁.program.instances.size < j → j < l₂.program.instances.size →
      Echoes d l₂.program.symbols m₂.program.symbols (l₂.program.inst j) (m₂.program.inst (j + d)))
    (hlo : l₁.program.instances.size ≤ j) (hhi : j < l₂.program.instances.size) :
    Echoes d l'.program.symbols m'.program.symbols (l'.program.inst j) (m'.program.inst (j + d)) := by
  obtain ⟨hinst, htable⟩ := copy_eq_of_call hholds hbody hrest hlo hhi
  obtain ⟨hinst', htable'⟩ := copy_eq_of_call (j := j + d) hm hbody' hrest' (by omega) (by omega)
  by_cases hj : j = l₁.program.instances.size
  · subst hj
    rw [← hsize₁] at hinst' htable' ⊢
    rw [inst_copy rfl hbody hrest] at htable ⊢
    rw [inst_copy rfl hbody' hrest'] at htable' ⊢
    refine ⟨hlines, fun name => ?_⟩
    rw [htable, htable']
    exact hown name
  · rw [inst_store_ne hj] at hinst
    rw [inst_store_ne (by omega)] at hinst'
    have hechoes := hin j (by omega) hhi
    rw [hinst] at htable ⊢
    rw [hinst'] at htable' ⊢
    refine ⟨hechoes.lines, fun name => ?_⟩
    rw [htable, htable']
    exact hechoes.symbols name

end Links

/-! ### One step of both runs -/

/-- What the second run relies on where the first one has linked some lines from the state `l` to
the state `l'`: the copies that were made for them are left, and names of the root have kept their
numbers. -/
structure Retraceable (imported : String → Option SymbolRef) (c : Nat) (p q : Program) (table : Nat) (l : Linker)
    (lines : List Line) (l' : Linker) : Prop where
  regular : ∀ line ∈ lines, line.statement.Regular
  importsFrom : ImportsFrom p l.imports
  imported_eq : imported = importedFrom p l.imports
  unimported : table = p.rootTable → ∀ line ∈ lines, ∀ name, line.label = some name → imported name = none
  index : ∀ name k, (l'.program.symbols.table p.rootTable).indexOf? name = some k →
    (q.symbols.table q.rootTable).indexOf? name = some k
  copies : ∀ j, l.program.instances.size ≤ j → j < l'.program.instances.size →
    Leftover c q l'.program.symbols (l'.program.inst j) (j + c)

variable {imported imported' : String → Option SymbolRef} {outer : String → Bool → Prop} {c : Nat}
  {found : List Line}

namespace Retraceable

/-- Behind the first line the second run relies on no more than before it. -/
lemma tail {l₂ : Linker} (h : Retraceable imported c p q table l (line :: rest) l')
    (himports : l₂.imports = l.imports)
    (hsize : l.program.instances.size ≤ l₂.program.instances.size) :
    Retraceable imported c p q table l₂ rest l' where
  regular := (List.forall_mem_cons.1 h.regular).2
  importsFrom := by rw [himports]; exact h.importsFrom
  imported_eq := by rw [himports]; exact h.imported_eq
  unimported ht other hother := h.unimported ht other (List.mem_cons_of_mem _ hother)
  index := h.index
  copies j hj := h.copies j (Nat.le_trans hsize hj)

/-- What the copy for a call calls in turn is left as well. -/
lemma body {target : Nat} {l₁ l₂ : Linker} {body rest' : List Line}
    (h : Retraceable imported c p q table l (line :: rest) l')
    (hregular : ∀ line ∈ (p.inst target).lines, line.statement.Regular)
    (hholds : Holds p id table l) (hbind : Binds id table l (l.here line) l₁)
    (hbody : Links p l₁.program.instances.size l₁.program.symbols.size (l₁.copyFor id line.number target)
      (p.inst target).lines l₂ body)
    (hrest : Links p id table (l₂.store l₁.program.instances.size body) rest l' rest') :
    Retraceable imported c p q l₁.program.symbols.size (l₁.copyFor id line.number target) (p.inst target).lines
      l₂ := by
  have himports : l₁.imports = l.imports := hbind.symbolsOnly.imports_eq
  have hsize : l₁.program.instances.size = l.program.instances.size := by rw [hbind.instances_eq]
  have hholds₁ := hholds.binds hbind
  have hsize' := hrest.size_le
  rw [size_store] at hsize'
  have hne := hbody.holds.table_ne (Nat.ne_of_gt (Nat.lt_of_lt_of_le hholds₁.root_lt hholds₁.size_le))
  refine ⟨hregular, by rw [copyFor, himports]; exact h.importsFrom,
    by rw [copyFor, himports]; exact h.imported_eq, fun ht => absurd ht hne, fun name k hk => ?_,
    fun j hlo hhi => ?_⟩
  · exact h.index name k (hrest.later.rootIndex name k (by rwa [symbols_store]))
  · rw [size_copyFor] at hlo
    obtain ⟨hinst, htable⟩ := Links.copy_eq_of_call hholds₁ hbody hrest (by omega) hhi
    rw [inst_store_ne (by omega)] at hinst
    rw [hinst] at htable
    exact (h.copies j (by omega) (by omega)).congr hinst htable

end Retraceable

namespace InStep

/-- If the first run passes over a line, so does the second one: the line takes as many bytes at the
same place. -/
lemma pass (h : InStep p q imported imported' table table' (Unbound (line :: rest)) outer l m)
    (hl : Holds p id table l) (hm : Holds q id' table' m) (hid : id' = Program.root ↔ id = Program.root)
    (himported : ∀ name, imported' name = none ↔ imported name = none) (hroot : q.rootTable = p.rootTable)
    (hretrace : Retraceable imported c p q table l (line :: rest) l')
    (hline : line.statement.target? = none) (hbind : Binds id table l (l.here line) l₁)
    (hrest : Links p id table (l₁.skip ((l.here line).size l₁.program.symbols table).toNat) rest l' lines')
    (hmoved : Line.MovedBy c (l.here line) line') :
    ∃ m₁, Binds id' table' m (m.here line') m₁ ∧ line'.statement.target? = none ∧
      ((m.here line').size m₁.program.symbols table').toNat =
        ((l.here line).size l₁.program.symbols table).toNat ∧
      Line.Echoes d (l.here line) (m.here line') ∧
      InStep p q imported imported' table table' (Unbound rest) outer l₁ m₁ := by
  have hregular := hretrace.regular line List.mem_cons_self
  have hshape : line'.shape = line.shape := by rw [hmoved.shape_eq, here, Line.shape_startingAt]
  have htarget : (l.here line).statement.target? = none := by
    rwa [here, Line.statement_startingAt, Statement.target?_startingAt]
  have hechoes : ∀ d, Line.Echoes d (l.here line) (m.here line') := by
    intro d
    rw [here, here, show m.address = l.address from congrArg UInt16.ofNat h.next_eq]
    exact Line.echoes_startingAt hshape hregular hline
  obtain ⟨m₁, hbind', h₁⟩ := h.binds hl hm hid himported hbind hshape hretrace.importsFrom
    hretrace.imported_eq hroot (fun ht name => hretrace.unimported ht line List.mem_cons_self name)
    (fun name k hk => hretrace.index name k (hrest.later.rootIndex name k hk))
  refine ⟨m₁, hbind', ?_, ?_, hechoes d, h₁⟩
  · rw [hmoved.target_eq, htarget, Option.map_none]
  · have hr : (l.here line).statement.Regular := by
      rw [here, Line.statement_startingAt]
      exact hregular.startingAt _
    rw [hechoes 0, Line.size, Line.size]
    dsimp only
    rw [Statement.retarget_of_target?_none htarget, hr.size_eq, hr.size_eq]

/-- If the first run binds a call and goes on with a copy, so does the second one.  The copy is that
of what the first run has left of its own. -/
lemma call {target : Nat} {args : List String} {l₂ : Linker} {body rest' : List Line}
    (h : InStep p q imported imported' table table' (Unbound (line :: rest)) outer l m)
    (hl : Holds p id table l) (hm : Holds q id' table' m) (hid : id' = Program.root ↔ id = Program.root)
    (himported : ∀ name, imported' name = none ↔ imported name = none) (hroot : q.rootTable = p.rootTable)
    (hretrace : Retraceable imported c p q table l (line :: rest) l')
    (hline : line.statement = .call name args target) (hbind : Binds id table l (l.here line) l₁)
    (hbody : Links p l₁.program.instances.size l₁.program.symbols.size (l₁.copyFor id line.number target)
      (p.inst target).lines l₂ body)
    (hrest : Links p id table (l₂.store l₁.program.instances.size body) rest l' rest')
    (hmoved : Line.MovedBy c { l.here line with statement := .call name args l₁.program.instances.size } line') :
    ∃ m₁, Binds id' table' m (m.here line') m₁ ∧
      line'.statement = .call name args (l₁.program.instances.size + c) ∧
      l₁.program.instances.size + c < q.instances.size ∧
      List.Forall₂ (Line.MovedBy c) body (q.inst (l₁.program.instances.size + c)).lines ∧
      InStep p q imported imported' table table' (Unbound rest) outer l₁ m₁ ∧
      InStep p q imported imported' l₁.program.symbols.size m₁.program.symbols.size
        (Unbound (p.inst target).lines)
        (fun n defined => (table = p.rootTable ∧ Unbound rest n defined) ∨
          (table ≠ p.rootTable ∧ outer n defined))
        (l₁.copyFor id line.number target)
        (m₁.copyFor id' line'.number (l₁.program.instances.size + c)) := by
  have himports : l₁.imports = l.imports := hbind.symbolsOnly.imports_eq
  have hsize : l₁.program.instances.size = l.program.instances.size := by rw [hbind.instances_eq]
  have hl₁ := hl.binds hbind
  have hsize₂ := hbody.size_le
  rw [size_copyFor] at hsize₂
  have hsize' := hrest.size_le
  rw [size_store] at hsize'
  have hshape : line'.shape = line.shape := by rw [hmoved.shape_eq, here, Links.shape_bound hline]
  have hlater : Later p.rootTable table [] l₁.program.symbols l₂.program.symbols :=
    hbody.later.of_push (Nat.lt_of_lt_of_le hl₁.rootTable_lt hl₁.size_symbols_le) hl₁.table_lt
  obtain ⟨m₁, hbind', h₁⟩ := h.binds hl hm hid himported hbind hshape hretrace.importsFrom
    hretrace.imported_eq hroot (fun ht name => hretrace.unimported ht line List.mem_cons_self name)
    (fun name k hk => hretrace.index name k (hrest.later.rootIndex name k
      (by rw [symbols_store]; exact hlater.rootIndex name k hk)))
  have hcopy := hretrace.copies l₁.program.instances.size (by omega) (by omega)
  have halike := Links.alikeAt_copy hl₁ (by rw [himports]; exact hretrace.importsFrom) hbody hrest hcopy
    (hm.binds hbind')
  rw [Links.inst_copy rfl hbody hrest] at hcopy
  exact ⟨m₁, hbind', hmoved.statement_eq rfl, hcopy.lt_size, hcopy.lines, h₁,
    h₁.enter hl₁ (hm.binds hbind') hid line.number line'.number halike⟩

end InStep

/-! ### Whole runs -/

namespace Links

/-- What a run has made of some lines is linked again in step with it, and echoes it. -/
theorem exists_echo (h : Links p id table l lines l' lines')
    (hd : q.instances.size = p.instances.size + d) (hroot : q.rootTable = p.rootTable)
    (himported : ∀ name, imported' name = none ↔ imported name = none)
    (hregular : ∀ j < p.instances.size, ∀ line ∈ (p.inst j).lines, line.statement.Regular)
    (hretrace : Retraceable imported c p q table l lines l')
    (hm : Holds q id' table' m) (hid : id' = Program.root ↔ id = Program.root)
    (hstep : InStep p q imported imported' table table' (Unbound lines) outer l m)
    (hfound : List.Forall₂ (Line.MovedBy c) lines' found) :
    ∃ m' made, Links q id' table' m found m' made ∧
      InStep p q imported imported' table table' (Unbound []) outer l' m' ∧
      List.Forall₂ (Line.Echoes d) lines' made ∧
      ∀ j, l.program.instances.size ≤ j → j < l'.program.instances.size →
        Echoes d l'.program.symbols m'.program.symbols (l'.program.inst j) (m'.program.inst (j + d)) := by
  induction h generalizing id' table' m found outer with
  | nil hholds =>
    cases hfound
    exact ⟨m, [], .nil hm, hstep, .nil, fun j hj hj' => absurd hj (by omega)⟩
  | @plain id table l l₁ l' line rest rest' hholds hline hbind hroom hrest ih =>
    obtain _ | ⟨hmoved, hfound⟩ := hfound
    have himports : l₁.imports = l.imports := hbind.symbolsOnly.imports_eq
    have hsize : l₁.program.instances.size = l.program.instances.size := by rw [hbind.instances_eq]
    obtain ⟨m₁, hbind', hline', hbytes, hechoes, hstep₁⟩ :=
      hstep.pass (d := d) hholds hm hid himported hroot hretrace hline hbind hrest hmoved
    obtain ⟨m', made, hlinks, hstep', hmade, hcopies⟩ := ih (hretrace.tail himports (Nat.le_of_eq hsize.symm))
      ((hm.binds hbind').skip _) hid (hstep₁.skip _) hfound
    refine ⟨m', _, .plain hm hline' hbind' ?_ ?_, hstep', .cons hechoes hmade, fun j hj => hcopies j ?_⟩
    · rwa [hbytes, hstep₁.next_eq]
    · rwa [hbytes]
    · rwa [skip, hsize]
  | @call id table target l l₁ l₂ l' line name args rest rest' body hholds hline hne htarget hbind hbody hrest
      ihbody ihrest =>
    obtain _ | ⟨hmoved, hfound⟩ := hfound
    rename_i line' found
    have himports : l₂.imports = l.imports := hbody.imports_eq.trans hbind.symbolsOnly.imports_eq
    have hholds₁ := hholds.binds hbind
    have hsize₁ : l₁.program.instances.size = l.program.instances.size := by rw [hbind.instances_eq]
    have hsize₂ := hbody.size_le
    rw [size_copyFor] at hsize₂
    obtain ⟨m₁, hbind', hcall, hlt, hlines, hstep₁, hstep₂⟩ :=
      hstep.call hholds hm hid himported hroot hretrace hline hbind hbody hrest hmoved
    have hm₁ := hm.binds hbind'
    have hle := hholds₁.size_le
    have hle' := hm₁.size_le
    have hlt₀ := hholds.root_lt
    have hlt₀' := hm.root_lt
    -- The copies are linked in step; neither of them is the root.
    obtain ⟨m₂, body', hbody', hstep₂', hmade₂, hcopies₂⟩ :=
      ihbody (hretrace.body (hregular target htarget) hholds hbind hbody hrest) hm₁.copyFor (by omega) hstep₂
        hlines
    have hsize₃ := hbody'.size_le
    rw [size_copyFor] at hsize₃
    have hstep₃ : InStep p q imported imported' table table' (Unbound rest) outer
        (l₂.store l₁.program.instances.size body) (m₂.store m₁.program.instances.size body') :=
      hstep₁.leave hholds₁ hm₁ hid hstep₂' (table_of_call hholds₁ hbody) (table_of_call hm₁ hbody')
    obtain ⟨m', made, hrest', hstep', hmade, hcopies⟩ :=
      ihrest (hretrace.tail himports (by rw [size_store]; omega)) (hm₁.store hbody'.holds' hsize₃) hid hstep₃
        hfound
    have hsizes₁ : m₁.program.instances.size = l₁.program.instances.size + d := by
      have := hstep₁.size_eq
      omega
    have hsizes₂ : m₂.program.instances.size = l₂.program.instances.size + d := by
      have := hstep₂'.size_eq
      omega
    refine ⟨m', _, .call hm hcall (by omega) hlt hbind' hbody' hrest', hstep', .cons ?_ hmade,
      fun j hlo hhi => ?_⟩
    · rw [here, here, show m.address = l.address from congrArg UInt16.ofNat hstep.next_eq, hsizes₁]
      exact Line.echoes_call (hmoved.shape_eq.trans (shape_bound hline _)) _
    · by_cases hj : j < l₂.program.instances.size
      · exact echoes_of_call hholds₁ hbody hrest hm₁ hbody' hrest' hsizes₁ hsizes₂ hmade₂
          (fun name => (hstep₂'.own name fun ht => absurd ht (hbody.holds.table_ne (by omega))).find?_eq
            fun _ => not_unbound_nil)
          (fun j hj => hcopies₂ j (by rwa [size_copyFor])) (by omega) hj
      · exact hcopies j (by rw [size_store]; omega) hhi

end Links

end Linker

end Pep10
