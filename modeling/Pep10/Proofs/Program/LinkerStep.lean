import Pep10.Proofs.Program.Expansion
import Pep10.Proofs.Symbol.Binding
import Pep10.Program.Linking

/-!
# The steps of linking

What can happen to the state of linking: the label and the operand of a line are bound, the line is
passed over, or a copy of an instance is made and, later, its lines are stored.

`Holds` is the invariant of linking: the instances of the program that linking started with, and
their symbol tables, the one of the root apart, stay as they are, so that every copy is a copy of
what was assembled.
-/

namespace Pep10.Linker

open SymbolStore (Later)

/-! ### Steps -/

/-- The line at the address that comes next. -/
def here (l : Linker) (line : Line) : Line := line.startingAt l.address.toNat

/-- The label and the operand of a line are bound without a fault. -/
def Binds (id table : Nat) (l : Linker) (line : Line) (l' : Linker) : Prop :=
  ∃ l₁, l.bindLabel table line = .ok l₁ ∧ l₁.bindOperand id table line = .ok l'

/-- The state after a line that takes the given number of bytes. -/
def skip (l : Linker) (size : Nat) : Linker := { l with next := l.next + size }

/-- The state in which the linked lines of an instance have been stored. -/
def store (l : Linker) (id : Nat) (lines : List Line) : Linker :=
  { l with program := l.program.modifyInstance id (withLines lines) }

variable {p : Program} {id table table' number target : Nat} {l l₁ l' : Linker} {line : Line}
  {lines body : List Line} {name : String} {x : Symbol}

/-- Changing symbols touches the symbols alone, and no table comes or goes. -/
def SymbolsOnly (l l' : Linker) : Prop :=
  ∃ s : SymbolStore, s.size = l.program.symbols.size ∧
    l' = { l with program := { l.program with symbols := s } }

namespace SymbolsOnly

lemma refl (l : Linker) : SymbolsOnly l l := ⟨l.program.symbols, rfl, rfl⟩

lemma trans (h : SymbolsOnly l l₁) (h' : SymbolsOnly l₁ l') : SymbolsOnly l l' := by
  obtain ⟨s, hs, rfl⟩ := h
  obtain ⟨s', hs', rfl⟩ := h'
  exact ⟨s', hs'.trans hs, rfl⟩

lemma modifyTable (l : Linker) (table : Nat) (f : SymbolTable → SymbolTable) :
    SymbolsOnly l (l.modifyTable table f) :=
  ⟨_, SymbolStore.size_modify, rfl⟩

end SymbolsOnly

/-! ### What can become of a label and of an operand -/

/-- Binding a label changes nothing, or gives the address that comes next to the label. -/
lemma bindLabel_eq_ok (h : l.bindLabel table line = .ok l') :
    (line.label = none ∧ l' = l) ∨
      ∃ name, line.label = some name ∧
        (((l.program.symbols.table table).find? name = none ∧ l' = l) ∨
          ∃ s, (l.program.symbols.table table).find? name = some s ∧ s.multiplyDefined = false ∧
            l' = if line.statement.isEquate then l
              else l.modifyTable table fun t => t.assign name (.location l.address 0)) := by
  unfold bindLabel at h
  split at h
  next hlabel =>
    cases h
    exact .inl ⟨hlabel, rfl⟩
  next name hlabel =>
    refine .inr ⟨name, hlabel, ?_⟩
    split at h
    next hnone =>
      cases h
      exact .inl ⟨hnone, rfl⟩
    next s hs =>
      split at h
      · split at h <;> cases h
      · next hmult =>
        refine .inr ⟨s, hs, by simpa using hmult, ?_⟩
        split at h
        next heq =>
          cases h
          rw [if_pos heq]
        next heq =>
          cases h
          rw [if_neg heq]

/-- Resolving a name changes nothing if the table declares the name.  Otherwise the table is not
that of the root, the root declares the name, possibly by an import made on the spot, and the table
is made to refer to it. -/
lemma resolve_eq_some (h : l.resolve id table name = some l') :
    (l.declares table name = true ∧ l' = l) ∨
      (l.declares table name = false ∧ id ≠ Program.root ∧
        ∃ l₁, l' = l₁.referToRoot table name ∧
          ((l.declares l.program.rootTable name = true ∧ l₁ = l) ∨
            (l.declares l.program.rootTable name = false ∧ l.importToRoot name = some l₁))) := by
  unfold resolve at h
  split at h
  next hown =>
    cases h
    exact .inl ⟨hown, rfl⟩
  next hown =>
    rw [Bool.not_eq_true] at hown
    split at h
    · cases h
    next hid =>
      have hne : id ≠ Program.root := by simpa using hid
      split at h
      next hroot =>
        cases h
        exact .inr ⟨hown, hne, l, rfl, .inl ⟨hroot, rfl⟩⟩
      next hroot =>
        obtain ⟨l₁, himport, rfl⟩ := Option.map_eq_some_iff.1 h
        exact .inr ⟨hown, hne, l₁, rfl, .inr ⟨by simpa using hroot, himport⟩⟩

/-- Importing a name makes the root declare it as an import. -/
lemma importToRoot_eq_some (h : l.importToRoot name = some l') :
    ∃ ref, l.import? name = some ref ∧
      l' = l.modifyTable l.program.rootTable fun t =>
        (t.mention name).update name fun s => { s with defined := true, value := .external ref } := by
  unfold importToRoot at h
  split at h
  · cases h
  next ref href =>
    cases h
    exact ⟨ref, href, rfl⟩

/-- Binding an operand resolves the symbol in it, if there is one. -/
lemma bindOperand_eq_ok (h : l.bindOperand id table line = .ok l') :
    (line.statement.operand?.bind Operand.symbol? = none ∧ l' = l) ∨
      ∃ name, line.statement.operand?.bind Operand.symbol? = some name ∧
        l.resolve id table name = some l' := by
  unfold bindOperand at h
  split at h
  next hnone =>
    cases h
    exact .inl ⟨hnone, rfl⟩
  next name hname =>
    split at h
    · cases h
    next hres =>
      cases h
      exact .inr ⟨name, hname, hres⟩

lemma symbolsOnly_bindLabel (h : l.bindLabel table line = .ok l') : SymbolsOnly l l' := by
  rcases bindLabel_eq_ok h with ⟨-, rfl⟩ | ⟨name, -, ⟨-, rfl⟩ | ⟨s, -, -, rfl⟩⟩
  · exact .refl _
  · exact .refl _
  · split
    · exact .refl _
    · exact .modifyTable ..

lemma symbolsOnly_referToRoot (l : Linker) (table : Nat) (name : String) :
    SymbolsOnly l (l.referToRoot table name) := by
  unfold referToRoot
  split
  · exact .refl l
  · exact .modifyTable ..

lemma symbolsOnly_bindOperand (h : l.bindOperand id table line = .ok l') : SymbolsOnly l l' := by
  rcases bindOperand_eq_ok h with ⟨-, rfl⟩ | ⟨name, -, hres⟩
  · exact .refl _
  · rcases resolve_eq_some hres with ⟨-, rfl⟩ | ⟨-, -, l₁, rfl, ⟨-, rfl⟩ | ⟨-, himport⟩⟩
    · exact .refl _
    · exact symbolsOnly_referToRoot ..
    · obtain ⟨ref, -, rfl⟩ := importToRoot_eq_some himport
      exact (SymbolsOnly.modifyTable ..).trans (symbolsOnly_referToRoot ..)

/-- Binding a line touches the symbols alone. -/
lemma Binds.symbolsOnly (h : Binds id table l line l') : SymbolsOnly l l' := by
  obtain ⟨l₁, h₁, h₂⟩ := h
  exact (symbolsOnly_bindLabel h₁).trans (symbolsOnly_bindOperand h₂)

/-! ### The invariant -/

/-- What holds while lines of the instance `id`, whose symbol table has the given number, are being
linked, `p` being the program that linking started with. -/
structure Holds (p : Program) (id table : Nat) (l : Linker) : Prop where
  size_le : p.instances.size ≤ l.program.instances.size
  /-- Every instance that is added brings a table with it. -/
  sizes : l.program.symbols.size + p.instances.size =
    p.symbols.size + l.program.instances.size
  inst_eq : ∀ j < p.instances.size, l.program.inst j = p.inst j
  table_eq : ∀ i < p.symbols.size, i ≠ p.rootTable →
    l.program.symbols.table i = p.symbols.table i
  numbered : ∀ j, p.instances.size ≤ j → j < l.program.instances.size →
    (l.program.inst j).table + p.instances.size = j + p.symbols.size
  source_eq : ∀ m, (l.program.module m).lines = (p.module m).lines
  kind_eq : ∀ m, (l.program.module m).kind = (p.module m).kind
  /-- The instance at hand is the root or a copy. -/
  own : (id = Program.root ∧ table = p.rootTable) ∨
    (p.instances.size ≤ id ∧ id < l.program.instances.size ∧
      table + p.instances.size = id + p.symbols.size)
  root_lt : Program.root < p.instances.size
  rootTable_lt : p.rootTable < p.symbols.size
  overflowed_eq : l.overflowed = false

namespace Holds

lemma rootTable_eq (h : Holds p id table l) : l.program.rootTable = p.rootTable :=
  congrArg Instance.table (h.inst_eq _ h.root_lt)

lemma table_lt (h : Holds p id table l) : table < l.program.symbols.size := by
  have h1 := h.sizes
  have h2 := h.size_le
  have h3 := h.rootTable_lt
  rcases h.own with ⟨-, rfl⟩ | ⟨h4, h5, h6⟩ <;> omega

/-- The tables that were there at the start are still there. -/
lemma size_symbols_le (h : Holds p id table l) : p.symbols.size ≤ l.program.symbols.size := by
  have h1 := h.sizes
  have h2 := h.size_le
  omega

/-- Steps that only touch the symbols keep the invariant if they leave the tables alone that have
been assembled. -/
lemma symbolsOnly (h : Holds p id table l) (hs : SymbolsOnly l l')
    (ht : ∀ i < p.symbols.size, i ≠ p.rootTable →
      l'.program.symbols.table i = l.program.symbols.table i) :
    Holds p id table l' := by
  obtain ⟨s, hsize, rfl⟩ := hs
  exact { h with
    sizes := by rw [← h.sizes, ← hsize]
    table_eq := fun i hi hr => (ht i hi hr).trans (h.table_eq i hi hr) }

/-- The same by what is kept of the symbols. -/
lemma later {names : List String} (h : Holds p id table l) (hs : SymbolsOnly l l')
    (hl : Later p.rootTable table names l.program.symbols l'.program.symbols) :
    Holds p id table l' := by
  refine h.symbolsOnly hs fun i hi hr =>
    hl.other i (Nat.lt_of_lt_of_le hi h.size_symbols_le) ?_ hr
  rcases h.own with ⟨-, rfl⟩ | ⟨h3, -, h4⟩
  · exact hr
  · omega

lemma skip (h : Holds p id table l) (size : Nat) : Holds p id table (l.skip size) := { h with }

end Holds

/-! ### What binding keeps of the symbols -/

@[simp] lemma symbols_modifyTable (f : SymbolTable → SymbolTable) :
    (l.modifyTable table f).program.symbols = l.program.symbols.modify table f := rfl

/-- A table declares a name if it has a declared symbol of that name. -/
lemma declares_eq_true : l.declares table name = true ↔
    ∃ x, (l.program.symbols.table table).find? name = some x ∧ x.defined = true := by
  rw [declares, Option.any_eq_true]

lemma defined_eq_false (h : l.declares table name = false)
    (hx : (l.program.symbols.table table).find? name = some x) : x.defined = false := by
  rwa [declares, hx, Option.any_some] at h

/-- Only the root has the symbol table of the root. -/
lemma Holds.table_ne (h : Holds p id table l) (hid : id ≠ Program.root) : table ≠ p.rootTable := by
  have := h.rootTable_lt
  rcases h.own with ⟨rfl, -⟩ | ⟨h1, -, h2⟩
  · exact absurd rfl hid
  · omega

/-- Binding a label binds the label of a line that stands for its address. -/
lemma later_bindLabel (hholds : Holds p id table l) (h : l.bindLabel table line = .ok l') :
    Later p.rootTable table line.addressLabel?.toList l.program.symbols l'.program.symbols := by
  rcases bindLabel_eq_ok h with ⟨-, rfl⟩ | ⟨name, hname, ⟨-, rfl⟩ | ⟨x, -, -, rfl⟩⟩
  · exact .refl ..
  · exact .refl ..
  · split
    · exact .refl ..
    next heq =>
      exact .assign hholds.table_lt (by simp [Line.addressLabel?, heq, hname])

/-- When a symbol of the root is referred to, the root declares it. -/
lemma later_referToRoot (hholds : Holds p id table l) (hid : id ≠ Program.root)
    (hown : l.declares table name = false) (hroot : l.declares p.rootTable name = true) :
    Later p.rootTable table [] l.program.symbols (l.referToRoot table name).program.symbols ∧
      ∀ x, (l.program.symbols.table table).find? name = some x →
        ∃ x', ((l.referToRoot table name).program.symbols.table table).find? name = some x' ∧
          x'.defined = false ∧
          (l.referToRoot table name).program.symbols.Refers p.rootTable name x'.value := by
  obtain ⟨y, hy, hdef⟩ := declares_eq_true.1 hroot
  obtain ⟨k, hk⟩ := SymbolTable.exists_indexOf? hy
  have hne := hholds.table_ne hid
  simp only [referToRoot, hholds.rootTable_eq, hk, symbols_modifyTable]
  refine ⟨.refer hholds.table_lt hne (fun z hz => defined_eq_false hown hz) hk hy hdef,
    fun x hx => ?_⟩
  have hundef := defined_eq_false hown hx
  refine ⟨{ x with value := .external ⟨p.rootTable, k⟩ }, ?_, hundef, k, y, ?_, ?_, hdef, rfl⟩
  · rw [SymbolStore.table_modify_self hholds.table_lt, SymbolTable.find?_assign_self, hx]
    rfl
  all_goals rwa [SymbolStore.table_modify_ne hne.symm]

/-- An import is made by the root. -/
lemma later_importToRoot (hholds : Holds p id table l) (hid : id ≠ Program.root)
    (hroot : l.declares p.rootTable name = false) (h : l.importToRoot name = some l') :
    Later p.rootTable table [] l.program.symbols l'.program.symbols ∧
      Holds p id table l' ∧ l'.declares p.rootTable name = true ∧
      l'.program.symbols.table table = l.program.symbols.table table := by
  obtain ⟨ref, -, rfl⟩ := importToRoot_eq_some h
  have hlt := Nat.lt_of_lt_of_le hholds.rootTable_lt hholds.size_symbols_le
  have hne := hholds.table_ne hid
  rw [hholds.rootTable_eq]
  refine ⟨.declareRoot hlt hne fun y hy => defined_eq_false hroot hy,
    hholds.symbolsOnly (.modifyTable ..) fun i _ hi => SymbolStore.table_modify_ne hi, ?_,
    SymbolStore.table_modify_ne hne⟩
  rw [declares_eq_true]
  refine ⟨{ ((l.program.symbols.table p.rootTable).find? name).getD { name } with
    defined := true, value := .external ref }, ?_, rfl⟩
  rw [symbols_modifyTable, SymbolStore.table_modify_self hlt, SymbolTable.find?_mention_update,
    if_pos rfl]

/-- Binding an operand finds the declaration of the symbol in it. -/
lemma bindOperand_bound (hholds : Holds p id table l) (h : l.bindOperand id table line = .ok l') :
    Later p.rootTable table [] l.program.symbols l'.program.symbols ∧
      ∀ name x, line.statement.symbol? = some name →
        (l.program.symbols.table table).find? name = some x →
        ∃ x', (l'.program.symbols.table table).find? name = some x' ∧
          (x'.defined = true ∨ (x'.defined = false ∧ table ≠ p.rootTable ∧
            l'.program.symbols.Refers p.rootTable name x'.value)) := by
  rcases bindOperand_eq_ok h with ⟨hnone, rfl⟩ | ⟨name, hname, hres⟩
  · refine ⟨.refl .., fun other x hother => ?_⟩
    rw [Statement.symbol?, hnone] at hother
    cases hother
  · have hsym : line.statement.symbol? = some name := hname
    rw [hsym]
    rcases resolve_eq_some hres with ⟨hown, rfl⟩ | ⟨hown, hid, l₁, rfl, hroot⟩
    · refine ⟨.refl .., ?_⟩
      rintro _ x ⟨⟩ -
      obtain ⟨y, hy, hdef⟩ := declares_eq_true.1 hown
      exact ⟨y, hy, .inl hdef⟩
    · -- The root declares the name, or is made to.
      have hstep : Later p.rootTable table [] l.program.symbols l₁.program.symbols ∧
          Holds p id table l₁ ∧ l₁.declares p.rootTable name = true ∧
          l₁.program.symbols.table table = l.program.symbols.table table := by
        rw [hholds.rootTable_eq] at hroot
        rcases hroot with ⟨hdec, rfl⟩ | ⟨hdec, himport⟩
        · exact ⟨.refl .., hholds, hdec, rfl⟩
        · exact later_importToRoot hholds hid hdec himport
      obtain ⟨hlater, hholds₁, hdec, htable⟩ := hstep
      have hown₁ : l₁.declares table name = false := by rwa [declares, htable]
      obtain ⟨hrefer, hbound⟩ := later_referToRoot hholds₁ hid hown₁ hdec
      refine ⟨hlater.trans hrefer, ?_⟩
      rintro _ x ⟨⟩ hx
      obtain ⟨x', hx', hundef, href⟩ := hbound x (by rwa [htable])
      exact ⟨x', hx', .inr ⟨hundef, hholds.table_ne hid, href⟩⟩

/-- Binding a line binds its label and no other. -/
lemma Binds.later (hholds : Holds p id table l) (h : Binds id table l line l') :
    Later p.rootTable table line.addressLabel?.toList l.program.symbols l'.program.symbols := by
  obtain ⟨l₁, hlabel, hoperand⟩ := h
  have hlater := later_bindLabel hholds hlabel
  have hholds₁ := hholds.later (symbolsOnly_bindLabel hlabel) hlater
  simpa using hlater.trans (bindOperand_bound hholds₁ hoperand).1

lemma Holds.binds (h : Holds p id table l) (hbind : Binds id table l line l') :
    Holds p id table l' :=
  h.later hbind.symbolsOnly (hbind.later h)

/-! ### Copies -/

@[simp] lemma size_copyFor :
    (l.copyFor id number target).program.instances.size = l.program.instances.size + 1 := by
  simp [copyFor]

lemma inst_copyFor_of_lt {j : Nat} (h : j < l.program.instances.size) :
    (l.copyFor id number target).program.inst j = l.program.inst j :=
  Program.inst_copyInstance_of_lt h

lemma inst_copyFor_size :
    (l.copyFor id number target).program.inst l.program.instances.size =
      { l.program.inst target with table := l.program.symbols.size } :=
  Program.inst_copyInstance_size

@[simp] lemma symbols_copyFor : (l.copyFor id number target).program.symbols =
    l.program.symbols.push (l.program.symbols.table (l.program.inst target).table) := rfl

@[simp] lemma next_copyFor : (l.copyFor id number target).next = l.next := rfl

/-- Copying an instance keeps the text and the kind of all modules. -/
lemma module_copyFor (m : Nat) :
    ((l.copyFor id number target).program.module m).lines = (l.program.module m).lines ∧
      ((l.copyFor id number target).program.module m).kind = (l.program.module m).kind := by
  unfold copyFor
  dsimp only
  rw [Program.module_modifyModule]
  split <;> exact ⟨rfl, rfl⟩

@[simp] lemma size_store : (l.store id lines).program.instances.size =
    l.program.instances.size := by
  simp [store]

lemma inst_store_ne {j : Nat} (h : j ≠ id) :
    (l.store id lines).program.inst j = l.program.inst j :=
  Program.inst_modifyInstance_ne h

lemma inst_store_self (h : id < l.program.instances.size) :
    (l.store id lines).program.inst id = withLines lines (l.program.inst id) :=
  Program.inst_modifyInstance_self h

@[simp] lemma symbols_store : (l.store id lines).program.symbols = l.program.symbols := rfl

@[simp] lemma next_store : (l.store id lines).next = l.next := rfl

namespace Holds

/-- The invariant holds of the copy that is made for a call. -/
lemma copyFor (h : Holds p id table l) :
    Holds p l.program.instances.size l.program.symbols.size (l.copyFor id number target) := by
  have hsizes := h.sizes
  have hle := h.size_le
  refine ⟨?_, ?_, ?_, ?_, ?_, ?_, ?_, .inr ⟨hle, ?_, ?_⟩, h.root_lt, h.rootTable_lt,
    h.overflowed_eq⟩
  · rw [size_copyFor]
    omega
  · rw [size_copyFor, symbols_copyFor, SymbolStore.size_push]
    omega
  · intro j hj
    rw [inst_copyFor_of_lt (by omega), h.inst_eq j hj]
  · intro i hi hr
    rw [symbols_copyFor, SymbolStore.table_push_of_lt _ (by omega), h.table_eq i hi hr]
  · intro j hj hj'
    rw [size_copyFor] at hj'
    rcases Nat.lt_or_ge j l.program.instances.size with hlt | hge
    · rw [inst_copyFor_of_lt hlt]
      exact h.numbered j hj hlt
    · obtain rfl : j = l.program.instances.size := by omega
      rw [inst_copyFor_size]
      change l.program.symbols.size + _ = _
      omega
  · exact fun m => (module_copyFor m).1.trans (h.source_eq m)
  · exact fun m => (module_copyFor m).2.trans (h.kind_eq m)
  · rw [size_copyFor]
    omega
  · omega

/-- Behind a call, when the lines of the copy have been stored, the invariant holds again of the
instance that calls. -/
lemma store (h : Holds p id table l) (hcopy : Holds p l.program.instances.size table' l')
    (hle : l.program.instances.size < l'.program.instances.size) :
    Holds p id table (l'.store l.program.instances.size body) := by
  have hsize := h.size_le
  refine ⟨?_, ?_, ?_, hcopy.table_eq, ?_, hcopy.source_eq, hcopy.kind_eq, ?_, h.root_lt,
    h.rootTable_lt, hcopy.overflowed_eq⟩
  · rw [size_store]
    exact hcopy.size_le
  · rw [size_store]
    exact hcopy.sizes
  · intro j hj
    rw [inst_store_ne (by omega), hcopy.inst_eq j hj]
  · intro j hj hj'
    rw [size_store] at hj'
    by_cases hne : j = l.program.instances.size
    · subst hne
      rw [inst_store_self hj']
      exact hcopy.numbered _ hj hj'
    · rw [inst_store_ne hne]
      exact hcopy.numbered j hj hj'
  · rcases h.own with hroot | ⟨h1, h2, h3⟩
    · exact .inl hroot
    · refine .inr ⟨h1, ?_, h3⟩
      rw [size_store]
      omega

end Holds

end Pep10.Linker
