import Pep10.Proofs.Program.Descent
import Pep10.Proofs.Program.Resolution
import Pep10.Proofs.Symbol.Relabeling

/-!
# What can be linked

Linking fails for four reasons only: a name that is declared twice, a label of the root that is
exported, an operand that nothing declares, and lack of room.  Lines without these faults are linked
without a fault (`Linker.exists_links`), by induction on their expansion: `Bindable` says that the
labels and operands of some lines can be bound, and it is kept by all that linking does to symbol
tables.  Conversely, what has been linked has none of these faults, and no called instance is left
out (`Links.exists_copy`).
-/

namespace Pep10

lemma Statement.eq_call_of_target? {s : Statement} {target : Nat} (h : s.target? = some target) :
    ∃ name args, s = .call name args target := by
  cases s with
  | call name args t =>
    cases h
    exact ⟨name, args, rfl⟩
  | _ => cases h

namespace Linker

open SymbolStore (Later)
open Program (CallsBelow Expands)

variable {p : Program} {imports : Option Nat} {s s' : SymbolStore} {id table depth : Nat}
  {names : List String} {name : String} {l l₁ l' : Linker} {line : Line} {lines lines' rest e : List Line}

/-! ### Labels and operands -/

/-- A name that an instance may use as an operand: its own table declares it, or the instance is not
the root and the table of the root declares it or may import it. -/
def Known (p : Program) (imports : Option Nat) (s : SymbolStore) (id table : Nat) (name : String) : Prop :=
  (∃ x, (s.table table).find? name = some x ∧ x.defined = true) ∨
    (id ≠ Program.root ∧
      ((∃ x, (s.table p.rootTable).find? name = some x ∧ x.defined = true) ∨
        ∃ ref, importedFrom p imports name = some ref))

/-- The labels of some lines are declared once, and their operands are known. -/
structure Bindable (p : Program) (imports : Option Nat) (s : SymbolStore) (id table : Nat)
    (lines : List Line) : Prop where
  single : ∀ line ∈ lines, ∀ name, line.label = some name →
    ∃ x, (s.table table).find? name = some x ∧ x.multiplyDefined = false
  known : ∀ line ∈ lines, ∀ name, line.statement.symbol? = some name → Known p imports s id table name

lemma Known.later (h : Known p imports s id table name) (hl : Later p.rootTable table names s s') :
    Known p imports s' id table name := by
  rcases h with ⟨x, hx, hdef⟩ | ⟨hid, ⟨x, hx, hdef⟩ | himport⟩
  · obtain ⟨x', hx', -, hkeep⟩ := hl.symbol hx
    exact .inl ⟨x', hx', (hkeep hdef).1⟩
  · obtain ⟨x', hx', -, hkeep⟩ := hl.rootSymbol name x hx
    exact .inr ⟨hid, .inl ⟨x', hx', (hkeep hdef).1⟩⟩
  · exact .inr ⟨hid, .inr himport⟩

lemma Bindable.later (h : Bindable p imports s id table lines) (hl : Later p.rootTable table names s s') :
    Bindable p imports s' id table lines := by
  refine ⟨fun line hline name hname => ?_,
    fun line hline name hname => (h.known line hline name hname).later hl⟩
  obtain ⟨x, hx, hsingle⟩ := h.single line hline name hname
  obtain ⟨x', hx', hmult, -⟩ := hl.symbol hx
  exact ⟨x', hx', hmult.trans hsingle⟩

lemma Bindable.tail (h : Bindable p imports s id table (line :: rest)) :
    Bindable p imports s id table rest :=
  ⟨fun other hother => h.single other (List.mem_cons_of_mem _ hother),
    fun other hother => h.known other (List.mem_cons_of_mem _ hother)⟩

/-- A label that is declared once can be bound. -/
lemma exists_bindLabel (h : ∀ name, line.label = some name →
    ∃ x, (l.program.symbols.table table).find? name = some x ∧ x.multiplyDefined = false) :
    ∃ l₁, l.bindLabel table line = .ok l₁ := by
  unfold bindLabel
  split
  · exact ⟨l, rfl⟩
  next name hname =>
    obtain ⟨x, hx, hsingle⟩ := h name hname
    simp only [hx, hsingle, Bool.false_eq_true, if_false]
    split
    · exact ⟨_, rfl⟩
    · exact ⟨_, rfl⟩

/-- A name that is known has a declaration. -/
lemma Known.exists_resolve (h : Known p l.imports l.program.symbols id table name)
    (hholds : Holds p id table l) (hfrom : ImportsFrom p l.imports) :
    ∃ l₁, l.resolve id table name = some l₁ := by
  unfold resolve
  split
  · exact ⟨l, rfl⟩
  next hown =>
    obtain ⟨hid, hroot⟩ := h.resolve_left fun hdeclared => hown (declares_eq_true.2 hdeclared)
    rw [if_neg (by simpa using hid)]
    split
    · exact ⟨_, rfl⟩
    next hundeclared =>
      rw [hholds.rootTable_eq] at hundeclared
      obtain ⟨ref, href⟩ := hroot.resolve_left fun hdeclared => hundeclared (declares_eq_true.2 hdeclared)
      rw [← hholds.import?_eq hfrom] at href
      simp only [importToRoot, href]
      exact ⟨_, rfl⟩

/-- A line with a label that is declared once and an operand that is known can be bound. -/
lemma Bindable.exists_binds (h : Bindable p l.imports l.program.symbols id table (line :: rest))
    (hholds : Holds p id table l) (hfrom : ImportsFrom p l.imports) :
    ∃ l₁, Binds id table l (l.here line) l₁ := by
  obtain ⟨l₀, hlabel⟩ : ∃ l₀, l.bindLabel table (l.here line) = .ok l₀ :=
    exists_bindLabel (h.single line List.mem_cons_self)
  have hlater := later_bindLabel hholds hlabel
  have hsame := symbolsOnly_bindLabel hlabel
  have himports := hsame.imports_eq
  suffices hoperand : ∃ l₁, l₀.bindOperand id table (l.here line) = .ok l₁ by
    obtain ⟨l₁, hl₁⟩ := hoperand
    exact ⟨l₁, l₀, hlabel, hl₁⟩
  unfold bindOperand
  split
  · exact ⟨l₀, rfl⟩
  next name hname =>
    have hknown : Known p l₀.imports l₀.program.symbols id table name := by
      rw [himports]
      refine (h.known line List.mem_cons_self name ?_).later hlater
      rwa [here, Line.statement_startingAt, Statement.operand?_startingAt] at hname
    obtain ⟨l₁, hl₁⟩ := hknown.exists_resolve (hholds.later hsame hlater) (by rwa [himports])
    rw [hl₁]
    exact ⟨l₁, rfl⟩

/-! ### Lines -/

/-- A line that is bound, is no call and finds room is linked. -/
lemma linkLine_of_binds {linkChild : Linker → Nat → Linker × List Fault}
    (htarget : line.statement.target? = none) (hbind : Binds id table l (l.here line) l₁)
    (hroom : l₁.next + ((l.here line).size l₁.program.symbols table).toNat ≤ 0xFFFF) :
    linkLine linkChild id table l line =
      (l₁.skip ((l.here line).size l₁.program.symbols table).toNat, l.here line, []) := by
  obtain ⟨l₀, hlabel, hoperand⟩ := hbind
  have hadvance : l₁.advance ((l.here line).size l₁.program.symbols table).toNat =
      (l₁.skip ((l.here line).size l₁.program.symbols table).toNat, none) := by
    rw [advance, if_neg]
    · rfl
    · simp only [Bool.and_eq_true, decide_eq_true_eq, not_and]
      omega
  have hplain : (l.here line).statement.target? = none := by
    rwa [here, Line.statement_startingAt, Statement.target?_startingAt]
  have hhere : line.startingAt l.address.toNat = l.here line := rfl
  simp only [linkLine, hhere, hlabel, hoperand]
  split
  next hcall =>
    rw [hcall] at hplain
    cases hplain
  next =>
    rw [hadvance]
    rfl

/-- A call that is bound is linked if the instance is. -/
lemma linkLine_call_of_binds {linkChild : Linker → Nat → Linker × List Fault} {args : List String}
    {target : Nat} (hcall : line.statement = .call name args target)
    (hbind : Binds id table l (l.here line) l₁)
    (hchild : linkChild (l₁.copyFor id line.number target) l₁.program.instances.size = (l', [])) :
    linkLine linkChild id table l line =
      (l', { l.here line with statement := .call name args l₁.program.instances.size }, []) := by
  obtain ⟨l₀, hlabel, hoperand⟩ := hbind
  have hhere : line.startingAt l.address.toNat = l.here line := rfl
  have hst : (l.here line).statement = .call name args target := by
    rw [here, Line.statement_startingAt, hcall]
    rfl
  simp only [linkLine, hhere, hlabel, hoperand, hst, linkCall]
  rw [show (l.here line).number = line.number from rfl, hchild]
  rfl

/-- Linking in the sense of the relation is what the linker does, if the depth suffices for the
ranks of the called instances. -/
lemma Links.linkLines_eq {rank : Nat → Nat} (h : Links p id table l lines l' lines')
    (hrank : ∀ j < p.instances.size, p.CallsBelow rank (rank j) (p.inst j).lines)
    (hbelow : p.CallsBelow rank depth lines) :
    linkLines (linkInstance depth) id table l lines = (l', lines', []) := by
  induction h generalizing depth with
  | nil => rfl
  | plain _ hline hbind hroom _ ih =>
    rw [linkLines, linkLine_of_binds hline hbind hroom]
    dsimp only
    rw [ih fun other hother => hbelow other (List.mem_cons_of_mem _ hother)]
    rfl
  | @call id table target l l₁ l₂ l' line name args rest rest' body hholds hcall _ htarget hbind hbody _ ihbody
      ihrest =>
    have hlow := (hbelow line List.mem_cons_self target (by rw [hcall]; rfl)).2.2
    obtain ⟨depth, rfl⟩ := Nat.exists_eq_add_one_of_ne_zero (Nat.ne_zero_of_lt hlow)
    have hchild : linkInstance (depth + 1) (l₁.copyFor id line.number target) l₁.program.instances.size =
        (l₂.store l₁.program.instances.size body, []) := by
      have hlines := ihbody fun other hother t ht =>
        have hother := hrank target htarget other hother t ht
        (⟨hother.1, hother.2.1, by omega⟩ : t ≠ Program.root ∧ t < p.instances.size ∧ rank t < depth)
      rw [linkInstance, inst_copyFor_size, (hholds.binds hbind).inst_eq target htarget]
      dsimp only
      rw [hlines]
      rfl
    rw [linkLines, linkLine_call_of_binds hcall hbind hchild]
    dsimp only
    rw [ihrest fun other hother => hbelow other (List.mem_cons_of_mem _ hother)]
    rfl

/-! ### Instances -/

/-- What the root declares at the start it goes on declaring. -/
def KeepsRoot (p : Program) (s : SymbolStore) : Prop :=
  ∀ name x, (p.symbols.table p.rootTable).find? name = some x → x.defined = true →
    ∃ x', (s.table p.rootTable).find? name = some x' ∧ x'.defined = true

lemma KeepsRoot.later (h : KeepsRoot p s) (hl : Later p.rootTable table names s s') : KeepsRoot p s' := by
  intro name x hx hdef
  obtain ⟨x₁, hx₁, hdef₁⟩ := h name x hx hdef
  obtain ⟨x', hx', -, hkeep⟩ := hl.rootSymbol name x₁ hx₁
  exact ⟨x', hx', (hkeep hdef₁).1⟩

lemma KeepsRoot.copyFor {target number : Nat} (h : KeepsRoot p l.program.symbols)
    (hholds : Holds p id table l) : KeepsRoot p (l.copyFor id number target).program.symbols := by
  intro name x hx hdef
  rw [symbols_copyFor, SymbolStore.table_push_of_lt]
  · exact h name x hx hdef
  · exact Nat.lt_of_lt_of_le hholds.rootTable_lt hholds.size_symbols_le

/-- What can be bound in an instance can be bound in a copy. -/
lemma Bindable.copyFor {target number : Nat} (hholds : Holds p id table l)
    (hkept : KeepsRoot p l.program.symbols) (hrec : Recorded p) (hne : target ≠ Program.root)
    (hlt : target < p.instances.size)
    (h : Bindable p imports p.symbols target (p.inst target).table lines) :
    Bindable p imports (l.copyFor id number target).program.symbols l.program.instances.size
      l.program.symbols.size lines := by
  obtain ⟨htable, hother, -⟩ := hrec target hlt hne
  have hcopy : (l.copyFor id number target).program.symbols.table l.program.symbols.size =
      p.symbols.table (p.inst target).table := by
    rw [symbols_copyFor, SymbolStore.table_push_size, hholds.inst_eq target hlt,
      hholds.table_eq _ htable hother]
  have hroot : (l.copyFor id number target).program.symbols.table p.rootTable =
      l.program.symbols.table p.rootTable := by
    rw [symbols_copyFor, SymbolStore.table_push_of_lt]
    exact Nat.lt_of_lt_of_le hholds.rootTable_lt hholds.size_symbols_le
  have hid : l.program.instances.size ≠ Program.root :=
    (Nat.lt_of_lt_of_le hholds.root_lt hholds.size_le).ne'
  constructor
  · intro line hline name hname
    rw [hcopy]
    exact h.single line hline name hname
  · intro line hline name hname
    rw [Known, hcopy, hroot]
    rcases h.known line hline name hname with hown | ⟨-, ⟨x, hx, hdef⟩ | himport⟩
    · exact .inl hown
    · exact .inr ⟨hid, .inl (hkept name x hx hdef)⟩
    · exact .inr ⟨hid, .inr himport⟩

/-- Lines are linked if their labels and operands can be bound, and those of the instances that they
call, and if there is room for the expansion. -/
theorem exists_links {good : Nat → Prop} (he : p.Expands lines e) (hrec : Recorded p)
    (hfrom : ImportsFrom p imports)
    (hgood : ∀ t, good t → t ≠ Program.root ∧ t < p.instances.size ∧
      Bindable p imports p.symbols t (p.inst t).table (p.inst t).lines ∧
      ∀ b, p.Calls t b → good b)
    (hregular : ∀ line ∈ e, line.statement.Regular) (hholds : Holds p id table l)
    (himports : l.imports = imports) (hkept : KeepsRoot p l.program.symbols)
    (hbindable : Bindable p imports l.program.symbols id table lines)
    (hcalls : ∀ line ∈ lines, ∀ t, line.statement.target? = some t → good t)
    (hfits : layoutEnd l.next e ≤ 0xFFFF) :
    ∃ l' lines', Links p id table l lines l' lines' ∧ (l'.next : Int) = layoutEnd l.next e := by
  induction he generalizing id table l with
  | nil => exact ⟨l, [], .nil hholds, rfl⟩
  | @plain line rest e hline _ ih =>
    subst himports
    rw [List.forall_mem_cons] at hregular
    obtain ⟨l₁, hbind⟩ := hbindable.exists_binds hholds hfrom
    have hlater := hbind.later hholds
    have hnext : l.next ≤ 0xFFFF := by
      have hle : l.next ≤ layoutEnd l.next (line :: e) := le_layoutEnd
      omega
    have hsize : ((l.here line).size l₁.program.symbols table).toNat =
        (line.statement.startingAt l.next).extent := by
      rw [here, Links.toNat_address hnext]
      exact (hregular.1.startingAt _).size_eq _ _
    rw [layoutEnd] at hfits ⊢
    have hskip : ((l₁.skip ((l.here line).size l₁.program.symbols table).toNat).next : Int) =
        l.next + (line.statement.startingAt l.next).extent := by
      rw [skip, hsize, hbind.next_eq]
      push_cast
      rfl
    obtain ⟨l', rest', hlinks, hend⟩ := ih hregular.2 ((hholds.binds hbind).skip _)
      hbind.symbolsOnly.imports_eq (hkept.later hlater) (hbindable.tail.later hlater)
      (fun other hother => hcalls other (List.mem_cons_of_mem _ hother)) (by rwa [hskip])
    refine ⟨l', _, .plain hholds hline hbind ?_ hlinks, by rw [hend, hskip]⟩
    have hle : l.next + (line.statement.startingAt l.next).extent ≤
        layoutEnd (l.next + (line.statement.startingAt l.next).extent) e := le_layoutEnd
    rw [skip] at hskip
    dsimp only at hskip
    omega
  | @call line rest body e target ht hbody hrest ihbody ihrest =>
    subst himports
    obtain ⟨name, args, hcall⟩ := Statement.eq_call_of_target? ht
    rw [List.forall_mem_cons, List.forall_mem_append] at hregular
    obtain ⟨hne, hlt, htarget, hcalled⟩ := hgood target (hcalls line List.mem_cons_self target ht)
    obtain ⟨l₁, hbind⟩ := hbindable.exists_binds hholds hfrom
    have hholds₁ := hholds.binds hbind
    have hlater := hbind.later hholds
    have hkept₁ := hkept.later hlater
    have himports₁ : l₁.imports = l.imports := hbind.symbolsOnly.imports_eq
    rw [layoutEnd, Statement.extent_of_target? (by rwa [Statement.target?_startingAt]), layoutEnd_append]
      at hfits ⊢
    rw [Int.natCast_zero, Int.add_zero] at hfits ⊢
    have hnext₁ : ((l₁.copyFor id line.number target).next : Int) = l.next := by
      rw [next_copyFor, hbind.next_eq]
    obtain ⟨l₂, lines₂, hlinks₂, hend₂⟩ := ihbody hregular.2.1 hholds₁.copyFor
      (show (l₁.copyFor id line.number target).imports = l.imports from himports₁)
      (hkept₁.copyFor hholds₁) (htarget.copyFor hholds₁ hkept₁ hrec hne hlt)
      (fun other hother t ht => hcalled t (List.mem_filterMap.2 ⟨other, hother, ht⟩))
      (by rw [hnext₁]; exact le_layoutEnd.trans hfits)
    rw [hnext₁] at hend₂
    have hsize := hlinks₂.size_le
    rw [size_copyFor] at hsize
    -- The instance at hand sees nothing of the copy but what it has left in the root.
    have hlater₂ : Later p.rootTable table [] l₁.program.symbols l₂.program.symbols :=
      hlinks₂.later.of_push (Nat.lt_of_lt_of_le hholds₁.rootTable_lt hholds₁.size_symbols_le)
        hholds₁.table_lt
    obtain ⟨l', rest', hlinks, hend⟩ := ihrest (l := l₂.store l₁.program.instances.size lines₂)
      hregular.2.2 (hholds₁.store hlinks₂.holds' hsize)
      (hlinks₂.imports_eq.trans himports₁) (hkept₁.later hlater₂)
      ((hbindable.tail.later hlater).later hlater₂)
      (fun other hother => hcalls other (List.mem_cons_of_mem _ hother))
      (by rw [next_store, hend₂]; exact hfits)
    rw [next_store, hend₂] at hend
    exact ⟨l', _, .call hholds hcall hne hlt hbind hlinks₂ hlinks, hend⟩

/-! ### What has been linked -/

namespace Links

/-- Every instance that the lines call, directly or not, has been copied. -/
lemma exists_copy (h : Links p id table l lines l' lines') (hline : line ∈ lines) {t b : Nat}
    (ht : line.statement.target? = some t) (hreach : p.Reaches t b) :
    ∃ j, l.program.instances.size ≤ j ∧ j < l'.program.instances.size ∧
      CopyOf p b (l'.program.inst j) := by
  induction h generalizing line t with
  | nil => cases hline
  | plain _ hplain hbind _ _ ih =>
    rcases List.mem_cons.1 hline with rfl | hline
    · rw [hplain] at ht
      cases ht
    · obtain ⟨j, hlo, hhi, hcopy⟩ := ih hline ht hreach
      rw [skip, hbind.instances_eq] at hlo
      exact ⟨j, hlo, hhi, hcopy⟩
  | @call _ _ target _ l₁ l₂ l' first _ _ rest _ _ hholds hcall hroot htarget hbind hbody hrest ihbody ihrest =>
    have hsize := hbody.size_le
    have hsize' := hrest.size_le
    rw [size_copyFor] at hsize
    rw [size_store] at hsize'
    rw [← hbind.instances_eq]
    rcases List.mem_cons.1 hline with rfl | hline
    · obtain rfl : target = t := by
        rw [hcall] at ht
        exact Option.some.inj ht
      rcases hreach.cases_head with rfl | ⟨c, hcalls, hreach⟩
      · refine ⟨l₁.program.instances.size, Nat.le_refl _, by omega, ?_⟩
        rw [inst_copy rfl hbody hrest, (hholds.binds hbind).inst_eq target htarget]
        exact ⟨hroot, htarget, rfl, rfl, hbody.shapes⟩
      · obtain ⟨inner, hinner, hc⟩ := List.mem_filterMap.1 hcalls
        obtain ⟨j, hlo, hhi, hcopy⟩ := ihbody hinner hc hreach
        rw [size_copyFor] at hlo
        refine ⟨j, by omega, by omega, ?_⟩
        rwa [hrest.inst_eq (by rwa [size_store]), inst_store_ne (by omega)]
    · obtain ⟨j, hlo, hhi, hcopy⟩ := ihrest hline ht hreach
      rw [size_store] at hlo
      exact ⟨j, by omega, hhi, hcopy⟩

/-- The lines have an expansion, and linking ends where the expansion does. -/
lemma next_eq (h : Links p id table l lines l' lines') (hnext : l.next ≤ 0xFFFF)
    (hlines : ∀ line ∈ lines, line.statement.Regular)
    (hp : ∀ j < p.instances.size, ∀ line ∈ (p.inst j).lines, line.statement.Regular) :
    ∃ e, p.Expands lines e ∧ (l'.next : Int) = layoutEnd l.next e := by
  induction h with
  | nil => exact ⟨[], .nil, rfl⟩
  | @plain id table l l₁ l' line rest rest' _ hline hbind hroom hrest ih =>
    rw [List.forall_mem_cons] at hlines
    have hsize : ((l.here line).size l₁.program.symbols table).toNat =
        (line.statement.startingAt l.next).extent := by
      rw [here, toNat_address hnext]
      exact (hlines.1.startingAt _).size_eq _ _
    obtain ⟨e, hexp, hend⟩ := ih hroom hlines.2
    refine ⟨line :: e, .plain hline hexp, ?_⟩
    rw [hend, skip, hsize, hbind.next_eq, layoutEnd]
    push_cast
    rfl
  | @call id table target l l₁ l₂ l' line name args rest rest' body _ hcall _ htarget hbind hbody hrest ihbody
      ihrest =>
    rw [List.forall_mem_cons] at hlines
    have ht : line.statement.target? = some target := by
      rw [hcall]
      rfl
    have hnext₁ : (l₁.copyFor id line.number target).next = l.next := hbind.next_eq
    obtain ⟨e₁, hexp₁, hend₁⟩ := ihbody (by rwa [hnext₁]) (hp target htarget)
    obtain ⟨e₂, hexp₂, hend₂⟩ := ihrest (hbody.next_le (by rwa [hnext₁])) hlines.2
    refine ⟨line :: (e₁ ++ e₂), .call ht hexp₁ hexp₂, ?_⟩
    rw [hend₂, next_store, hend₁, hnext₁, layoutEnd,
      Statement.extent_of_target? (by rwa [Statement.target?_startingAt]), layoutEnd_append,
      Int.natCast_zero, Int.add_zero]

end Links

end Linker

/-! ### Programs -/

/-- A name has an exported value exactly if it is exported. -/
lemma exportedValue?_eq_none_iff {exports : List ExportedSymbol} {name : String} :
    exportedValue? exports name = none ↔ ∀ e ∈ exports, e.name ≠ name := by
  simp [exportedValue?]

lemma mem_of_exportedValue? {exports : List ExportedSymbol} {name : String} {v : UInt16}
    (h : exportedValue? exports name = some v) : ⟨name, v⟩ ∈ exports := by
  obtain ⟨e, hfind, rfl⟩ := Option.map_eq_some_iff.1 h
  obtain rfl : e.name = name := by simpa using List.find?_some hfind
  exact List.mem_reverse.1 (List.mem_of_find?_eq_some hfind)

namespace Program

open Linker (Links Bindable Known importedFrom)

variable {p : Program} {lib : MacroLibrary} {text : String} {kind : ModuleKind} {id : Nat}
  {exports : Option (List ExportedSymbol)} {options : Options}

/-- The names that an instance declares. -/
def labels (p : Program) (id : Nat) : List String := (p.inst id).lines.filterMap Line.label

/-- A program without faults: no module declares a name twice, the root declares no exported name,
operands are declared in their module, in the root or among the exports, and the expansion finds
room in memory. -/
structure Linkable (p : Program) (exports : List ExportedSymbol) : Prop where
  nodup : ∀ id, p.Reaches root id → (p.labels id).Nodup
  unexported : ∀ e ∈ exports, e.name ∉ p.labels root
  resolvable : ∀ id, p.Reaches root id → ∀ line ∈ (p.inst id).lines, ∀ name,
    line.statement.symbol? = some name →
      name ∈ p.labels id ∨ name ∈ p.labels root ∨ ∃ e ∈ exports, e.name = name
  fits : layoutEnd 0 ((p.sites root).map Site.line) ≤ 0xFFFF

/-- A name that an instance declares once is recorded as such. -/
lemma Ready.exists_single (h : Ready text kind lib p) (hid : id < p.instances.size)
    (hnodup : (p.labels id).Nodup) {name : String} (hname : name ∈ p.labels id) :
    ∃ x, (p.symbols.table id).find? name = some x ∧ x.multiplyDefined = false ∧ x.defined = true := by
  have hrec := h.records id hid
  have hdeclare := Line.declare_mem_flatMap.2 (List.mem_filterMap.1 hname)
  obtain ⟨x, hx⟩ := hrec.found (.inl hdeclare)
  refine ⟨x, hx, ?_, (hrec.defined_iff hx).2 hdeclare⟩
  rw [← Bool.not_eq_true, hrec.twice_iff hx, Line.count_declare_flatMap, Nat.not_lt]
  exact List.nodup_iff_count_le_one.1 hnodup name

/-- A name that the root declares is declared there from the start. -/
lemma Ready.exists_defined_start (h : Ready text kind lib p) (exports : Option (List ExportedSymbol))
    {name : String} (hname : name ∈ p.labels root) :
    ∃ x, ((Linker.start p exports).program.symbols.table root).find? name = some x ∧ x.defined = true := by
  have hrec := h.records root h.root_lt
  have hdeclare := Line.declare_mem_flatMap.2 (List.mem_filterMap.1 hname)
  obtain ⟨x, hx⟩ := hrec.found (.inl hdeclare)
  obtain ⟨x', hx', ⟨rfl, -⟩ | ⟨hdef, -⟩⟩ := h.exists_find?_start exports hx
  · exact ⟨x', hx', (hrec.defined_iff hx).2 hdeclare⟩
  · exact ⟨x', hx', hdef⟩

/-- An exported name can be imported. -/
lemma Ready.exists_imported (h : Ready text kind lib p) {e : ExportedSymbol}
    (he : e ∈ availableExports kind exports) :
    ∃ ref, importedFrom (Linker.start p exports).program (Linker.start p exports).imports e.name =
      some ref := by
  rcases h.rooted.start_cases exports with ⟨-, -, hnone⟩ | ⟨himports, -⟩
  · rw [hnone] at he
    cases he
  · cases hindex : (Linker.importTable (availableExports kind exports)).indexOf? e.name with
    | none => exact absurd rfl (exportedValue?_eq_none_iff.1 (Linker.exportedValue?_of_indexOf? hindex) e he)
    | some k =>
      have htable := (h.rooted.table_imports himports).2.2
      rw [himports, importedFrom, Option.bind_some, htable, hindex]
      exact ⟨_, rfl⟩

/-- In a program without faults the labels and operands of the root can be bound. -/
lemma Linkable.bindable_root (h : p.Linkable (availableExports kind exports)) (hready : Ready text kind lib p) :
    Bindable (Linker.start p exports).program (Linker.start p exports).imports
      (Linker.start p exports).program.symbols root root (p.inst root).lines := by
  constructor
  · intro line hline name hname
    have hmem : name ∈ p.labels root := List.mem_filterMap.2 ⟨line, hline, hname⟩
    obtain ⟨x, hx, hsingle, -⟩ := hready.exists_single hready.root_lt (h.nodup root .refl) hmem
    obtain ⟨x', hx', ⟨rfl, -⟩ | ⟨-, v, hv⟩⟩ := hready.exists_find?_start exports hx
    · exact ⟨x', hx', hsingle⟩
    · rw [exportedValue?_eq_none_iff.2 fun e he heq => h.unexported e he (heq ▸ hmem)] at hv
      cases hv
  · intro line hline name hname
    have hrec := hready.records root hready.root_lt
    obtain ⟨x, hx⟩ := hrec.found (.inr (List.mem_flatMap.2 ⟨line, hline, Line.mention_mem_marks hname⟩))
    rcases h.resolvable root .refl line hline name hname with hmem | hmem | ⟨e, he, rfl⟩
    · exact .inl (hready.exists_defined_start exports hmem)
    · exact .inl (hready.exists_defined_start exports hmem)
    · obtain ⟨x', hx', ⟨-, hnone⟩ | ⟨hdef, -⟩⟩ := hready.exists_find?_start exports hx
      · exact absurd rfl (exportedValue?_eq_none_iff.1 hnone e he)
      · exact .inl ⟨x', hx', hdef⟩

/-- In a program without faults the labels and operands of a called instance can be bound. -/
lemma Linkable.bindable (h : p.Linkable (availableExports kind exports)) (hready : Ready text kind lib p)
    (hid : id < p.instances.size) (hne : id ≠ root) (hreach : p.Reaches root id) :
    Bindable (Linker.start p exports).program (Linker.start p exports).imports
      (Linker.start p exports).program.symbols id (p.inst id).table (p.inst id).lines := by
  rw [hready.table_eq id hid]
  constructor
  · intro line hline name hname
    rw [hready.table_start exports hid hne]
    obtain ⟨x, hx, hsingle, -⟩ := hready.exists_single hid (h.nodup id hreach)
      (List.mem_filterMap.2 ⟨line, hline, hname⟩)
    exact ⟨x, hx, hsingle⟩
  · intro line hline name hname
    rw [Known, hready.table_start exports hid hne, hready.rootTable_start exports]
    rcases h.resolvable id hreach line hline name hname with hmem | hmem | ⟨e, he, rfl⟩
    · obtain ⟨x, hx, -, hdef⟩ := hready.exists_single hid (h.nodup id hreach) hmem
      exact .inl ⟨x, hx, hdef⟩
    · exact .inr ⟨hne, .inl (hready.exists_defined_start exports hmem)⟩
    · exact .inr ⟨hne, .inr (hready.exists_imported he)⟩

lemma Expands.congr {q : Program} {lines e : List Line} (h : p.Expands lines e)
    (hinst : ∀ j, (q.inst j).lines = (p.inst j).lines) : q.Expands lines e := by
  induction h with
  | nil => exact .nil
  | plain hline _ ih => exact .plain hline ih
  | call hline _ _ ihbody ihrest =>
    refine .call hline ?_ ihrest
    rw [hinst]
    exact ihbody

/-- What holds of the lines and of all lines of instances holds of the expansion. -/
lemma Expands.forall_mem {P : Line → Prop} {lines e : List Line} (h : p.Expands lines e)
    (hlines : ∀ line ∈ lines, P line) (hp : ∀ j < p.instances.size, ∀ line ∈ (p.inst j).lines, P line) :
    ∀ line ∈ e, P line := by
  induction h with
  | nil => exact hlines
  | plain _ _ ih =>
    rw [List.forall_mem_cons] at hlines ⊢
    exact ⟨hlines.1, ih hlines.2⟩
  | @call line rest body e target _ _ _ ihbody ihrest =>
    rw [List.forall_mem_cons] at hlines ⊢
    rw [List.forall_mem_append]
    refine ⟨hlines.1, ihbody ?_, ihrest hlines.2⟩
    rcases Nat.lt_or_ge target p.instances.size with hlt | hge
    · exact hp target hlt
    · rw [lines_of_size_le hge]
      exact List.forall_mem_nil _

/-- What the lines of the root call, directly or not, can be reached. -/
lemma Reaches.of_line {line : Line} {t b : Nat} (hline : line ∈ (p.inst root).lines)
    (ht : line.statement.target? = some t) (hreach : p.Reaches t b) : p.Reaches root b :=
  .head (List.mem_filterMap.2 ⟨line, hline, ht⟩) hreach

/-- The root of a program without faults is linked. -/
lemma Linkable.exists_links (h : p.Linkable (availableExports kind exports)) (hready : Ready text kind lib p)
    {rank : Nat → Nat} (hdescends : p.Descends rank) :
    ∃ l lines, Links (Linker.start p exports).program root root (Linker.start p exports)
      (p.inst root).lines l lines := by
  have hexp : (Linker.start p exports).program.Expands (p.inst root).lines ((p.sites root).map Site.line) :=
    (hdescends.expands_sites hready.root_lt).congr fun j => by rw [inst_start]
  have hgood : ∀ t, t ≠ root ∧ p.Reaches root t → t ≠ root ∧
      t < (Linker.start p exports).program.instances.size ∧
      Bindable (Linker.start p exports).program (Linker.start p exports).imports
        (Linker.start p exports).program.symbols t ((Linker.start p exports).program.inst t).table
        ((Linker.start p exports).program.inst t).lines ∧
      ∀ b, (Linker.start p exports).program.Calls t b → b ≠ root ∧ p.Reaches root b := by
    rintro t ⟨hne, hreach⟩
    have hlt : t < p.instances.size := by
      rcases hreach.cases_tail with rfl | ⟨a, -, hcalls⟩
      · exact absurd rfl hne
      · exact (hdescends.calls hcalls).1
    rw [instances_start, inst_start]
    refine ⟨hne, hlt, h.bindable hready hlt hne hreach, fun b hb => ?_⟩
    rw [Calls, callsOf, inst_start] at hb
    obtain ⟨line, hline, ht⟩ := List.mem_filterMap.1 hb
    exact ⟨(hdescends t line hline b ht).1, hreach.tail hb⟩
  have hregular : ∀ line ∈ (p.sites root).map Site.line, line.statement.Regular :=
    hexp.forall_mem (fun line hline => hready.regular hready.root_lt hline) fun j hj line hline => by
      rw [inst_start] at hline
      rw [instances_start] at hj
      exact hready.regular hj hline
  obtain ⟨l, lines, hlinks, -⟩ := Linker.exists_links hexp (hready.recorded exports)
    (hready.importsFrom exports) hgood hregular (hready.holds exports) rfl
    (fun name x hx hdef => ⟨x, hx, hdef⟩) (h.bindable_root hready)
    (fun line hline t ht => ⟨(hdescends root line hline t ht).1, .of_line hline ht .refl⟩)
    (by rw [next_start]; exact h.fits)
  exact ⟨l, lines, hlinks⟩

/-- If the root can be linked, then the linker does so, provided that called instances rank below
their callers. -/
lemma Rooted.linkInstance_eq (h : p.Rooted kind) {rank : Nat → Nat}
    (hrank : ∀ j < p.instances.size, rank j < p.instances.size ∧ p.CallsBelow rank (rank j) (p.inst j).lines)
    {l : Linker} {lines : List Line}
    (hlinks : Links (Linker.start p exports).program root root (Linker.start p exports)
      (p.inst root).lines l lines) :
    Linker.linkInstance p.instances.size (Linker.start p exports) root = (l.store root lines, []) := by
  have hbelow : ∀ j < (Linker.start p exports).program.instances.size,
      (Linker.start p exports).program.CallsBelow rank (rank j)
        ((Linker.start p exports).program.inst j).lines := by
    intro j hj
    rw [instances_start] at hj
    rw [inst_start]
    intro line hline target ht
    rw [instances_start]
    exact (hrank j hj).2 line hline target ht
  obtain ⟨depth, hdepth⟩ := Nat.exists_eq_add_one_of_ne_zero (Nat.ne_zero_of_lt h.root_lt)
  have hlow := (hrank root h.root_lt).1
  have hlines : Linker.linkLines (Linker.linkInstance depth) root root (Linker.start p exports)
      (p.inst root).lines = (l, lines, []) :=
    hlinks.linkLines_eq hbelow fun line hline target ht => by
      obtain ⟨hne, hlt, hlt'⟩ := (hrank root h.root_lt).2 line hline target ht
      rw [instances_start]
      exact ⟨hne, hlt, by omega⟩
  have htable : (p.inst root).table = root := h.root_table
  rw [hdepth, Linker.linkInstance, inst_start, htable]
  dsimp only
  rw [hlines]
  rfl

/-- A program is linked without a report if its root is and what comes behind that succeeds. -/
lemma link_eq_of_finishLink {l : Linker}
    (hpass : Linker.linkInstance p.instances.size (Linker.start p exports) root = (l, [])) {q : Program}
    (hfinish : l.program.finishLink l.next options = (q, [])) : p.link exports options = (q, []) := by
  rw [link, hpass]
  simp only [List.isEmpty_nil, if_true, hfinish]
  rfl

/-- Nothing is reported of a user program behind the first pass if it has no `.BURN`. -/
lemma finishLink_of_user (hsystem : p.isSystem = false)
    (hburn : ∀ line ∈ (p.inst root).lines, line.statement.isBurn = false) (next : Nat) (options : Options) :
    p.finishLink next options = (p, []) := by
  have hnone : (p.inst root).lines.filter (fun line => line.statement.isBurn) = [] := by
    rw [List.filter_eq_nil_iff]
    intro line hline
    rw [hburn line hline]
    exact Bool.false_ne_true
  rw [finishLink, hsystem, hnone]
  rfl

/-- Lines of the same shapes have no `.BURN` either. -/
lemma not_isBurn_of_shapes {lines lines' : List Line} (h : lines'.map Line.shape = lines.map Line.shape)
    (hlines : ∀ line ∈ lines, line.statement.isBurn = false) : ∀ line ∈ lines', line.statement.isBurn = false := by
  refine forall_of_shapes (fun {line line'} hshape hline => ?_) h hlines
  rwa [← Statement.isBurn_shape, ← Line.statement_shape, ← hshape, Line.statement_shape, Statement.isBurn_shape]

/-- A user program whose root is linked is linked without a report. -/
lemma Ready.link_eq (h : Ready text .userProgram lib p) (options : Options) {l : Linker} {lines : List Line}
    (hlinks : Links (Linker.start p exports).program root root (Linker.start p exports)
      (p.inst root).lines l lines) :
    p.link exports options = ((l.store root lines).program, []) := by
  obtain ⟨rank, hrank⟩ := h.ranked
  have hburn : ∀ line ∈ lines, line.statement.isBurn = false := by
    refine not_isBurn_of_shapes hlinks.shapes fun line hline => ?_
    obtain ⟨lib', n, hyields⟩ := h.yields h.root_lt hline
    exact hyields.noBurn (by change p.isSystem = false; rw [isSystem, h.root_kind]; rfl)
  refine link_eq_of_finishLink (h.rooted.linkInstance_eq hrank hlinks)
    (finishLink_of_user (h.isSystem_store (by decide) hlinks) ?_ _ _)
  rw [inst_root_store hlinks]
  exact hburn

/-! ### What linking has accepted -/

/-- A name that an operand denotes is declared or exported. -/
lemma mem_labels_of_denotes {name : String} {v : UInt16} {exported : List ExportedSymbol}
    {own lines : List Line}
    (h : Denotes own lines exported name v) :
    name ∈ own.filterMap Line.label ∨ name ∈ lines.filterMap Line.label ∨ ∃ e ∈ exported, e.name = name := by
  rcases h with ⟨hown, -⟩ | ⟨-, hroot, -⟩ | ⟨-, -, hexported⟩
  · exact .inl (List.mem_filterMap.2 hown)
  · exact .inr (.inl (List.mem_filterMap.2 hroot))
  · exact .inr (.inr ⟨_, mem_of_exportedValue? hexported, rfl⟩)

lemma reaches_start (exports : Option (List ExportedSymbol)) :
    (Linker.start p exports).program.Reaches = p.Reaches := by
  have hcalls : (Linker.start p exports).program.Calls = p.Calls := by
    funext a b
    rw [Calls, Calls, callsOf, callsOf, inst_start]
  rw [Reaches, Reaches, hcalls]

/-- Every instance that can be reached from the root has been linked, itself or as a copy: its
labels are different, and its operands denote something. -/
lemma Ready.exists_linked (h : Ready text kind lib p) {l : Linker} {lines : List Line}
    (hlinks : Links (Linker.start p exports).program root root (Linker.start p exports)
      (p.inst root).lines l lines) (hreach : p.Reaches root id) :
    ∃ linked : List Line, linked.map Line.shape = (p.inst id).lines.map Line.shape ∧
      (linked.filterMap Line.label).Nodup ∧
      ∀ line ∈ linked, ∀ name, line.statement.symbol? = some name →
        ∃ v, Denotes linked ((l.store root lines).program.inst root).lines (availableExports kind exports)
          name v := by
  have hresolved := h.resolved hlinks
  rcases hreach.cases_head with rfl | ⟨t, hcalls, hreach⟩
  · refine ⟨((l.store root lines).program.inst root).lines, ?_, hresolved.root_nodup,
      fun line hline name hname => ?_⟩
    · rw [inst_root_store hlinks]
      exact hlinks.shapes
    · obtain ⟨v, -, hv⟩ := hresolved.denotes_root hline hname
      exact ⟨v, hv⟩
  · obtain ⟨line, hline, ht⟩ := List.mem_filterMap.1 hcalls
    obtain ⟨j, hlo, hhi, hcopy⟩ := hlinks.exists_copy hline ht (by rwa [reaches_start])
    rw [instances_start] at hlo
    have hother : (l.store root lines).program.inst j = l.program.inst j :=
      Linker.inst_store_ne (Nat.ne_of_gt (Nat.lt_of_lt_of_le h.root_lt hlo))
    have hj : j < (l.store root lines).program.instances.size := by rwa [Linker.size_store]
    refine ⟨((l.store root lines).program.inst j).lines, ?_, (hresolved.closed j hlo hj).nodup,
      fun line hline name hname => ?_⟩
    · rw [hother, hcopy.shapes, inst_start]
    · obtain ⟨v, -, hv⟩ := hresolved.denotes_copy hlo hj hline hname
      exact ⟨v, hv⟩

/-- What has been linked has no fault. -/
lemma Ready.linkable (h : Ready text kind lib p) {rank : Nat → Nat} (hdescends : p.Descends rank) {l : Linker}
    {lines : List Line}
    (hlinks : Links (Linker.start p exports).program root root (Linker.start p exports)
      (p.inst root).lines l lines) : p.Linkable (availableExports kind exports) := by
  have hroot : ((l.store root lines).program.inst root).lines.filterMap Line.label = p.labels root := by
    rw [inst_root_store hlinks]
    exact labels_of_shapes hlinks.shapes
  constructor
  · intro id hreach
    obtain ⟨linked, hshapes, hnodup, -⟩ := h.exists_linked hlinks hreach
    rwa [labels_of_shapes hshapes] at hnodup
  · intro e he hmem
    obtain ⟨line, hline, hname⟩ := List.mem_filterMap.1 hmem
    have hnone := (h.prepared_root hlinks.single).2 line hline e.name hname
    exact exportedValue?_eq_none_iff.1 hnone e he rfl
  · intro id hreach line hline name hname
    obtain ⟨linked, hshapes, -, hdenotes⟩ := h.exists_linked hlinks hreach
    obtain ⟨line', hline', hshape⟩ := exists_shape_eq hshapes.symm hline
    obtain ⟨v, hv⟩ := hdenotes line' hline' name (by rwa [Line.symbol?_of_shape hshape])
    have hcases := mem_labels_of_denotes hv
    rwa [labels_of_shapes hshapes, hroot] at hcases
  · have hnext : (Linker.start p exports).next ≤ 0xFFFF := by
      rw [next_start]
      exact Nat.zero_le _
    obtain ⟨e, hexp, hend⟩ := hlinks.next_eq hnext (fun line hline => h.regular h.root_lt hline)
      fun j hj line hline => by
        rw [instances_start] at hj
        rw [inst_start] at hline
        exact h.regular hj hline
    have hexp' : p.Expands (p.inst root).lines e := hexp.congr fun j => by rw [inst_start]
    rw [(hdescends.expands_sites h.root_lt).unique hexp']
    rw [next_start] at hend
    have hle := hlinks.next_le hnext
    have hend' : (l.next : Int) = layoutEnd 0 e := hend
    omega

end Program

end Pep10
