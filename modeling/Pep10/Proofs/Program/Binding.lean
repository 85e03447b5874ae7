import Pep10.Proofs.Program.Placement

/-!
# The symbols of linked lines

Every line that has been linked without a fault is bound, and it stays bound until the end.  The
argument follows `Links`: a step binds its line (`Binds.bound`), and what comes later binds other
labels of the same table, or works in the tables of other instances.

Linking also tells what the root declares at the end: its own labels, and imports (`RootDeclares`).
-/

namespace Pep10.Linker

open SymbolStore (Later)

variable {p : Program} {id table target number : Nat} {l l₁ l₂ l' : Linker} {line : Line}
  {lines lines' body : List Line} {name : String} {x : Symbol}

/-! ### What linking keeps of the symbols -/

/-- Linking lines binds their labels. -/
lemma Links.later (h : Links p id table l lines l' lines') :
    Later p.rootTable table (addressLabels lines) l.program.symbols l'.program.symbols := by
  induction h with
  | nil => exact .refl ..
  | plain hholds _ hbind _ _ ih =>
    rw [addressLabels_cons]
    have hline := hbind.later hholds
    rw [here, Line.addressLabel?_startingAt] at hline
    exact hline.trans ih
  | @call id table target l l₁ l₂ l' line _ _ _ _ _ hholds _ _ _ hbind _ _ ihbody ihrest =>
    rw [addressLabels_cons]
    have hline := hbind.later hholds
    rw [here, Line.addressLabel?_startingAt] at hline
    have hholds₁ := hholds.binds hbind
    have hbody : Later p.rootTable table [] l₁.program.symbols l₂.program.symbols := by
      refine ihbody.of_push ?_ hholds₁.table_lt
      exact Nat.lt_of_lt_of_le hholds₁.rootTable_lt hholds₁.size_symbols_le
    exact hline.trans (hbody.trans ihrest)

/-- The first of some linked lines is bound, and the others are linked behind it.  In between no
label of the table is bound. -/
lemma Links.uncons {rest : List Line} (h : Links p id table l (line :: rest) l' lines') :
    ∃ l₁ l₂ line' rest', lines' = line' :: rest' ∧ Binds id table l (l.here line) l₁ ∧
      Later p.rootTable table [] l₁.program.symbols l₂.program.symbols ∧
      Links p id table l₂ rest l' rest' ∧ line'.label = line.label ∧
      line'.statement.symbol? = line.statement.symbol? ∧
      ∀ v, (l.here line).Gives v → line'.Gives v := by
  cases h with
  | plain hholds hline hbind _ hrest =>
    refine ⟨_, _, _, _, rfl, hbind, ?_, hrest, rfl, ?_, fun _ h => h⟩
    · exact .refl ..
    rw [here, Line.statement_startingAt, Statement.symbol?_startingAt]
  | @call _ _ target _ l₁ l₂ _ _ name args _ _ body hholds hline _ _ hbind hbody hrest =>
    have hholds₁ := hholds.binds hbind
    have hlater : Later p.rootTable table [] l₁.program.symbols l₂.program.symbols :=
      hbody.later.of_push
        (Nat.lt_of_lt_of_le hholds₁.rootTable_lt hholds₁.size_symbols_le) hholds₁.table_lt
    refine ⟨_, _, _, _, rfl, hbind, ?_, hrest, rfl, by rw [hline]; rfl, fun v hv => ?_⟩
    · exact hlater
    have hequate : (l.here line).statement.isEquate = false := by
      rw [here, Line.statement_startingAt, Statement.isEquate_startingAt, hline]
      rfl
    rwa [Line.gives_of_not_isEquate hequate] at hv

/-- No label of a line that is linked is declared twice. -/
lemma Links.single (h : Links p id table l lines l' lines') :
    ∀ line ∈ lines, ∀ name x, line.label = some name →
      (l.program.symbols.table table).find? name = some x → x.multiplyDefined = false := by
  induction lines generalizing l lines' with
  | nil =>
    intro line hline
    cases hline
  | cons first rest ih =>
    intro line hline name x hname hx
    obtain ⟨l₁, l₂, _, _, -, hbind, hlater, hrest, -⟩ := h.uncons
    rcases List.mem_cons.1 hline with rfl | hmem
    · obtain ⟨_, hlabel, -⟩ := hbind
      rcases bindLabel_eq_ok hlabel with ⟨hnone, -⟩ | ⟨other, hother, hbound⟩
      · rw [here, Line.label_startingAt, hname] at hnone
        cases hnone
      · rw [here, Line.label_startingAt, hname] at hother
        cases hother
        rw [hx] at hbound
        rcases hbound with ⟨hnone, -⟩ | ⟨y, hy, hsingle, -⟩
        · cases hnone
        · cases hy
          exact hsingle
    · obtain ⟨x', hx', hmult, -⟩ := ((hbind.later h.holds).trans hlater).symbol hx
      rw [← hmult]
      exact ih hrest line hmem name x' hname hx'

/-! ### Linked lines are bound -/

/-- A label has the value that its line gives once it has been bound. -/
lemma bindLabel_gives (hholds : Holds p id table l) (h : l.bindLabel table (l.here line) = .ok l₁)
    (hname : line.label = some name) (hx : (l.program.symbols.table table).find? name = some x)
    (hdef : x.defined = true) (hconst : ∀ operand, line.statement = .directive .equate operand →
      x.value = .numeric operand.constant) :
    ∃ y v, (l₁.program.symbols.table table).find? name = some y ∧ y.defined = true ∧
      y.value.IsWord v ∧ (l.here line).Gives v := by
  rcases bindLabel_eq_ok h with ⟨hnone, -⟩ | ⟨other, hother, hbound⟩
  · rw [here, Line.label_startingAt, hname] at hnone
    cases hnone
  · rw [here, Line.label_startingAt, hname] at hother
    cases hother
    rw [hx] at hbound
    rcases hbound with ⟨hnone, -⟩ | ⟨y, hy, -, rfl⟩
    · cases hnone
    · cases hy
      rw [here, Line.statement_startingAt, Statement.isEquate_startingAt]
      split
      next hequate =>
        obtain ⟨operand, hst⟩ := Line.exists_of_isEquate hequate
        refine ⟨x, operand.constant, hx, hdef, .inl (hconst operand hst), ?_⟩
        rw [Line.gives_of_isEquate]
        rw [Line.statement_startingAt, hst]
        rfl
      next hequate =>
        refine ⟨{ x with value := .location l.address 0 }, l.address, ?_, hdef, .inr rfl, ?_⟩
        · rw [symbols_modifyTable, SymbolStore.table_modify_self hholds.table_lt,
            SymbolTable.find?_assign_self, hx]
          rfl
        · rw [Line.gives_of_not_isEquate (by simpa using hequate)]
          intro a ha
          rw [Line.eq_ofInt_of_address ha, ofInt_toNat]

/-- A line is bound by the step that links it. -/
lemma Binds.bound {rest : List Line} (h : Binds id table l (l.here line) l₁)
    (hholds : Holds p id table l) (hprep : Prepared (l.program.symbols.table table) (line :: rest)) :
    Bound p.rootTable l₁.program.symbols table (l.here line) := by
  obtain ⟨l₀, hlabel, hoperand⟩ := h
  have hlater := later_bindLabel hholds hlabel
  have hholds₀ := hholds.later (symbolsOnly_bindLabel hlabel) hlater
  obtain ⟨hkeep, hbound⟩ := bindOperand_bound hholds₀ hoperand
  refine ⟨fun name hname => ?_, fun name hname => ?_⟩
  · obtain ⟨x, hx, hdef, hconst⟩ := hprep.label line List.mem_cons_self name hname
    obtain ⟨y, v, hy, hdef', hword, hgives⟩ := bindLabel_gives hholds hlabel hname hx hdef hconst
    obtain ⟨z, hz, -, hv⟩ := hkeep.symbol hy
    obtain ⟨hdef'', hval | hmem⟩ := hv hdef'
    · exact ⟨z, v, hz, hdef'', by rwa [hval], hgives⟩
    · cases hmem
  · have hname' : line.statement.symbol? = some name := by
      rwa [here, Line.statement_startingAt, Statement.symbol?_startingAt] at hname
    obtain ⟨x, hx⟩ := hprep.operand line List.mem_cons_self name hname'
    obtain ⟨x₀, hx₀, -⟩ := hlater.symbol hx
    exact hbound name x₀ hname hx₀

/-- Lines are bound when they have been linked. -/
theorem Links.bound (h : Links p id table l lines l' lines')
    (hprep : Prepared (l.program.symbols.table table) lines) :
    ∀ line ∈ lines', Bound p.rootTable l'.program.symbols table line := by
  induction lines generalizing l lines' with
  | nil =>
    cases h
    intro line hline
    cases hline
  | cons first rest ih =>
    obtain ⟨l₁, l₂, line', rest', rfl, hbind, hlater, hrest, hlabel, hoperand, hgives⟩ := h.uncons
    have hstep := (hbind.later h.holds).trans hlater
    have hprep' : Prepared (l₂.program.symbols.table table) rest := by
      refine hprep.later hstep fun name hname => ?_
      rw [List.append_nil, Option.mem_toList, here, Line.addressLabel?_startingAt] at hname
      exact Line.label_of_addressLabel? hname
    -- Behind the first line neither its label nor its operand is bound again.
    have hfirst : Bound p.rootTable l'.program.symbols table (l.here first) := by
      have hbound : Bound p.rootTable l₂.program.symbols table (l.here first) :=
        (hbind.bound h.holds hprep).later hlater (fun _ _ hn => by cases hn)
          fun _ _ _ _ _ hn => by cases hn
      refine hbound.later hrest.later (fun name hname hn => ?_) fun name x _ hx hundef hn => ?_
      · have hnodup := hprep.nodup
        rw [List.filterMap_cons, show first.label = some name from hname] at hnodup
        exact (List.nodup_cons.1 hnodup).1 (mem_labels_of_mem_addressLabels hn)
      · obtain ⟨line, hline, hname⟩ := List.mem_filterMap.1 (mem_labels_of_mem_addressLabels hn)
        obtain ⟨y, hy, hdef, -⟩ := hprep'.label line hline name hname
        rw [hx] at hy
        cases hy
        rw [hundef] at hdef
        cases hdef
    rw [List.forall_mem_cons]
    refine ⟨hfirst.congr hlabel ?_ hgives, ih hrest hprep'⟩
    rw [hoperand, here, Line.statement_startingAt, Statement.symbol?_startingAt]

/-! ### Copies -/

/-- The lines of an instance are bound, and its table declares nothing but their labels. -/
structure Closed (root : Nat) (s : SymbolStore) (i : Instance) : Prop where
  bound : ∀ line ∈ i.lines, Bound root s i.table line
  declared : ∀ name x, (s.table i.table).find? name = some x → x.defined = true →
    ∃ line ∈ i.lines, line.label = some name
  nodup : (i.lines.filterMap Line.label).Nodup

/-- What happens to the tables of other instances does not matter. -/
lemma Closed.later_other {root : Nat} {names : List String} {s s' : SymbolStore} {i : Instance}
    (h : Closed root s i) (hl : Later root table names s s') (hlt : i.table < s.size)
    (htable : i.table ≠ table) (hroot : i.table ≠ root) : Closed root s' i := by
  have heq := hl.other i.table hlt htable hroot
  refine ⟨fun line hline => (h.bound line hline).later_other hl heq, ?_, h.nodup⟩
  rw [heq]
  exact h.declared

/-- Every instance but the root has a table of its own that records the marks of its lines. -/
def Recorded (p : Program) : Prop :=
  ∀ t < p.instances.size, t ≠ Program.root → (p.inst t).table < p.symbols.size ∧
    (p.inst t).table ≠ p.rootTable ∧
    (p.symbols.table (p.inst t).table).Records ((p.inst t).lines.flatMap Line.marks)

/-- A copy is closed when its lines have been linked. -/
lemma Links.closed_copy {copy : Nat} {i : Instance}
    (h : Links p copy table l lines l' lines') (hne : copy ≠ Program.root)
    (hrec : (l.program.symbols.table table).Records (lines.flatMap Line.marks))
    (hlines : i.lines = lines') (htable : i.table = table) :
    Closed p.rootTable l'.program.symbols i := by
  have hprep := hrec.prepared h.single
  have hlabels := labels_of_shapes h.shapes
  refine ⟨?_, ?_, ?_⟩ <;> rw [hlines]
  · rw [htable]
    exact h.bound hprep
  · intro name x' hx' hdef'
    rw [htable] at hx'
    obtain ⟨x, hx, hdef⟩ := h.later.defined_before (h.holds.table_ne hne) hx' hdef'
    rw [hrec.defined_iff hx, Line.declare_mem_flatMap] at hdef
    rwa [← List.mem_filterMap, hlabels, List.mem_filterMap]
  · rw [hlabels]
    exact hprep.nodup

/-- Every instance that linking adds is closed. -/
theorem Links.closed (h : Links p id table l lines l' lines') (hp : Recorded p) {j : Nat}
    (hlo : l.program.instances.size ≤ j) (hhi : j < l'.program.instances.size) :
    Closed p.rootTable l'.program.symbols (l'.program.inst j) := by
  induction h with
  | nil => omega
  | plain _ _ hbind _ _ ih => exact ih (by rwa [skip, hbind.instances_eq]) hhi
  | @call id table target l l₁ l₂ l' line _ _ rest rest' body hholds _ hroot htarget hbind hbody hrest
      ihbody ihrest =>
    have hholds₁ := hholds.binds hbind
    have hsize := hbody.size_le
    rw [size_copyFor] at hsize
    rw [← hbind.instances_eq] at hlo
    rcases Nat.lt_or_ge j l₂.program.instances.size with hj | hj
    · have hclosed : Closed p.rootTable l₂.program.symbols
          ((l₂.store l₁.program.instances.size body).program.inst j) := by
        rcases Nat.eq_or_lt_of_le hlo with rfl | hlt
        · rw [inst_store_self hj, hbody.inst_eq (by rw [size_copyFor]; omega), inst_copyFor_size]
          refine hbody.closed_copy ?_ ?_ rfl rfl
          · exact Nat.ne_of_gt (Nat.lt_of_lt_of_le hholds.root_lt hholds₁.size_le)
          · obtain ⟨htlt, htne, hrec⟩ := hp target htarget hroot
            rwa [symbols_copyFor, SymbolStore.table_push_size, hholds₁.inst_eq target htarget,
              hholds₁.table_eq _ htlt htne]
        · rw [inst_store_ne (by omega)]
          exact ihbody (by rw [size_copyFor]; omega) hj
      -- What is linked behind the call works in other tables.
      rw [hrest.inst_eq (by rwa [size_store])]
      have hsizes := hrest.holds.sizes
      have hnum := hrest.holds.numbered j (Nat.le_trans hholds₁.size_le hlo) (by rwa [size_store])
      have hroot_lt := hholds.rootTable_lt
      have hle := hholds₁.size_le
      rw [size_store, symbols_store] at hsizes
      refine hclosed.later_other hrest.later ?_ ?_ ?_
      · omega
      · rcases hholds₁.own with ⟨-, rfl⟩ | ⟨-, hid, hown⟩ <;> omega
      · omega
    · exact ihrest (by rwa [size_store]) hhi

/-! ### What the root declares -/

/-- The root declares nothing but the given labels and imports. -/
def RootDeclares (root : Nat) (labels : List String) (imported : String → Option SymbolRef)
    (s : SymbolStore) : Prop :=
  ∀ name x, (s.table root).find? name = some x → x.defined = true →
    name ∈ labels ∨ ∃ ref, imported name = some ref ∧ x.value = .external ref

/-- The symbol that is imported under a name from a table of the program at the start. -/
def importedFrom (p : Program) (imports : Option Nat) (name : String) : Option SymbolRef :=
  imports.bind fun t => ((p.symbols.table t).indexOf? name).map (SymbolRef.mk t)

/-- The table of imports is one of the tables at the start. -/
def ImportsFrom (p : Program) (imports : Option Nat) : Prop :=
  ∀ t, imports = some t → t < p.symbols.size ∧ t ≠ p.rootTable

variable {labels : List String} {imports : Option Nat}

/-- The table of imports stays as it is. -/
lemma Holds.import?_eq (h : Holds p id table l) (hfrom : ImportsFrom p l.imports) :
    l.import? name = importedFrom p l.imports name := by
  unfold import? importedFrom
  split
  next himports => rw [himports, Option.bind_none]
  next t himports =>
    obtain ⟨hlt, hne⟩ := hfrom t himports
    rw [himports, Option.bind_some, h.table_eq t hlt hne]

lemma SymbolsOnly.imports_eq (h : SymbolsOnly l l') : l'.imports = l.imports := by
  obtain ⟨s, -, rfl⟩ := h
  rfl

lemma Links.imports_eq (h : Links p id table l lines l' lines') : l'.imports = l.imports := by
  induction h with
  | nil => rfl
  | plain _ _ hbind _ _ ih => exact ih.trans hbind.symbolsOnly.imports_eq
  | call _ _ _ _ hbind _ _ ihbody ihrest =>
    exact ihrest.trans (ihbody.trans hbind.symbolsOnly.imports_eq)

/-- A label that is bound in the root is one of its labels. -/
lemma rootDeclares_bindLabel {imported : String → Option SymbolRef} (hholds : Holds p id table l)
    (h : l.bindLabel table line = .ok l')
    (hlabel : table = p.rootTable → ∀ name, line.label = some name → name ∈ labels)
    (hroot : RootDeclares p.rootTable labels imported l.program.symbols) :
    RootDeclares p.rootTable labels imported l'.program.symbols := by
  rcases bindLabel_eq_ok h with ⟨-, rfl⟩ | ⟨name, hname, ⟨-, rfl⟩ | ⟨-, -, -, rfl⟩⟩
  · exact hroot
  · exact hroot
  · split
    · exact hroot
    · intro other x hx hdef
      rw [symbols_modifyTable] at hx
      by_cases ht : p.rootTable = table
      · by_cases ho : other = name
        · rw [ho]
          exact .inl (hlabel ht.symm name hname)
        · rw [ht, SymbolStore.table_modify_self hholds.table_lt, SymbolTable.find?_assign_ne _ ho,
            ← ht] at hx
          exact hroot other x hx hdef
      · rw [SymbolStore.table_modify_ne ht] at hx
        exact hroot other x hx hdef

/-- What an instance other than the root lets the root declare is an import. -/
lemma rootDeclares_bindOperand (hholds : Holds p id table l)
    (h : l.bindOperand id table line = .ok l') (hfrom : ImportsFrom p l.imports)
    (hroot : RootDeclares p.rootTable labels (importedFrom p l.imports) l.program.symbols) :
    RootDeclares p.rootTable labels (importedFrom p l.imports) l'.program.symbols := by
  have hrefer : ∀ (l : Linker) (name : String), table ≠ p.rootTable →
      (l.referToRoot table name).program.symbols.table p.rootTable =
        l.program.symbols.table p.rootTable := by
    intro l name hne
    unfold referToRoot
    split
    · rfl
    · exact SymbolStore.table_modify_ne hne.symm
  rcases bindOperand_eq_ok h with ⟨-, rfl⟩ | ⟨name, -, hres⟩
  · exact hroot
  · rcases resolve_eq_some hres with ⟨-, rfl⟩ | ⟨-, hid, l₁, rfl, ⟨-, rfl⟩ | ⟨-, himport⟩⟩
    · exact hroot
    · intro other x hx
      rw [hrefer _ _ (hholds.table_ne hid)] at hx
      exact hroot other x hx
    · obtain ⟨ref, href, rfl⟩ := importToRoot_eq_some himport
      have hlt := Nat.lt_of_lt_of_le hholds.rootTable_lt hholds.size_symbols_le
      intro other x hx hdef
      rw [hrefer _ _ (hholds.table_ne hid), symbols_modifyTable, hholds.rootTable_eq,
        SymbolStore.table_modify_self hlt, SymbolTable.find?_mention_update] at hx
      split at hx
      next ho =>
        cases hx
        rw [hholds.import?_eq hfrom, ← ho] at href
        exact .inr ⟨ref, href, rfl⟩
      next => exact hroot other x hx hdef

lemma Binds.rootDeclares (h : Binds id table l line l') (hholds : Holds p id table l)
    (hfrom : ImportsFrom p l.imports)
    (hlabel : table = p.rootTable → ∀ name, line.label = some name → name ∈ labels)
    (hroot : RootDeclares p.rootTable labels (importedFrom p l.imports) l.program.symbols) :
    RootDeclares p.rootTable labels (importedFrom p l.imports) l'.program.symbols := by
  obtain ⟨l₁, hbind, hoperand⟩ := h
  have hsym := symbolsOnly_bindLabel hbind
  have hholds₁ := hholds.later hsym (later_bindLabel hholds hbind)
  have hroot₁ := rootDeclares_bindLabel hholds hbind hlabel hroot
  rw [← hsym.imports_eq] at hfrom hroot₁ ⊢
  exact rootDeclares_bindOperand hholds₁ hoperand hfrom hroot₁

/-- When lines have been linked, the root declares its labels and imports. -/
theorem Links.rootDeclares (h : Links p id table l lines l' lines') (hfrom : ImportsFrom p l.imports)
    (hlabels : table = p.rootTable → ∀ line ∈ lines, ∀ name, line.label = some name → name ∈ labels)
    (hroot : RootDeclares p.rootTable labels (importedFrom p l.imports) l.program.symbols) :
    RootDeclares p.rootTable labels (importedFrom p l.imports) l'.program.symbols := by
  induction h with
  | nil => exact hroot
  | @plain _ _ l l₁ _ line _ _ hholds _ hbind _ _ ih =>
    have himports : l₁.imports = l.imports := hbind.symbolsOnly.imports_eq
    rw [skip, himports] at ih
    exact ih hfrom (fun ht line hline => hlabels ht line (List.mem_cons_of_mem _ hline))
      (hbind.rootDeclares hholds hfrom (fun ht name => hlabels ht line List.mem_cons_self name) hroot)
  | @call _ _ target l l₁ l₂ _ line _ _ _ _ body hholds _ _ _ hbind hbody _ ihbody ihrest =>
    have hholds₁ := hholds.binds hbind
    have hlt := Nat.lt_of_lt_of_le hholds₁.rootTable_lt hholds₁.size_symbols_le
    have himports : l₁.imports = l.imports := hbind.symbolsOnly.imports_eq
    have himports₂ : l₂.imports = l.imports := hbody.imports_eq.trans himports
    have hroot₁ := hbind.rootDeclares hholds hfrom
      (fun ht name => hlabels ht line List.mem_cons_self name) hroot
    rw [store, himports₂] at ihrest
    rw [copyFor, himports] at ihbody
    refine ihrest hfrom (fun ht line hline => hlabels ht line (List.mem_cons_of_mem _ hline))
      (ihbody hfrom (fun ht => absurd ht (by omega)) fun name x hx => ?_)
    change ((l₁.program.symbols.push _).table p.rootTable).find? name = some x at hx
    rw [SymbolStore.table_push_of_lt _ hlt] at hx
    exact hroot₁ name x hx

end Pep10.Linker
