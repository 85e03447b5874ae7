import Pep10.Proofs.Symbol.Binding

/-!
# Labels that move

When an operating system is relocated, its lines get new addresses, and their labels move along.  No
symbol is added or declared by this.  `Relabeled` tells what becomes of the symbols in terms of the
lines that were moved, whatever the order in which that happened: a symbol has the address of one of
these lines whose label it is, or it is as it was and none of them has it as its label.
-/

namespace Pep10.SymbolStore

/-- The labels of the lines in `own` have moved; `own i line` says that a line belongs to an
instance whose symbol table has the number `i`. -/
structure Relabeled (own : Nat → Line → Prop) (s s' : SymbolStore) : Prop where
  size_eq : s'.size = s.size
  index_eq : ∀ i name, (s'.table i).indexOf? name = (s.table i).indexOf? name
  symbol : ∀ i name x, (s.table i).find? name = some x →
    ∃ v, (s'.table i).find? name = some { x with value := v } ∧
      ((v = x.value ∧ ∀ line, own i line → line.addressLabel? ≠ some name) ∨
        ∃ w line, v = .location w 0 ∧ own i line ∧ line.addressLabel? = some name ∧ line.Gives w)

namespace Relabeled

variable {own more own' : Nat → Line → Prop} {s s₁ s' : SymbolStore} {i table : Nat} {name : String}
  {x : Symbol} {line : Line}

lemma refl (s : SymbolStore) (h : ∀ i line, ¬ own i line) : Relabeled own s s where
  size_eq := rfl
  index_eq _ _ := rfl
  symbol i _ x hx := ⟨x.value, hx, .inl ⟨rfl, fun line hline => absurd hline (h i line)⟩⟩

lemma trans (h : Relabeled own s s₁) (h' : Relabeled more s₁ s')
    (hown : ∀ i line, own' i line ↔ own i line ∨ more i line) : Relabeled own' s s' where
  size_eq := h'.size_eq.trans h.size_eq
  index_eq i name := (h'.index_eq i name).trans (h.index_eq i name)
  symbol i name x hx := by
    obtain ⟨v₁, hx₁, hv₁⟩ := h.symbol i name x hx
    obtain ⟨v, hx', hv⟩ := h'.symbol i name _ hx₁
    refine ⟨v, hx', ?_⟩
    rcases hv with ⟨rfl, hno⟩ | ⟨w, line, hw, hline, hlabel, hgives⟩
    · rcases hv₁ with ⟨hsame, hno₁⟩ | ⟨w, line, hw, hline, hlabel, hgives⟩
      · refine .inl ⟨hsame, fun line hline => ?_⟩
        rcases (hown i line).1 hline with hline | hline
        · exact hno₁ line hline
        · exact hno line hline
      · exact .inr ⟨w, line, hw, (hown i line).2 (.inl hline), hlabel, hgives⟩
    · exact .inr ⟨w, line, hw, (hown i line).2 (.inr hline), hlabel, hgives⟩

/-- No symbol is added. -/
lemma symbol_before (h : Relabeled own s s') {x' : Symbol}
    (hx' : (s'.table i).find? name = some x') :
    ∃ x, (s.table i).find? name = some x ∧ x'.defined = x.defined := by
  obtain ⟨k, hk⟩ := SymbolTable.exists_indexOf? hx'
  rw [h.index_eq] at hk
  obtain ⟨x, hx⟩ := SymbolTable.exists_find? hk
  obtain ⟨v, hv, -⟩ := h.symbol i name x hx
  rw [hx'] at hv
  cases hv
  exact ⟨x, hx, rfl⟩

/-- A reference into the root stays one. -/
lemma refers {root : Nat} {v : SymbolValue} (h : Relabeled own s s') (href : s.Refers root name v) :
    s'.Refers root name v := by
  obtain ⟨k, x, hk, hx, hdef, rfl⟩ := href
  obtain ⟨v, hx', -⟩ := h.symbol root name x hx
  exact ⟨k, _, (h.index_eq root name).trans hk, hx', hdef, rfl⟩

/-- The label of one line is moved. -/
lemma assign {w : UInt16} (hlabel : line.addressLabel? = some name) (hgives : line.Gives w)
    (htable : table < s.size) :
    Relabeled (fun i other => i = table ∧ other = line) s
      (s.modify table fun t => t.assign name (.location w 0)) where
  size_eq := size_modify
  index_eq i other := by
    by_cases hi : i = table
    · subst hi
      rw [table_modify_self htable, SymbolTable.indexOf?_assign]
    · rw [table_modify_ne hi]
  symbol i other x hx := by
    by_cases hi : i = table
    · subst hi
      rw [table_modify_self htable]
      by_cases ho : other = name
      · subst ho
        rw [SymbolTable.find?_assign_self, hx]
        exact ⟨_, rfl, .inr ⟨w, line, rfl, ⟨rfl, rfl⟩, hlabel, hgives⟩⟩
      · rw [SymbolTable.find?_assign_ne _ ho]
        refine ⟨x.value, hx, .inl ⟨rfl, ?_⟩⟩
        rintro _ ⟨-, rfl⟩ hother
        rw [hlabel] at hother
        exact ho (Option.some.inj hother).symm
    · rw [table_modify_ne hi]
      exact ⟨x.value, hx, .inl ⟨rfl, fun _ hline => absurd hline.1 hi⟩⟩

/-- A line that has no label of its own to move. -/
lemma keep (hlabel : line.addressLabel? = none) :
    Relabeled (fun i other => i = table ∧ other = line) s s where
  size_eq := rfl
  index_eq _ _ := rfl
  symbol i _ x hx := by
    refine ⟨x.value, hx, .inl ⟨rfl, ?_⟩⟩
    rintro _ ⟨-, rfl⟩ hother
    rw [hlabel] at hother
    cases hother

end Relabeled

end Pep10.SymbolStore

namespace Pep10

variable {line line' : Line}

/-! ### Lines of the same shape -/

namespace Line

lemma label_of_shape (h : line'.shape = line.shape) : line'.label = line.label := by
  simpa using congrArg Line.label h

lemma symbol?_of_shape (h : line'.shape = line.shape) :
    line'.statement.symbol? = line.statement.symbol? := by
  have hst : line'.statement.shape = line.statement.shape := congrArg Line.statement h
  rw [Statement.symbol?, Statement.symbol?, ← Statement.operand?_shape, hst,
    Statement.operand?_shape]

lemma isEquate_of_shape (h : line'.shape = line.shape) :
    line'.statement.isEquate = line.statement.isEquate := by
  have hst : line'.statement.shape = line.statement.shape := congrArg Line.statement h
  rw [← Statement.isEquate_shape, hst, Statement.isEquate_shape]

lemma addressLabel?_of_shape (h : line'.shape = line.shape) :
    line'.addressLabel? = line.addressLabel? := by
  rw [addressLabel?, addressLabel?, isEquate_of_shape h, label_of_shape h]

/-- The constant of an `.EQUATE` is part of its shape. -/
lemma equate_of_shape {operand : Operand} (h : line'.shape = line.shape)
    (hst' : line'.statement = .directive .equate operand) :
    line.statement = .directive .equate operand := by
  have hst : line'.statement.shape = line.statement.shape := congrArg Line.statement h
  rw [hst'] at hst
  cases hline : line.statement <;> rw [hline] at hst <;> cases hst
  rfl

end Line

/-! ### Bound lines -/

/-- A bound line that is moved is bound at its new place, if no other line has its label and all
labels are declared. -/
lemma Bound.relabeled {root table : Nat} {own : Nat → Line → Prop} {s s' : SymbolStore}
    (h : Bound root s table line) (hs : SymbolStore.Relabeled own s s') (hshape : line'.shape = line.shape)
    (hown : own table line')
    (hunique : ∀ other name, own table other → other.label = some name →
      line'.label = some name → other = line')
    (hdefined : ∀ other name x, own table other → other.label = some name →
      (s.table table).find? name = some x → x.defined = true) :
    Bound root s' table line' := by
  have hlabel := Line.label_of_shape hshape
  refine ⟨fun name hname => ?_, fun name hname => ?_⟩
  · obtain ⟨x, v, hx, hdef, hword, hgives⟩ := h.label name (hlabel.symm.trans hname)
    obtain ⟨value, hx', ⟨rfl, hno⟩ | ⟨w, other, rfl, hother, hlabel', hgives'⟩⟩ :=
      hs.symbol table name x hx
    · -- Only the label of an `.EQUATE` stays as it is.
      have hequate : line'.statement.isEquate = true := by
        by_contra hne
        exact hno line' hown (by rw [Line.addressLabel?, if_neg hne, hname])
      obtain ⟨operand, hst⟩ := Line.exists_of_isEquate hequate
      rw [Line.gives_of_isEquate (Line.equate_of_shape hshape hst)] at hgives
      exact ⟨_, v, hx', hdef, hword, (Line.gives_of_isEquate hst).2 hgives⟩
    · obtain rfl := hunique other name hother (Line.label_of_addressLabel? hlabel') hname
      exact ⟨_, w, hx', hdef, .inr rfl, hgives'⟩
  · rw [Line.symbol?_of_shape hshape] at hname
    obtain ⟨x, hx, hdef⟩ := h.operand name hname
    obtain ⟨value, hx', hvalue⟩ := hs.symbol table name x hx
    refine ⟨_, hx', ?_⟩
    rcases hdef with hdef | ⟨hundef, hne, href⟩
    · exact .inl hdef
    · refine .inr ⟨hundef, hne, ?_⟩
      rcases hvalue with ⟨rfl, -⟩ | ⟨w, other, -, hother, hlabel', -⟩
      · exact hs.refers href
      · rw [hdefined other name x hother (Line.label_of_addressLabel? hlabel') hx] at hundef
        cases hundef

/-- All lines of an instance stay bound when they are moved. -/
lemma forall_bound_of_relabeled {root table : Nat} {own : Nat → Line → Prop} {s s' : SymbolStore}
    {lines lines' : List Line} (hs : SymbolStore.Relabeled own s s')
    (hbound : ∀ line ∈ lines, Bound root s table line) (hnodup : (lines.filterMap Line.label).Nodup)
    (hshapes : lines'.map Line.shape = lines.map Line.shape)
    (hown : ∀ line, own table line ↔ line ∈ lines') :
    ∀ line ∈ lines', Bound root s' table line := by
  intro line' hline'
  obtain ⟨line, hline, hshape⟩ := exists_shape_eq hshapes hline'
  refine (hbound line hline).relabeled hs hshape.symm ((hown line').2 hline') ?_ ?_
  · intro other name hother hname hname'
    rw [← labels_of_shapes hshapes] at hnodup
    exact Line.eq_of_label_eq hnodup ((hown other).1 hother) hline' hname hname'
  · intro other name x hother hname hx
    obtain ⟨before, hbefore, hshape'⟩ := exists_shape_eq hshapes ((hown other).1 hother)
    rw [← Line.label_of_shape hshape'] at hname
    obtain ⟨y, -, hy, hdef, -⟩ := (hbound before hbefore).label name hname
    rw [hx] at hy
    cases hy
    exact hdef

end Pep10
