import Pep10.Proofs.Symbol.Lookup

/-!
# How symbol tables change while a program is linked

Linking declares labels in the table of the instance at hand, lets its other symbols stand for
symbols of the root, and makes the root declare imports.  `Later` says what is kept from one moment
to a later one: declared symbols stay declared and keep their values, apart from the labels that
were bound in between, and a symbol that stands for one of the root goes on doing so.  All other
tables stay as they are.
-/

namespace Pep10.SymbolStore

variable {s s₁ s' : SymbolStore} {root table i k : Nat} {names more : List String} {name : String}
  {x : Symbol} {v : SymbolValue}

/-- The value stands for the symbol of the given name in the root, which declares it. -/
def Refers (s : SymbolStore) (root : Nat) (name : String) (v : SymbolValue) : Prop :=
  ∃ k x, (s.table root).indexOf? name = some k ∧ (s.table root).find? name = some x ∧
    x.defined = true ∧ v = .external ⟨root, k⟩

/-- What becomes of a symbol in the table of an instance other than the root. -/
def Keeps (s : SymbolStore) (root : Nat) (names : List String) (name : String) :
    Option Symbol → Option Symbol → Prop
  | none, none => True
  | some x, some x' => x'.multiplyDefined = x.multiplyDefined ∧ x'.defined = x.defined ∧
      (x'.value = x.value ∨ name ∈ names ∨ (x.defined = false ∧ s.Refers root name x'.value))
  | _, _ => False

/-- The store `s'` comes later than `s`, and in between the labels in `names` of a table have been
bound. -/
structure Later (root table : Nat) (names : List String) (s s' : SymbolStore) : Prop where
  size_le : s.size ≤ s'.size
  other : ∀ i < s.size, i ≠ table → i ≠ root → s'.table i = s.table i
  own : table ≠ root → ∀ name,
    s'.Keeps root names name ((s.table table).find? name) ((s'.table table).find? name)
  rootIndex : ∀ name k, (s.table root).indexOf? name = some k →
    (s'.table root).indexOf? name = some k
  rootSymbol : ∀ name x, (s.table root).find? name = some x →
    ∃ x', (s'.table root).find? name = some x' ∧ x'.multiplyDefined = x.multiplyDefined ∧
      (x.defined = true → x'.defined = true ∧ (x'.value = x.value ∨ (table = root ∧ name ∈ names)))

/-- A reference into the root stays one. -/
lemma Refers.later (h : s.Refers root name v) (hl : Later root table names s s') :
    s'.Refers root name v := by
  obtain ⟨k, x, hk, hx, hdef, rfl⟩ := h
  obtain ⟨x', hx', -, hval⟩ := hl.rootSymbol name x hx
  exact ⟨k, x', hl.rootIndex name k hk, hx', (hval hdef).1, rfl⟩

lemma keeps_refl (s : SymbolStore) (o : Option Symbol) : s.Keeps root names name o o := by
  cases o with
  | none => trivial
  | some x => exact ⟨rfl, rfl, .inl rfl⟩

namespace Later

lemma refl (root table : Nat) (s : SymbolStore) : Later root table names s s where
  size_le := Nat.le_refl _
  other _ _ _ _ := rfl
  own _ _ := keeps_refl s _
  rootIndex _ _ h := h
  rootSymbol _ x hx := ⟨x, hx, rfl, fun hdef => ⟨hdef, .inl rfl⟩⟩

lemma trans (h : Later root table names s s₁) (h' : Later root table more s₁ s') :
    Later root table (names ++ more) s s' where
  size_le := Nat.le_trans h.size_le h'.size_le
  other i hi ht hr := (h'.other i (Nat.lt_of_lt_of_le hi h.size_le) ht hr).trans (h.other i hi ht hr)
  own hne name := by
    have h1 := h.own hne name
    have h2 := h'.own hne name
    cases hx : (s.table table).find? name <;> cases hx₁ : (s₁.table table).find? name <;>
      cases hx' : (s'.table table).find? name <;> rw [hx, hx₁] at h1 <;> rw [hx₁, hx'] at h2
    case none.none.none => trivial
    case some.some.some x x₁ x' =>
      obtain ⟨hm1, hd1, hv1⟩ := h1
      obtain ⟨hm2, hd2, hv2⟩ := h2
      refine ⟨hm2.trans hm1, hd2.trans hd1, ?_⟩
      rw [hd1] at hv2
      rcases hv2 with hv2 | hn | ⟨hd, href⟩
      · rw [hv2]
        rcases hv1 with hv1 | hn | ⟨hd, href⟩
        · exact .inl hv1
        · exact .inr (.inl (List.mem_append_left _ hn))
        · exact .inr (.inr ⟨hd, href.later h'⟩)
      · exact .inr (.inl (List.mem_append_right _ hn))
      · exact .inr (.inr ⟨hd, href⟩)
    -- A table that is not the root's neither gains nor loses symbols.
    all_goals first | exact h1.elim | exact h2.elim
  rootIndex name k hk := h'.rootIndex name k (h.rootIndex name k hk)
  rootSymbol name x hx := by
    obtain ⟨x₁, hx₁, hm1, hv1⟩ := h.rootSymbol name x hx
    obtain ⟨x', hx', hm2, hv2⟩ := h'.rootSymbol name x₁ hx₁
    refine ⟨x', hx', hm2.trans hm1, fun hdef => ?_⟩
    obtain ⟨hd1, hv1⟩ := hv1 hdef
    obtain ⟨hd2, hv2⟩ := hv2 hd1
    refine ⟨hd2, ?_⟩
    rcases hv2 with hv2 | ⟨ht, hn⟩
    · rw [hv2]
      rcases hv1 with hv1 | ⟨ht, hn⟩
      · exact .inl hv1
      · exact .inr ⟨ht, List.mem_append_left _ hn⟩
    · exact .inr ⟨ht, List.mem_append_right _ hn⟩

/-- What happens to a table that is new leaves the others as they are, apart from that of the
root. -/
lemma of_push {t : SymbolTable} (h : Later root s.size names (s.push t) s') (hroot : root < s.size)
    (htable : table < s.size) : Later root table more s s' where
  size_le := by
    have := h.size_le
    rw [size_push] at this
    omega
  other i hi _ hr := by
    rw [h.other i (by rw [size_push]; omega) (by omega) hr, table_push_of_lt t hi]
  own hne name := by
    rw [h.other table (by rw [size_push]; omega) (by omega) hne, table_push_of_lt t htable]
    exact keeps_refl s' _
  rootIndex name k hk := h.rootIndex name k (by rwa [table_push_of_lt t hroot])
  rootSymbol name x hx := by
    obtain ⟨x', hx', hm, hv⟩ := h.rootSymbol name x (by rwa [table_push_of_lt t hroot])
    refine ⟨x', hx', hm, fun hdef => ⟨(hv hdef).1, (hv hdef).2.imp_right fun ht => ?_⟩⟩
    omega

/-! ### What becomes of a symbol -/

/-- A declared symbol stays declared, and it keeps its value if it is not bound in between. -/
lemma symbol (h : Later root table names s s') (hx : (s.table table).find? name = some x) :
    ∃ x', (s'.table table).find? name = some x' ∧ x'.multiplyDefined = x.multiplyDefined ∧
      (x.defined = true → x'.defined = true ∧ (x'.value = x.value ∨ name ∈ names)) := by
  by_cases hr : table = root
  · rw [hr] at hx ⊢
    obtain ⟨x', hx', hm, hv⟩ := h.rootSymbol name x hx
    exact ⟨x', hx', hm, fun hd => ⟨(hv hd).1, (hv hd).2.imp_right And.right⟩⟩
  · have hown := h.own hr name
    rw [hx] at hown
    cases hx' : (s'.table table).find? name with
    | none =>
      rw [hx'] at hown
      exact hown.elim
    | some x' =>
      rw [hx'] at hown
      obtain ⟨hm, hd, hv⟩ := hown
      refine ⟨x', rfl, hm, fun hdef => ⟨hd.trans hdef, ?_⟩⟩
      rcases hv with hv | hn | ⟨hundef, -⟩
      · exact .inl hv
      · exact .inr hn
      · rw [hdef] at hundef
        cases hundef

/-- Outside the root, a symbol that stands for one of the root goes on doing so if it is not bound
in between. -/
lemma refers (h : Later root table names s s') (hne : table ≠ root)
    (hx : (s.table table).find? name = some x) (hdef : x.defined = false)
    (href : s.Refers root name x.value) (hn : name ∉ names) :
    ∃ x', (s'.table table).find? name = some x' ∧ x'.defined = false ∧
      s'.Refers root name x'.value := by
  have hown := h.own hne name
  rw [hx] at hown
  cases hx' : (s'.table table).find? name with
  | none =>
    rw [hx'] at hown
    exact hown.elim
  | some x' =>
    rw [hx'] at hown
    obtain ⟨-, hd, hv | hn' | ⟨-, href'⟩⟩ := hown
    · exact ⟨x', rfl, hd.trans hdef, by rw [hv]; exact href.later h⟩
    · exact absurd hn' hn
    · exact ⟨x', rfl, hd.trans hdef, href'⟩

/-- Outside the root, nothing becomes declared. -/
lemma defined_before (h : Later root table names s s') (hne : table ≠ root)
    {x' : Symbol} (hx' : (s'.table table).find? name = some x') (hdef : x'.defined = true) :
    ∃ x, (s.table table).find? name = some x ∧ x.defined = true := by
  have hown := h.own hne name
  rw [hx'] at hown
  cases hx : (s.table table).find? name with
  | none =>
    rw [hx] at hown
    exact hown.elim
  | some x =>
    rw [hx] at hown
    exact ⟨x, rfl, hown.2.1.symm.trans hdef⟩

/-! ### Steps -/

/-- A label is bound. -/
lemma assign (htable : table < s.size) (hname : name ∈ names) :
    Later root table names s (s.modify table fun t => t.assign name v) where
  size_le := Nat.le_of_eq size_modify.symm
  other i _ ht _ := table_modify_ne ht
  own _ other := by
    rw [table_modify_self htable]
    by_cases ho : other = name
    · subst ho
      rw [SymbolTable.find?_assign_self]
      cases (s.table table).find? other with
      | none => trivial
      | some x => exact ⟨rfl, rfl, .inr (.inl hname)⟩
    · rw [SymbolTable.find?_assign_ne _ ho]
      exact keeps_refl _ _
  rootIndex other k hk := by
    by_cases ht : root = table
    · subst ht
      rwa [table_modify_self htable, SymbolTable.indexOf?_assign]
    · rwa [table_modify_ne ht]
  rootSymbol other x hx := by
    by_cases ht : root = table
    · subst ht
      rw [table_modify_self htable]
      by_cases ho : other = name
      · subst ho
        rw [SymbolTable.find?_assign_self, hx]
        exact ⟨_, rfl, rfl, fun hdef => ⟨hdef, .inr ⟨rfl, hname⟩⟩⟩
      · rw [SymbolTable.find?_assign_ne _ ho]
        exact ⟨x, hx, rfl, fun hdef => ⟨hdef, .inl rfl⟩⟩
    · rw [table_modify_ne ht]
      exact ⟨x, hx, rfl, fun hdef => ⟨hdef, .inl rfl⟩⟩

/-- A symbol that is not declared is made to stand for a symbol of the root. -/
lemma refer (htable : table < s.size) (hne : table ≠ root)
    (hundef : ∀ x, (s.table table).find? name = some x → x.defined = false)
    (hindex : (s.table root).indexOf? name = some k)
    (hroot : (s.table root).find? name = some x) (hdef : x.defined = true) :
    Later root table names s (s.modify table fun t => t.assign name (.external ⟨root, k⟩)) where
  size_le := Nat.le_of_eq size_modify.symm
  other i _ ht _ := table_modify_ne ht
  own _ other := by
    rw [table_modify_self htable]
    by_cases ho : other = name
    · subst ho
      rw [SymbolTable.find?_assign_self]
      cases hy : (s.table table).find? other with
      | none => trivial
      | some y =>
        have href : (s.modify table fun t => t.assign other (.external ⟨root, k⟩)).Refers root other
            (.external ⟨root, k⟩) := by
          refine ⟨k, x, ?_, ?_, hdef, rfl⟩ <;> rwa [table_modify_ne hne.symm]
        exact ⟨rfl, rfl, .inr (.inr ⟨hundef y hy, href⟩)⟩
    · rw [SymbolTable.find?_assign_ne _ ho]
      exact keeps_refl _ _
  rootIndex other k hk := by rwa [table_modify_ne hne.symm]
  rootSymbol other x hx := by
    rw [table_modify_ne hne.symm]
    exact ⟨x, hx, rfl, fun hdef => ⟨hdef, .inl rfl⟩⟩

/-- The root declares a name that it has not declared before. -/
lemma declareRoot (hroot : root < s.size) (hne : table ≠ root)
    (hundef : ∀ x, (s.table root).find? name = some x → x.defined = false) :
    Later root table names s (s.modify root fun t =>
      (t.mention name).update name fun y => { y with defined := true, value := v }) where
  size_le := Nat.le_of_eq size_modify.symm
  other i _ _ hr := table_modify_ne hr
  own _ other := by
    rw [table_modify_ne hne]
    exact keeps_refl _ _
  rootIndex other k hk := by
    rw [table_modify_self hroot, SymbolTable.indexOf?_update]
    · exact SymbolTable.indexOf?_mention hk
    · exact fun _ => rfl
  rootSymbol other x hx := by
    rw [table_modify_self hroot, SymbolTable.find?_mention_update]
    split
    next ho =>
      subst ho
      rw [hx]
      refine ⟨_, rfl, rfl, fun hdef => ?_⟩
      rw [hundef x hx] at hdef
      cases hdef
    next ho => exact ⟨x, hx, rfl, fun hdef => ⟨hdef, .inl rfl⟩⟩

end Later

end Pep10.SymbolStore
