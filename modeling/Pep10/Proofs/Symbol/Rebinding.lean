import Pep10.Proofs.Symbol.Relabeling

/-!
# Symbol tables that differ in values to come

When a program is linked again, its symbol tables hold the values of the last time.  They differ
from what the assembler has left there in values that linking assigns anyway: those of labels that
stand for addresses, and those of operands that are not declared where they are used (`Unbound`).
`AlikeAt` compares the symbols that two tables have under a name, up to such values.  To bind a line
is to do the same to both tables, and the values that it assigns are then the same.

The numbers of symbols depend on the names of a table and on nothing else (`SymbolTable.names`).
-/

namespace Pep10

variable {line : Line} {lines lines' rest : List Line} {name other : String} {defined : Bool}

/-! ### Values to come -/

/-- Some lines are going to give a value to a symbol of this name, which is declared or is not. -/
def Unbound (lines : List Line) (name : String) (defined : Bool) : Prop :=
  name ∈ addressLabels lines ∨ (defined = false ∧ ∃ line ∈ lines, line.statement.symbol? = some name)

lemma not_unbound_nil : ¬Unbound [] name defined := by
  rintro (h | ⟨-, _, h, -⟩) <;> cases h

lemma unbound_cons : Unbound (line :: rest) name defined ↔
    line.addressLabel? = some name ∨ (defined = false ∧ line.statement.symbol? = some name) ∨
      Unbound rest name defined := by
  rw [Unbound, Unbound, addressLabels_cons, List.mem_append, Option.mem_toList, List.exists_mem_cons_iff]
  grind

/-- Lines of the same shapes give values to the same symbols. -/
lemma unbound_of_shapes (h : lines'.map Line.shape = lines.map Line.shape)
    (hunbound : Unbound lines name defined) : Unbound lines' name defined := by
  rcases hunbound with hlabel | ⟨hdef, line, hline, hname⟩
  · obtain ⟨line, hline, hname⟩ := List.mem_flatMap.1 hlabel
    obtain ⟨line', hline', hshape⟩ := exists_shape_eq h.symm hline
    refine .inl (List.mem_flatMap.2 ⟨line', hline', ?_⟩)
    rwa [Line.addressLabel?_of_shape hshape]
  · obtain ⟨line', hline', hshape⟩ := exists_shape_eq h.symm hline
    exact .inr ⟨hdef, line', hline', by rwa [Line.symbol?_of_shape hshape]⟩

/-! ### Symbols that differ in values to come -/

variable {stale stale' : String → Bool → Prop} {x y z : Symbol} {t t' t'' : SymbolTable}

/-- Two symbols that are the same but for a value that is stale. -/
structure Symbol.Alike (stale : String → Bool → Prop) (x y : Symbol) : Prop where
  same : y = { x with value := y.value }
  value : y.value = x.value ∨ stale x.name x.defined

namespace Symbol.Alike

lemma refl (stale : String → Bool → Prop) (x : Symbol) : Alike stale x x := ⟨rfl, .inl rfl⟩

lemma name_eq (h : Alike stale x y) : y.name = x.name := by rw [h.same]

lemma defined_eq (h : Alike stale x y) : y.defined = x.defined := by rw [h.same]

lemma multiplyDefined_eq (h : Alike stale x y) : y.multiplyDefined = x.multiplyDefined := by rw [h.same]

lemma mono (h : Alike stale x y) (hstale : stale x.name x.defined → stale' x.name x.defined) :
    Alike stale' x y :=
  ⟨h.same, h.value.imp_right hstale⟩

lemma trans (h : Alike stale x y) (h' : Alike stale y z) : Alike stale x z where
  same := by rw [h'.same, h.same]
  value := by
    rcases h'.value with hv | hs
    · rw [hv]
      exact h.value
    · rw [h.name_eq, h.defined_eq] at hs
      exact .inr hs

/-- Without stale values the symbols are the same. -/
lemma eq (h : Alike stale x y) (hstale : ¬stale x.name x.defined) : y = x := by
  rw [h.same, h.value.resolve_right hstale]

/-- The same value may be given to both symbols. -/
lemma assign (h : Alike stale x y) (v : SymbolValue) :
    Alike stale' { x with value := v } { y with value := v } :=
  ⟨by rw [h.same], .inl rfl⟩

end Symbol.Alike

/-- Two tables have symbols of the given name that are the same but for a value that is stale, or
neither of them has one. -/
def SymbolTable.AlikeAt (stale : String → Bool → Prop) (name : String) (t t' : SymbolTable) : Prop :=
  Option.Rel (Symbol.Alike stale) (t.find? name) (t'.find? name)

namespace SymbolTable

lemma AlikeAt.refl (stale : String → Bool → Prop) (name : String) (t : SymbolTable) :
    t.AlikeAt stale name t := by
  rw [AlikeAt]
  cases t.find? name with
  | none => exact .none
  | some x => exact .some (.refl stale x)

lemma AlikeAt.of_find?_eq (h : t'.find? name = t.find? name) : t.AlikeAt stale name t' := by
  rw [AlikeAt, h]
  exact AlikeAt.refl stale name t

/-- A symbol of the first table has a counterpart. -/
lemma AlikeAt.exists_right (h : t.AlikeAt stale name t') (hx : t.find? name = some x) :
    ∃ y, t'.find? name = some y ∧ Symbol.Alike stale x y := by
  rw [AlikeAt, hx] at h
  cases hy : t'.find? name with
  | none =>
    rw [hy] at h
    cases h
  | some y =>
    rw [hy] at h
    cases h with
    | some hxy => exact ⟨y, rfl, hxy⟩

lemma AlikeAt.none_right (h : t.AlikeAt stale name t') (hx : t.find? name = none) :
    t'.find? name = none := by
  rw [AlikeAt, hx] at h
  cases hy : t'.find? name with
  | none => rfl
  | some y =>
    rw [hy] at h
    cases h

/-- Two tables are alike under a name that has no symbol in either, or two symbols that are
alike. -/
lemma AlikeAt.intro (hnone : t.find? name = none → t'.find? name = none)
    (hsome : ∀ x, t.find? name = some x → ∃ y, t'.find? name = some y ∧ Symbol.Alike stale x y) :
    t.AlikeAt stale name t' := by
  rw [AlikeAt]
  cases hx : t.find? name with
  | none =>
    rw [hnone hx]
    exact .none
  | some x =>
    obtain ⟨y, hy, hxy⟩ := hsome x hx
    rw [hy]
    exact .some hxy

lemma AlikeAt.trans (h : t.AlikeAt stale name t') (h' : t'.AlikeAt stale name t'') :
    t.AlikeAt stale name t'' := by
  refine .intro (fun hx => h'.none_right (h.none_right hx)) fun x hx => ?_
  obtain ⟨y, hy, hxy⟩ := h.exists_right hx
  obtain ⟨z, hz, hyz⟩ := h'.exists_right hy
  exact ⟨z, hz, hxy.trans hyz⟩

lemma AlikeAt.mono (h : t.AlikeAt stale name t')
    (hstale : ∀ x, t.find? name = some x → stale name x.defined → stale' name x.defined) :
    t.AlikeAt stale' name t' := by
  refine .intro h.none_right fun x hx => ?_
  obtain ⟨y, hy, hxy⟩ := h.exists_right hx
  refine ⟨y, hy, hxy.mono ?_⟩
  rw [name_of_find? hx]
  exact hstale x hx

/-- When no value is stale any more, the symbols are the same. -/
lemma AlikeAt.find?_eq (h : t.AlikeAt stale name t') (hstale : ∀ defined, ¬stale name defined) :
    t'.find? name = t.find? name := by
  cases hx : t.find? name with
  | none => exact h.none_right hx
  | some x =>
    obtain ⟨y, hy, hxy⟩ := h.exists_right hx
    rw [hy, hxy.eq (by rw [name_of_find? hx]; exact hstale _)]

/-- A value that is assigned in both tables is not stale any more. -/
lemma AlikeAt.assign (h : t.AlikeAt stale other t') (v : SymbolValue)
    (hstale : ∀ defined, stale other defined → other = name ∨ stale' other defined) :
    (t.assign name v).AlikeAt stale' other (t'.assign name v) := by
  by_cases ho : other = name
  · subst ho
    rw [AlikeAt, find?_assign_self, find?_assign_self]
    cases hx : t.find? other with
    | none =>
      rw [h.none_right hx]
      exact .none
    | some x =>
      obtain ⟨y, hy, hxy⟩ := h.exists_right hx
      rw [hy]
      exact .some (hxy.assign v)
  · rw [AlikeAt, find?_assign_ne v ho, find?_assign_ne v ho]
    exact h.mono fun x _ hs => (hstale _ hs).resolve_left ho

/-- A value that is stale may be assigned in one table alone. -/
lemma AlikeAt.assign_right (v : SymbolValue)
    (hstale : ∀ x, t.find? name = some x → stale name x.defined) :
    t.AlikeAt stale other (t.assign name v) := by
  by_cases ho : other = name
  · subst ho
    refine .intro (fun hx => by rw [find?_assign_self, hx]; rfl) fun x hx => ?_
    rw [find?_assign_self, hx]
    refine ⟨_, rfl, rfl, .inr ?_⟩
    rw [name_of_find? hx]
    exact hstale x hx
  · exact .of_find?_eq (find?_assign_ne v ho)

/-! ### Names -/

/-- The names of a table, by number. -/
def names (t : SymbolTable) : List String := t.symbols.map Symbol.name

lemma names_update {f : Symbol → Symbol} (hf : ∀ s, (f s).name = s.name) : (t.update name f).names = t.names := by
  rw [names, names, update, List.map_map]
  refine List.map_congr_left fun s _ => ?_
  rw [Function.comp_apply]
  split
  · exact hf s
  · rfl

@[simp] lemma names_assign (v : SymbolValue) : (t.assign name v).names = t.names :=
  names_update fun _ => rfl

/-- The number of a name depends on the names of the table alone. -/
lemma indexOf?_of_names (h : t'.names = t.names) (name : String) : t'.indexOf? name = t.indexOf? name := by
  have hindex : ∀ t : SymbolTable, t.indexOf? name = t.names.findIdx? fun n => n == name := by
    intro t
    rw [indexOf?, names, List.findIdx?_map]
    rfl
  rw [hindex, hindex, h]

/-- A name that is mentioned is added at the end if it is new. -/
lemma names_mention (t : SymbolTable) (name : String) :
    (t.mention name).names = if name ∈ t.names then t.names else t.names ++ [name] := by
  unfold mention
  split
  next x hx =>
    rw [if_pos]
    exact List.mem_map.2 ⟨x, List.mem_of_find?_eq_some hx, name_of_find? hx⟩
  next hnone =>
    rw [if_neg, names, List.map_append]
    · rfl
    · intro hmem
      obtain ⟨x, hx, rfl⟩ := List.mem_map.1 hmem
      have := List.find?_eq_none.1 hnone x hx
      simp at this

lemma nodup_names_mention (h : t.names.Nodup) (name : String) : (t.mention name).names.Nodup := by
  rw [names_mention]
  split
  next => exact h
  next hnew => exact List.Nodup.append h (List.nodup_singleton _) (by simpa using hnew)

lemma nodup_names_update {f : Symbol → Symbol} (hf : ∀ s, (f s).name = s.name) (h : t.names.Nodup) :
    (t.update name f).names.Nodup := by
  rwa [names_update hf]

/-- Entering what a line says of symbols does not repeat a name. -/
lemma nodup_names_enter (h : t.names.Nodup) (mark : Mark) : (t.enter mark).names.Nodup := by
  cases mark with
  | declare name => exact nodup_names_update (fun _ => rfl) (nodup_names_mention h name)
  | mention name => exact nodup_names_mention h name
  | assign name value => exact nodup_names_update (fun _ => rfl) h
  | publish name => exact nodup_names_update (fun _ => rfl) h
  | offer call name => exact h

/-- In a table without repeated names every symbol is the symbol of its name. -/
lemma find?_of_mem (h : t.names.Nodup) (hx : x ∈ t.symbols) : t.find? x.name = some x := by
  have hname : ∀ y ∈ t.symbols, y.name = x.name → y = x := fun y hy hyx => List.inj_on_of_nodup_map h hy hx hyx
  cases hy : t.find? x.name with
  | none =>
    have := List.find?_eq_none.1 hy x hx
    simp at this
  | some y => rw [hname y (List.mem_of_find?_eq_some hy) (name_of_find? hy)]

/-- Lists that agree in the members to keep agree when the others are dropped. -/
lemma filter_eq_of_forall₂ {keep : Symbol → Bool} {xs ys : List Symbol}
    (h : List.Forall₂ (fun x y => keep y = keep x ∧ (keep x = true → y = x)) xs ys) :
    ys.filter keep = xs.filter keep := by
  induction h with
  | nil => rfl
  | cons hxy _ ih =>
    rw [List.filter_cons, List.filter_cons, hxy.1, ih]
    split
    next hx => rw [hxy.2 hx]
    next => rfl

/-- Two tables with the same names hold the same symbols of some kind, if their symbols agree by
name. -/
lemma filter_eq_of_names {keep : Symbol → Bool} (h : t'.names = t.names) (hnodup : t.names.Nodup)
    (hkeep : ∀ name x y, t.find? name = some x → t'.find? name = some y →
      keep y = keep x ∧ (keep x = true → y = x)) :
    t'.symbols.filter keep = t.symbols.filter keep := by
  have hpairs : List.Forall₂ (fun x y : Symbol => y.name = x.name) t.symbols t'.symbols := by
    rw [names, names, ← List.forall₂_eq_eq_eq, List.forall₂_map_left_iff, List.forall₂_map_right_iff] at h
    exact h.flip
  refine filter_eq_of_forall₂ (List.forall₂_iff_get.2 ⟨hpairs.length_eq, fun i hi hi' => ?_⟩)
  have hfind' := find?_of_mem (h ▸ hnodup) (t'.symbols.get_mem ⟨i, hi'⟩)
  rw [(List.forall₂_iff_get.1 hpairs).2 i hi hi'] at hfind'
  exact hkeep _ _ _ (find?_of_mem hnodup (t.symbols.get_mem ⟨i, hi⟩)) hfind'

end SymbolTable

/-- A table that is not there counts as empty. -/
lemma SymbolStore.table_of_size_le {s : SymbolStore} {i : Nat} (h : s.size ≤ i) : s.table i = {} := by
  have h' : s.tables.size ≤ i := h
  simp [table, h']

/-- Changing a table without changing its names keeps the names of all tables. -/
lemma SymbolStore.names_modify {s : SymbolStore} {i : Nat} {f : SymbolTable → SymbolTable}
    (hf : ∀ t : SymbolTable, (f t).names = t.names) (j : Nat) :
    ((s.modify i f).table j).names = (s.table j).names := by
  by_cases hj : j = i
  · subst hj
    rcases Nat.lt_or_ge j s.size with hlt | hge
    · rw [table_modify_self hlt, hf]
    · rw [table_of_size_le hge, table_of_size_le (by rwa [size_modify])]
  · rw [table_modify_ne hj]

/-- Changing a table without repeating a name repeats no name in any table. -/
lemma SymbolStore.nodup_names_modify {s : SymbolStore} {i j : Nat} {f : SymbolTable → SymbolTable}
    (hf : ∀ t : SymbolTable, t.names.Nodup → (f t).names.Nodup) (h : (s.table j).names.Nodup) :
    ((s.modify i f).table j).names.Nodup := by
  by_cases hj : j = i
  · subst hj
    rcases Nat.lt_or_ge j s.size with hlt | hge
    · rw [table_modify_self hlt]
      exact hf _ h
    · rw [table_of_size_le hge] at h
      rwa [table_of_size_le (by rwa [size_modify])]
  · rwa [table_modify_ne hj]

end Pep10
