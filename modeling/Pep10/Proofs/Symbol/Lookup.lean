import Mathlib.Tactic.Common
import Pep10.Symbol.Store

/-!
# Looking up symbols

A symbol table is seen through two look-ups, the symbol of a name and the number of a name.  This
file tells what the operations on tables and stores do to them.  Numbers are stable: no operation
changes the number of a name that has one.  The value of a symbol is then found by one equation for
each step along a chain of references.
-/

namespace Pep10

namespace SymbolTable

variable {t : SymbolTable} {name other : String} {i : Nat} {f : Symbol → Symbol}

/-! ### The number and the symbol of a name -/

/-- The symbol of a name stands at the number of the name. -/
lemma getElem?_indexOf? (h : t.indexOf? name = some i) : t.symbols[i]? = t.find? name := by
  obtain ⟨symbols⟩ := t
  simp only [indexOf?, find?] at h ⊢
  induction symbols generalizing i with
  | nil => simp at h
  | cons s rest ih =>
    by_cases hs : s.name == name
    · simp only [List.findIdx?_cons, hs, if_true, Option.some.injEq] at h
      subst h
      simp [hs]
    · simp only [List.findIdx?_cons, hs, Bool.false_eq_true, if_false, Option.map_eq_some_iff] at h
      obtain ⟨j, hj, rfl⟩ := h
      have hskip : (s :: rest).find? (fun s => s.name == name)
          = rest.find? fun s => s.name == name := by simp [hs]
      rw [List.getElem?_cons_succ, ih hj, hskip]

/-- A name has a number exactly if it has a symbol. -/
lemma isSome_indexOf? (t : SymbolTable) (name : String) :
    (t.indexOf? name).isSome = (t.find? name).isSome := by
  rw [Bool.eq_iff_iff]
  simp [indexOf?, find?]

/-- A name with a symbol has a number. -/
lemma exists_indexOf? {s : Symbol} (h : t.find? name = some s) : ∃ i, t.indexOf? name = some i := by
  rw [← Option.isSome_iff_exists, isSome_indexOf?, h]
  rfl

/-- A name with a number has a symbol. -/
lemma exists_find? (h : t.indexOf? name = some i) : ∃ s, t.find? name = some s := by
  rw [← Option.isSome_iff_exists, ← isSome_indexOf?, h]
  rfl

/-- The symbol that is found for a name has that name. -/
lemma name_of_find? {s : Symbol} (h : t.find? name = some s) : s.name = name := by
  simpa using List.find?_some h

/-! ### Changing a symbol -/

/-- A change that keeps names keeps all numbers. -/
lemma indexOf?_update (hf : ∀ s, (f s).name = s.name) :
    (t.update name f).indexOf? other = t.indexOf? other := by
  have hp : ((fun s : Symbol => s.name == other) ∘ fun s => if s.name == name then f s else s)
      = fun s => s.name == other := by
    funext s
    by_cases h : s.name = name <;> simp [h, hf]
  simp only [indexOf?, update, List.findIdx?_map, hp]

/-- A change of one symbol shows in the look-up of its name and nowhere else. -/
lemma find?_update (hf : ∀ s, (f s).name = s.name) :
    (t.update name f).find? other =
      if other = name then (t.find? other).map f else t.find? other := by
  have hp : ((fun s : Symbol => s.name == other) ∘ fun s => if s.name == name then f s else s)
      = fun s => s.name == other := by
    funext s
    by_cases h : s.name = name <;> simp [h, hf]
  simp only [find?, update, List.find?_map, hp]
  cases hs : t.symbols.find? fun s => s.name == other with
  | none => simp
  | some s =>
    have hname : s.name = other := by simpa using List.find?_some hs
    by_cases h : other = name <;> simp [hname, h]

/-- Giving a value to a symbol keeps all numbers. -/
@[simp] lemma indexOf?_assign (v : SymbolValue) :
    (t.assign name v).indexOf? other = t.indexOf? other :=
  indexOf?_update fun _ => rfl

/-- Giving a value to a symbol shows in the look-up of its name. -/
lemma find?_assign_self (v : SymbolValue) :
    (t.assign name v).find? name = (t.find? name).map fun s => { s with value := v } := by
  rw [assign, find?_update, if_pos rfl]
  exact fun _ => rfl

/-- Giving a value to a symbol leaves the other symbols alone. -/
lemma find?_assign_ne (v : SymbolValue) (h : other ≠ name) :
    (t.assign name v).find? other = t.find? other := by
  rw [assign, find?_update, if_neg h]
  exact fun _ => rfl

/-! ### Mentioning a name -/

/-- Mentioning a name keeps the numbers that have been given. -/
lemma indexOf?_mention (h : t.indexOf? other = some i) :
    (t.mention name).indexOf? other = some i := by
  unfold mention
  split
  · exact h
  · simp only [indexOf?] at h ⊢
    rw [List.findIdx?_append, h]
    rfl

/-- A name that is mentioned has a symbol, a fresh one if it had none before. -/
lemma find?_mention_self :
    (t.mention name).find? name = some ((t.find? name).getD { name }) := by
  unfold mention
  split
  next s hs => simp [hs]
  next hs =>
    simp only [find?] at hs ⊢
    simp [List.find?_append, hs]

/-- Mentioning a name leaves the other symbols alone. -/
lemma find?_mention_ne (h : other ≠ name) : (t.mention name).find? other = t.find? other := by
  unfold mention
  split
  · rfl
  · simp only [find?]
    rw [List.find?_append, List.find?_singleton, if_neg (by simpa using h.symm), Option.or_none]

/-- A name that is mentioned and then declared with a value has a symbol with that value. -/
lemma find?_mention_update (v : SymbolValue) :
    ((t.mention name).update name fun s => { s with defined := true, value := v }).find? other =
      if other = name then some { (t.find? name).getD { name } with defined := true, value := v }
      else t.find? other := by
  rw [find?_update]
  · split
    next h =>
      rw [h, find?_mention_self]
      rfl
    next h => exact find?_mention_ne h
  · exact fun _ => rfl

/-! ### Declaring a name -/

/-- A name that is declared has a symbol that remembers the declaration. -/
lemma find?_declare_self :
    (t.declare name).find? name = some ((t.find? name).getD { name }).declared := by
  rw [declare, find?_update, if_pos rfl, find?_mention_self]
  · rfl
  · exact fun _ => rfl

/-- Declaring a name leaves the other symbols alone. -/
lemma find?_declare_ne (h : other ≠ name) : (t.declare name).find? other = t.find? other := by
  rw [declare, find?_update, if_neg h, find?_mention_ne h]
  exact fun _ => rfl

/-- Exporting a name keeps its value and its declarations. -/
lemma find?_publish :
    (t.publish name).find? other =
      if other = name then (t.find? other).map fun s => { s with exported := true }
      else t.find? other :=
  find?_update fun _ => rfl

end SymbolTable

namespace SymbolStore

variable {s : SymbolStore} {i j : Nat} {f : SymbolTable → SymbolTable}

/-! ### Tables of a store -/

@[simp] lemma size_push (t : SymbolTable) : (s.push t).size = s.size + 1 := by
  simp [size, push]

@[simp] lemma size_modify : (s.modify i f).size = s.size := by
  simp [size, modify]

/-- A new table has the number that comes next. -/
@[simp] lemma table_push_size (t : SymbolTable) : (s.push t).table s.size = t := by
  simp [table, push, size]

/-- A new table leaves the others alone. -/
lemma table_push_of_lt (t : SymbolTable) (h : i < s.size) : (s.push t).table i = s.table i := by
  have hne : i ≠ s.tables.size := Nat.ne_of_lt h
  simp [table, push, Array.getElem?_push, hne]

/-- If all tables are empty, then they still are when an empty one has been added. -/
lemma table_push_empty (h : ∀ i, s.table i = {}) (i : Nat) : (s.push {}).table i = {} := by
  have hi := h i
  by_cases hne : i = s.tables.size
  · simp [table, push, hne]
  · simpa [table, push, Array.getElem?_push, hne] using hi

/-- Changing a table changes that table. -/
lemma table_modify_self (h : i < s.size) : (s.modify i f).table i = f (s.table i) := by
  have hi : i < s.tables.size := h
  simp [table, modify, hi, Array.getElem_modify]

/-- Changing a table leaves the others alone. -/
lemma table_modify_ne (h : j ≠ i) : (s.modify i f).table j = s.table j := by
  simp [table, modify, Array.getElem?_modify, h.symm]

/-! ### Values -/

variable {n k : Nat} {name : String} {sym : Symbol} {v : UInt16} {ref : SymbolRef}

/-- The symbol at the place of a name is the symbol of the name. -/
lemma symbol?_of_indexOf? (h : (s.table i).indexOf? name = some k) :
    s.symbol? ⟨i, k⟩ = (s.table i).find? name :=
  SymbolTable.getElem?_indexOf? h

/-- A number is its own value. -/
lemma follow_numeric (hk : (s.table i).indexOf? name = some k)
    (hs : (s.table i).find? name = some sym) (hv : sym.value = .numeric v) :
    s.follow (n + 1) ⟨i, k⟩ = some v := by
  simp [follow, symbol?_of_indexOf? hk, hs, hv]

/-- The value of a label is its address. -/
lemma follow_location (hk : (s.table i).indexOf? name = some k)
    (hs : (s.table i).find? name = some sym) (hv : sym.value = .location v 0) :
    s.follow (n + 1) ⟨i, k⟩ = some v := by
  simp [follow, symbol?_of_indexOf? hk, hs, hv]

/-- A reference costs one step. -/
lemma follow_external (hk : (s.table i).indexOf? name = some k)
    (hs : (s.table i).find? name = some sym) (hv : sym.value = .external ref) :
    s.follow (n + 1) ⟨i, k⟩ = s.follow n ref := by
  simp [follow, symbol?_of_indexOf? hk, hs, hv]

/-- The value of a name is found from its place. -/
lemma value?_of_indexOf? (h : (s.table i).indexOf? name = some k) :
    s.value? i name = s.follow (s.size + 1) ⟨i, k⟩ := by
  simp [value?, h, valueAt?]

end SymbolStore

end Pep10
