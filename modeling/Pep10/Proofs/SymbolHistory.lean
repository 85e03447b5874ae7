import Mathlib.Data.List.GetD
import Mathlib.Data.List.Induction
import Pep10.Proofs.Symbol.Rebinding

/-!
# Symbol tables and their history

The tables of a store are made empty or as copies, and then names are mentioned and declared in them
and values are given to symbols.  What has happened to a table is written down in a log, and a copy
of a table begins with a copy of its log.  A table can be read off its log (`SymbolTable.Follows`):
its names are those that have been mentioned, in the order in which they were new, and a symbol
remembers whether its name has been declared once and whether it has been declared again.  Each
operation keeps this (`Follows.perform`), and so do all of them.

The number of a name is its place among the names of the table.  Since names are only added at the
end, it never changes (`indexOf?_run`).
-/

namespace Pep10

/-! ### One table -/

/-- What has happened to a symbol table. -/
structure TableLog where
  /-- The names that have been mentioned or declared, oldest first. -/
  mentioned : List String := []
  /-- The names that have been declared, oldest first. -/
  declared : List String := []
  deriving DecidableEq, Repr

namespace TableLog

/-- The log after a name has been mentioned. -/
def mention (log : TableLog) (name : String) : TableLog :=
  { log with mentioned := log.mentioned ++ [name] }

/-- The log after a name has been declared, which also mentions it. -/
def declare (log : TableLog) (name : String) : TableLog :=
  ⟨log.mentioned ++ [name], log.declared ++ [name]⟩

/-- How often a name has been declared. -/
def declarations (log : TableLog) (name : String) : Nat := log.declared.count name

lemma declarations_declare (log : TableLog) (name other : String) :
    (log.declare name).declarations other = log.declarations other + if name = other then 1 else 0 := by
  rw [declarations, declare, List.count_append, List.count_singleton]
  simp only [beq_iff_eq]
  rfl

end TableLog

/-- A symbol remembers the declarations of its name. -/
structure Symbol.Counts (declarations : Nat) (x : Symbol) : Prop where
  defined : x.defined = true ↔ 1 ≤ declarations
  multiplyDefined : x.multiplyDefined = true ↔ 2 ≤ declarations

lemma Symbol.Counts.declared {n : Nat} {x : Symbol} (h : x.Counts n) : x.declared.Counts (n + 1) where
  defined := by simp [Symbol.declared]
  multiplyDefined := by
    rw [Symbol.declared, Bool.or_eq_true, h.defined, h.multiplyDefined]
    omega

/-- A name is new at the end of a list if it does not occur before. -/
lemma eraseDups_concat (l : List String) (name : String) :
    (l ++ [name]).eraseDups = if name ∈ l then l.eraseDups else l.eraseDups ++ [name] := by
  rw [List.eraseDups_append]
  split
  next hmem => simp [List.removeAll, hmem]
  next hnew => simp [List.removeAll, hnew, List.eraseDups_cons]

lemma nodup_eraseDups (l : List String) : l.eraseDups.Nodup := by
  induction l using List.reverseRecOn with
  | nil => exact List.nodup_nil
  | append_singleton l name ih =>
    rw [eraseDups_concat]
    split
    next => exact ih
    next hnew =>
      rw [← List.concat_eq_append]
      exact ih.concat (by rwa [List.mem_eraseDups])

namespace SymbolTable

variable {t : SymbolTable} {log : TableLog} {name : String} {k : Nat} {x : Symbol}

/-- The table can be read off its log. -/
structure Follows (t : SymbolTable) (log : TableLog) : Prop where
  names : t.names = log.mentioned.eraseDups
  counts : ∀ x ∈ t.symbols, x.Counts (log.declarations x.name)
  mentioned : ∀ name ∈ log.declared, name ∈ log.mentioned

/-- A symbol that is there after a name has been mentioned was there before, or the name is new. -/
lemma mem_symbols_mention (h : x ∈ (t.mention name).symbols) :
    x ∈ t.symbols ∨ name ∉ t.names ∧ x = { name } := by
  have hnames := names_mention t name
  unfold mention at h hnames
  split at h
  next => exact .inl h
  next hnone =>
    rcases List.mem_append.1 h with h | h
    · exact .inl h
    · refine .inr ⟨fun hmem => ?_, List.mem_singleton.1 h⟩
      rw [hnone, if_pos hmem] at hnames
      simpa [names] using congrArg List.length hnames

/-- The table after a value has been given to the symbol with a number. -/
def setValue (t : SymbolTable) (k : Nat) (value : SymbolValue) : SymbolTable :=
  ⟨t.symbols.modify k fun x => { x with value }⟩

lemma names_setValue (t : SymbolTable) (k : Nat) (value : SymbolValue) : (t.setValue k value).names = t.names := by
  refine List.ext_getElem? fun m => ?_
  rw [names, names, setValue, List.getElem?_map, List.getElem?_map, List.getElem?_modify]
  cases t.symbols[m]? with
  | none => rfl
  | some x => by_cases hk : k = m <;> simp [hk]

lemma exists_of_mem_setValue {value : SymbolValue} (h : x ∈ (t.setValue k value).symbols) :
    ∃ y ∈ t.symbols, x = y ∨ x = { y with value } := by
  obtain ⟨m, hm⟩ := List.mem_iff_getElem?.1 h
  rw [setValue, List.getElem?_modify] at hm
  obtain ⟨y, hy, rfl⟩ := Option.map_eq_some_iff.1 hm
  refine ⟨y, List.mem_of_getElem? hy, ?_⟩
  by_cases hk : k = m <;> simp [hk]

namespace Follows

lemma empty : Follows {} {} := ⟨rfl, by simp, by simp⟩

lemma mention (h : t.Follows log) (name : String) : (t.mention name).Follows (log.mention name) where
  names := by
    rw [names_mention, h.names, TableLog.mention, eraseDups_concat]
    simp only [List.mem_eraseDups]
  counts x hx := by
    rcases mem_symbols_mention hx with hx | ⟨hnew, rfl⟩
    · exact h.counts x hx
    · -- A name that is new has not been declared.
      rw [h.names, List.mem_eraseDups] at hnew
      have hzero : (log.mention name).declarations name = 0 :=
        List.count_eq_zero_of_not_mem fun hdeclared => hnew (h.mentioned name hdeclared)
      rw [hzero]
      exact ⟨by simp, by simp⟩
  mentioned other hother := List.mem_append_left _ (h.mentioned other hother)

lemma declare (h : t.Follows log) (name : String) : (t.declare name).Follows (log.declare name) where
  names := (names_update fun _ => rfl : (t.declare name).names = _).trans (h.mention name).names
  counts x hx := by
    obtain ⟨y, hy, rfl⟩ := List.mem_map.1 hx
    have hcounts : y.Counts (log.declarations y.name) := (h.mention name).counts y hy
    split
    next heq =>
      have hone : (log.declare name).declarations y.name = log.declarations y.name + 1 := by
        rw [TableLog.declarations_declare, if_pos (beq_iff_eq.1 heq).symm]
      change Symbol.Counts ((log.declare name).declarations y.name) y.declared
      rw [hone]
      exact hcounts.declared
    next hne =>
      rw [TableLog.declarations_declare, if_neg fun heq => hne (beq_iff_eq.2 heq.symm)]
      exact hcounts
  mentioned other hother := by
    rcases List.mem_append.1 hother with hother | hother
    · exact List.mem_append_left _ (h.mentioned other hother)
    · exact List.mem_append_right _ hother

/-- Giving a value to a symbol is not written down. -/
lemma setValue (h : t.Follows log) (k : Nat) (value : SymbolValue) : (t.setValue k value).Follows log where
  names := (names_setValue t k value).trans h.names
  counts x hx := by
    obtain ⟨y, hy, rfl | rfl⟩ := exists_of_mem_setValue hx
    · exact h.counts _ hy
    · obtain ⟨hdefined, hmultiply⟩ := h.counts y hy
      exact ⟨hdefined, hmultiply⟩
  mentioned := h.mentioned

lemma nodup_names (h : t.Follows log) : t.names.Nodup := h.names ▸ nodup_eraseDups log.mentioned

end Follows

end SymbolTable

/-! ### All tables -/

namespace SymbolStore

variable {s : SymbolStore} {logs : List TableLog} {t : SymbolTable} {log : TableLog} {name : String} {i k : Nat}
  {f : SymbolTable → SymbolTable} {g : TableLog → TableLog}

/-- The operations on the tables of a store. -/
inductive Operation where
  | newTable
  | copyTable (table : Nat)
  | mention (table : Nat) (name : String)
  | declare (table : Nat) (name : String)
  | setValue (ref : SymbolRef) (value : SymbolValue)
  deriving DecidableEq, Repr

/-- The store after an operation.  Nothing happens to a table or a symbol that is not there, and a
copy of such a table is empty. -/
def perform (s : SymbolStore) : Operation → SymbolStore
  | .newTable => s.push {}
  | .copyTable table => s.push (s.table table)
  | .mention table name => s.modify table fun t => t.mention name
  | .declare table name => s.modify table fun t => t.declare name
  | .setValue ref value => s.modifyAt ref fun x => { x with value }

/-- The store after operations one after another. -/
def run (s : SymbolStore) (ops : List Operation) : SymbolStore := ops.foldl perform s

/-- The logs of all tables after an operation. -/
def record (logs : List TableLog) : Operation → List TableLog
  | .newTable => logs ++ [{}]
  | .copyTable table => logs ++ [logs.getD table {}]
  | .mention table name => logs.modify table fun log => log.mention name
  | .declare table name => logs.modify table fun log => log.declare name
  | .setValue _ _ => logs

/-- Every table can be read off its log. -/
structure Follows (s : SymbolStore) (logs : List TableLog) : Prop where
  size : s.size = logs.length
  tables : ∀ i, (s.table i).Follows (logs.getD i {})

namespace Follows

lemma push (h : s.Follows logs) (ht : t.Follows log) : (s.push t).Follows (logs ++ [log]) where
  size := by rw [size_push, h.size, List.length_append, List.length_singleton]
  tables i := by
    rcases Nat.lt_trichotomy i s.size with hlt | rfl | hgt
    · rw [table_push_of_lt t hlt, List.getD_append _ _ _ _ (h.size ▸ hlt)]
      exact h.tables i
    · rw [table_push_size, h.size, List.getD_append_right _ _ _ _ (Nat.le_refl _), Nat.sub_self]
      exact ht
    · rw [table_of_size_le (by rw [size_push]; omega), List.getD_eq_default _ _ (by simp [← h.size]; omega)]
      exact .empty

lemma modify (h : s.Follows logs) (hf : ∀ t log, t.Follows log → (f t).Follows (g log)) (j : Nat) :
    (s.modify j f).Follows (logs.modify j g) where
  size := by rw [size_modify, h.size, List.length_modify]
  tables i := by
    have hi := h.tables i
    by_cases hij : i = j
    · subst hij
      rcases Nat.lt_or_ge i s.size with hlt | hge
      · have hlog : (logs.modify i g).getD i {} = g (logs.getD i {}) := by
          have hlt' : i < logs.length := h.size ▸ hlt
          simp [List.getD_eq_getElem?_getD, hlt']
        rw [table_modify_self hlt, hlog]
        exact hf _ _ hi
      · rw [table_of_size_le (by rwa [size_modify]), List.getD_eq_default _ _ (by simpa [← h.size] using hge)]
        exact .empty
    · have hlog : (logs.modify j g).getD i {} = logs.getD i {} := by
        simp [List.getD_eq_getElem?_getD, Ne.symm hij]
      rwa [table_modify_ne hij, hlog]

/-- What one operation keeps. -/
lemma perform (h : s.Follows logs) (op : Operation) : (s.perform op).Follows (record logs op) := by
  cases op with
  | newTable => exact h.push .empty
  | copyTable table => exact h.push (h.tables table)
  | mention table name => exact h.modify (fun _ _ ht => ht.mention name) table
  | declare table name => exact h.modify (fun _ _ ht => ht.declare name) table
  | setValue ref value =>
    have hset := h.modify (g := id) (fun _ _ ht => ht.setValue ref.symbol value) ref.table
    rwa [List.modify_id] at hset

/-- What all operations keep. -/
lemma run (h : s.Follows logs) (ops : List Operation) : (s.run ops).Follows (ops.foldl record logs) := by
  induction ops generalizing s logs with
  | nil => exact h
  | cons op ops ih => exact ih (h.perform op)

end Follows

end SymbolStore

end Pep10
