import Mathlib.Tactic.Common
import Pep10.Line.Placement

/-!
# Lines one behind the other

The layout of a list of lines from a position: every line stands where the line before it ends, and
every `.ALIGN` line fills up to the next multiple of its operand.  Positions are integers, since a
trial layout may start below zero.

`Contiguous` says that lines stand in this way, `room` is the number of bytes that they take, and
`layoutEnd` is the position behind them if they were laid out afresh from a given position.  The
last one is monotone in the position, which is what makes it possible to search for the highest
start.
-/

namespace Pep10

/-! ### Padding -/

/-- The numbers that `.ALIGN` takes as its operand. -/
def IsAlignment (n : UInt16) : Prop := n = 2 ∨ n = 4 ∨ n = 8

/-- Positions wrap around at the end of the memory. -/
lemma toNat_ofInt_eq_emod (a : Int) : ((UInt16.ofInt a).toNat : Int) = a % 65536 := by
  have hmod : 0 ≤ a % 2 ^ 16 ∧ a % 2 ^ 16 < 2 ^ 16 := by omega
  rw [UInt16.ofInt, UInt16.toNat_ofNat', Nat.mod_eq_of_lt (by omega)]
  omega

/-- A position inside the memory is its own address. -/
lemma toNat_ofInt {a : Int} (h0 : 0 ≤ a) (h1 : a < 65536) : ((UInt16.ofInt a).toNat : Int) = a := by
  rw [toNat_ofInt_eq_emod, Int.emod_eq_of_lt h0 h1]

/-- A word, seen as a position, is its own address. -/
lemma ofInt_toNat (w : UInt16) : UInt16.ofInt w.toNat = w := by
  have hlt := w.toNat_lt
  have h : ((UInt16.ofInt w.toNat).toNat : Int) = w.toNat := toNat_ofInt (by omega) (by omega)
  exact UInt16.toNat_inj.1 (by exact_mod_cast h)

variable {n : UInt16} {a b : Int}

/-- The padding at a position, as an integer. -/
lemma toNat_paddingUp (hn : IsAlignment n) : ((paddingUp n a).toNat : Int) = -a % n.toNat := by
  have hpos : 0 < n.toNat ∧ n.toNat ≤ 8 := by
    rcases hn with rfl | rfl | rfl <;> decide
  refine toNat_ofInt (Int.emod_nonneg _ (by omega)) ?_
  have := Int.emod_lt_of_pos (-a) (show (0 : Int) < n.toNat by omega)
  omega

/-- The padding is less than the number that it pads to a multiple of. -/
lemma paddingUp_lt (hn : IsAlignment n) (a : Int) : (paddingUp n a).toNat < n.toNat := by
  have hpos : 0 < n.toNat := by
    rcases hn with rfl | rfl | rfl <;> decide
  have hlt := Int.emod_lt_of_pos (-a) (show (0 : Int) < n.toNat by omega)
  rw [← toNat_paddingUp hn] at hlt
  omega

/-- The padding leads to a multiple. -/
lemma dvd_add_paddingUp (hn : IsAlignment n) (a : Int) :
    (n.toNat : Int) ∣ a + (paddingUp n a).toNat := by
  rw [toNat_paddingUp hn, Int.dvd_iff_emod_eq_zero, Int.add_emod_emod, Int.add_right_neg]
  exact Int.zero_emod _

/-- Filling up to a multiple is monotone. -/
lemma add_paddingUp_mono (hn : IsAlignment n) (h : a ≤ b) :
    a + (paddingUp n a).toNat ≤ b + (paddingUp n b).toNat := by
  rw [toNat_paddingUp hn, toNat_paddingUp hn]
  rcases hn with rfl | rfl | rfl
  · rw [show ((2 : UInt16).toNat : Int) = 2 from rfl]
    omega
  · rw [show ((4 : UInt16).toNat : Int) = 4 from rfl]
    omega
  · rw [show ((8 : UInt16).toNat : Int) = 8 from rfl]
    omega

/-- The distance down to a multiple, as an integer. -/
lemma toNat_paddingDown (hn : IsAlignment n) : ((paddingDown n a).toNat : Int) = a % n.toNat := by
  have hpos : 0 < n.toNat ∧ n.toNat ≤ 8 := by
    rcases hn with rfl | rfl | rfl <;> decide
  refine toNat_ofInt (Int.emod_nonneg _ (by omega)) ?_
  have := Int.emod_lt_of_pos a (show (0 : Int) < n.toNat by omega)
  omega

/-- The distance down to a multiple is less than the number. -/
lemma paddingDown_lt (hn : IsAlignment n) (a : Int) : (paddingDown n a).toNat < n.toNat := by
  have hpos : 0 < n.toNat := by
    rcases hn with rfl | rfl | rfl <;> decide
  have hlt := Int.emod_lt_of_pos a (show (0 : Int) < n.toNat by omega)
  rw [← toNat_paddingDown hn] at hlt
  omega

/-- The distance leads down to a multiple. -/
lemma dvd_sub_paddingDown (hn : IsAlignment n) (a : Int) :
    (n.toNat : Int) ∣ a - (paddingDown n a).toNat := by
  rw [toNat_paddingDown hn]
  exact Int.dvd_self_sub_emod

/-! ### Statements whose size is known -/

namespace Statement

/-- What reading a line guarantees of its statement: `.BLOCK` takes a constant, and `.ALIGN` takes
one of the numbers that it may. -/
def Regular : Statement → Prop
  | directive .block operand => operand.symbol? = none
  | align operand _ => ∃ n, IsAlignment n ∧ operand = .unsigned n
  | _ => True

/-- The number of bytes of a statement when no symbol has a value. -/
def extent (s : Statement) : Nat := (s.size {} 0).toNat

variable {s : Statement}

/-- A constant has the same value under all symbols. -/
lemma value_eq_of_symbol?_eq_none {operand : Operand} (h : operand.symbol? = none)
    (symbols : SymbolStore) (table : Nat) : operand.value symbols table = operand.constant := by
  cases operand <;> first | rfl | cases h

/-- The size of a regular statement does not depend on the symbols. -/
lemma Regular.size_eq (h : s.Regular) (symbols : SymbolStore) (table : Nat) :
    (s.size symbols table).toNat = s.extent := by
  cases s with
  | directive d operand =>
    cases d with
    | block =>
      have hc : operand.symbol? = none := h
      simp only [extent, size, value_eq_of_symbol?_eq_none hc]
    | ascii => cases operand <;> rfl
    | _ => rfl
  | _ => rfl

/-- A macro call takes no bytes itself. -/
lemma extent_of_target? {target : Nat} (h : s.target? = some target) : s.extent = 0 := by
  cases s <;> first | rfl | cases h

/-! ### Statements at a position -/

@[simp] lemma startingAt_startingAt : (s.startingAt a).startingAt b = s.startingAt b := by
  cases s with
  | align operand _ => cases operand <;> rfl
  | _ => rfl

@[simp] lemma isAddressable_startingAt : (s.startingAt a).isAddressable = s.isAddressable := by
  cases s with
  | align operand _ => cases operand <;> rfl
  | _ => rfl

@[simp] lemma operand?_startingAt : (s.startingAt a).operand? = s.operand? := by
  cases s with
  | align operand _ => cases operand <;> rfl
  | _ => rfl

@[simp] lemma target?_startingAt : (s.startingAt a).target? = s.target? := by
  cases s with
  | align operand _ => cases operand <;> rfl
  | _ => rfl

@[simp] lemma isBurn_startingAt : (s.startingAt a).isBurn = s.isBurn := by
  cases s with
  | align operand _ => cases operand <;> rfl
  | _ => rfl

@[simp] lemma isEquate_startingAt : (s.startingAt a).isEquate = s.isEquate := by
  cases s with
  | align operand _ => cases operand <;> rfl
  | _ => rfl

lemma Regular.startingAt (h : s.Regular) (a : Int) : (s.startingAt a).Regular := by
  cases s with
  | align operand _ =>
    obtain ⟨n, hn, rfl⟩ := h
    exact ⟨n, hn, rfl⟩
  | _ => exact h

/-- Only `.ALIGN` lines depend on their position. -/
lemma startingAt_eq_self (h : ∀ operand padding, s ≠ align operand padding) :
    s.startingAt a = s := by
  cases s with
  | align operand padding => exact absurd rfl (h operand padding)
  | _ => rfl

/-- Whether the statement is an `.ALIGN`. -/
def isAlign : Statement → Bool
  | align .. => true
  | _ => false

lemma startingAt_of_not_isAlign (h : s.isAlign = false) : s.startingAt a = s := by
  refine startingAt_eq_self fun operand padding heq => ?_
  rw [heq] at h
  cases h

/-- The position behind a regular statement is monotone in its own position. -/
lemma Regular.add_extent_mono (hs : s.Regular) (h : a ≤ b) :
    a + (s.startingAt a).extent ≤ b + (s.startingAt b).extent := by
  cases s with
  | align operand padding =>
    obtain ⟨n, hn, rfl⟩ := hs
    exact add_paddingUp_mono hn h
  | _ => exact Int.add_le_add_right h _

/-! ### The shape of a statement -/

/-- A statement as it is read, before calls are bound and padding is known. -/
def shape : Statement → Statement
  | align operand _ => align operand 0
  | call name args _ => call name args 0
  | s => s

@[simp] lemma shape_startingAt : (s.startingAt a).shape = s.shape := by
  cases s with
  | align operand _ => cases operand <;> rfl
  | _ => rfl

@[simp] lemma operand?_shape : s.shape.operand? = s.operand? := by cases s <;> rfl

@[simp] lemma isBurn_shape : s.shape.isBurn = s.isBurn := by cases s <;> rfl

@[simp] lemma isEquate_shape : s.shape.isEquate = s.isEquate := by cases s <;> rfl

@[simp] lemma isAddressable_shape : s.shape.isAddressable = s.isAddressable := by
  cases s <;> rfl

@[simp] lemma isSome_target?_shape : s.shape.target?.isSome = s.target?.isSome := by
  cases s <;> rfl

lemma shape_eq_align_iff {operand : Operand} :
    s.shape = align operand 0 ↔ ∃ padding, s = align operand padding := by
  cases s <;> simp [shape]

@[simp] lemma shape_eq_endMark_iff : s.shape = endMark ↔ s = endMark := by
  cases s <;> simp [shape]

@[simp] lemma regular_shape : s.shape.Regular ↔ s.Regular := by cases s <;> rfl

/-- The room that a regular statement takes at a position depends on its shape alone. -/
lemma Regular.extent_startingAt_congr {s' : Statement} (hs : s.Regular)
    (h : s.shape = s'.shape) : (s.startingAt a).extent = (s'.startingAt a).extent := by
  have hs' : s'.Regular := by rwa [← regular_shape, ← h, regular_shape]
  cases s <;> cases s' <;> simp only [shape, reduceCtorEq] at h <;> try (cases h; rfl)
  obtain ⟨n, -, rfl⟩ := hs
  cases h
  rfl

end Statement

/-! ### Lines at a position -/

namespace Line

variable {line : Line}

@[simp] lemma label_startingAt : (line.startingAt a).label = line.label := rfl

@[simp] lemma number_startingAt : (line.startingAt a).number = line.number := rfl

@[simp] lemma statement_startingAt :
    (line.startingAt a).statement = line.statement.startingAt a := rfl

@[simp] lemma startingAt_startingAt : (line.startingAt a).startingAt b = line.startingAt b := by
  simp [startingAt]

/-- The address of a line is that of the position where it starts. -/
lemma eq_ofInt_of_address {w : UInt16} (h : (line.startingAt a).address = some w) :
    w = UInt16.ofInt a := by
  simp only [startingAt] at h
  split at h
  · cases h
    rfl
  · cases h

/-- A line that stands at a position has the address of that position, if any. -/
lemma address_of_startingAt (h : line.startingAt a = line) :
    line.address =
      if line.statement.isAddressable && inMemory a then some (UInt16.ofInt a) else none := by
  rw [← h]
  simp [startingAt]

/-- The address of a line is the position where it starts. -/
lemma toNat_of_address_startingAt {w : UInt16} (h : (line.startingAt a).address = some w) :
    (w.toNat : Int) = a := by
  simp only [startingAt] at h
  split at h
  next hmem =>
    simp only [inMemory, Bool.and_eq_true, decide_eq_true_eq] at hmem
    cases h
    exact toNat_ofInt hmem.2.1 (by omega)
  · cases h

/-- An `.ALIGN` line that stands at a position has the padding of that position. -/
lemma padding_of_startingAt {padding : UInt16} (h : line.startingAt a = line)
    (hs : line.statement = .align (.unsigned n) padding) : padding = paddingUp n a := by
  have hst : line.statement.startingAt a = line.statement := by
    rw [← statement_startingAt, h]
  rw [hs] at hst
  injection hst with _ hp
  exact hp.symm

/-- A regular `.ALIGN` line that stands at a position fills up to the next multiple of its
operand. -/
lemma aligned_of_startingAt (hr : line.statement.Regular)
    (h : line.startingAt a = line) {operand : Operand} {padding : UInt16}
    (hs : line.statement = .align operand padding) :
    ∃ n, operand = .unsigned n ∧ padding.toNat < n.toNat ∧ (n.toNat : Int) ∣ a + padding.toNat := by
  rw [hs] at hr
  obtain ⟨n, hn, rfl⟩ := hr
  rw [padding_of_startingAt h hs]
  exact ⟨n, rfl, paddingUp_lt hn a, dvd_add_paddingUp hn a⟩

/-- A line as it is read, before it is given an address. -/
def shape (line : Line) : Line :=
  { line with statement := line.statement.shape, address := none, emits := true }

@[simp] lemma shape_startingAt : (line.startingAt a).shape = line.shape := by
  simp [shape, startingAt]

@[simp] lemma shape_emits (emits : Bool) : ({ line with emits } : Line).shape = line.shape := rfl

@[simp] lemma statement_shape : line.shape.statement = line.statement.shape := rfl

@[simp] lemma label_shape : line.shape.label = line.label := rfl

@[simp] lemma number_shape : line.shape.number = line.number := rfl

/-- The address of a line at a position depends on its shape alone. -/
lemma address_startingAt_congr {line' : Line} (h : line'.shape = line.shape) :
    (line'.startingAt a).address = (line.startingAt a).address := by
  have hst : line'.statement.shape = line.statement.shape := congrArg Line.statement h
  have haddressable : line'.statement.isAddressable = line.statement.isAddressable := by
    rw [← Statement.isAddressable_shape, hst, Statement.isAddressable_shape]
  simp only [startingAt, haddressable]

/-- Where a line stands that is no call depends on its shape alone. -/
lemma startingAt_congr {line' : Line} (h : line'.shape = line.shape) (hr : line.statement.Regular)
    (htarget : line.statement.target? = none) (hemits : line'.emits = line.emits) :
    line'.startingAt a = line.startingAt a := by
  have haddress := address_startingAt_congr (a := a) h
  obtain ⟨s, number, label, comment, address, emits, trace⟩ := line
  obtain ⟨s', number', label', comment', address', emits', trace'⟩ := line'
  simp only [shape, Line.mk.injEq] at h
  obtain ⟨hs, rfl, rfl, rfl, -, -, rfl⟩ := h
  obtain rfl : emits' = emits := hemits
  have hstatement : s'.startingAt a = s.startingAt a := by
    cases s with
    | align operand padding =>
      obtain ⟨n, -, rfl⟩ := hr
      obtain ⟨padding', rfl⟩ := Statement.shape_eq_align_iff.1 hs
      rfl
    | call => cases htarget
    | _ => cases s' <;> simp_all [Statement.shape]
  simp only [startingAt, Line.mk.injEq, true_and, and_true] at haddress ⊢
  exact ⟨hstatement, haddress⟩

/-- Whether a line ends its module can be told from its shape. -/
lemma endMark_iff_of_shape {line' : Line} (h : line'.shape = line.shape) :
    line'.statement = .endMark ↔ line.statement = .endMark := by
  rw [← Statement.shape_eq_endMark_iff, ← statement_shape, h, statement_shape,
    Statement.shape_eq_endMark_iff]

/-- Whether a line is a call can be told from its shape. -/
lemma isSome_target?_of_shape {line' : Line} (h : line'.shape = line.shape) :
    line'.statement.target?.isSome = line.statement.target?.isSome := by
  rw [← Statement.isSome_target?_shape, ← statement_shape, h, statement_shape,
    Statement.isSome_target?_shape]

/-- A line with the shape of a line that is no call is no call. -/
lemma target?_of_shape {line' : Line} (h : line.shape = line'.shape)
    (htarget : line.statement.target? = none) : line'.statement.target? = none := by
  have hsome := isSome_target?_of_shape h
  rw [htarget] at hsome
  exact Option.not_isSome_iff_eq_none.1 (by rw [← hsome]; exact Bool.false_ne_true)

end Line

/-! ### Lists of lines -/

/-- The number of bytes that some lines take. -/
def room (lines : List Line) : Nat :=
  lines.foldr (fun line count => line.statement.extent + count) 0

/-- The lines stand one behind the other from a position on. -/
def Contiguous : Int → List Line → Prop
  | _, [] => True
  | a, line :: rest => line.startingAt a = line ∧ Contiguous (a + line.statement.extent) rest

/-- The position behind some lines that are laid out from a position. -/
def layoutEnd : Int → List Line → Int
  | a, [] => a
  | a, line :: rest => layoutEnd (a + (line.statement.startingAt a).extent) rest

variable {lines lines' before after : List Line} {line : Line}

@[simp] lemma room_nil : room [] = 0 := rfl

@[simp] lemma room_cons : room (line :: lines) = line.statement.extent + room lines := rfl

@[simp] lemma room_append : room (before ++ after) = room before + room after := by
  induction before with
  | nil => simp
  | cons line before ih => rw [List.cons_append, room_cons, room_cons, ih, Nat.add_assoc]

lemma contiguous_append :
    Contiguous a (before ++ after) ↔ Contiguous a before ∧ Contiguous (a + room before) after := by
  induction before generalizing a with
  | nil => simp [Contiguous]
  | cons line before ih =>
    rw [List.cons_append, Contiguous, Contiguous, ih, room_cons, and_assoc]
    push_cast
    rw [Int.add_assoc]

/-- The lines have the addresses of standing one behind the other from a position on, however
`.ALIGN` lines are padded. -/
def Addressed : Int → List Line → Prop
  | _, [] => True
  | a, line :: rest =>
    line.address = (line.startingAt a).address ∧ Addressed (a + line.statement.extent) rest

lemma addressed_append :
    Addressed a (before ++ after) ↔ Addressed a before ∧ Addressed (a + room before) after := by
  induction before generalizing a with
  | nil => simp [Addressed]
  | cons line before ih =>
    rw [List.cons_append, Addressed, Addressed, ih, room_cons, and_assoc]
    push_cast
    rw [Int.add_assoc]

lemma Contiguous.addressed (h : Contiguous a lines) : Addressed a lines := by
  induction lines generalizing a with
  | nil => trivial
  | cons line lines ih => exact ⟨by rw [h.1], ih h.2⟩

/-- Every one of some contiguous lines stands where those before it end. -/
lemma Contiguous.startingAt (h : Contiguous a (before ++ line :: after)) :
    line.startingAt (a + room before) = line :=
  (contiguous_append.1 h).2.1

/-- Lines that stand one behind the other from the same position on are the same if they have the
same shapes, are no calls and emit code. -/
lemma Contiguous.eq_of_shapes (h : Contiguous a lines) (h' : Contiguous a lines')
    (hshapes : lines'.map Line.shape = lines.map Line.shape)
    (hr : ∀ line ∈ lines, line.statement.Regular)
    (htarget : ∀ line ∈ lines, line.statement.target? = none)
    (hemits : ∀ line ∈ lines, line.emits = true) (hemits' : ∀ line ∈ lines', line.emits = true) :
    lines' = lines := by
  induction lines generalizing a lines' with
  | nil => simpa using hshapes
  | cons line lines ih =>
    cases lines' with
    | nil => simp at hshapes
    | cons line' lines' =>
      rw [List.map_cons, List.map_cons, List.cons.injEq] at hshapes
      rw [List.forall_mem_cons] at hr htarget hemits hemits'
      have hline : line' = line := by
        rw [← h'.1, ← h.1]
        exact Line.startingAt_congr hshapes.1 hr.1 htarget.1 (hemits'.1.trans hemits.1.symm)
      subst hline
      rw [ih h.2 h'.2 hshapes.2 hr.2 htarget.2 hemits.2 hemits'.2]

/-- A line among contiguous ones in memory has an address, if it calls for one. -/
lemma Contiguous.exists_address (h : Contiguous a lines) (ha : 0 ≤ a) (hroom : a + room lines ≤ 0xFFFF)
    (hline : line ∈ lines) (haddressable : line.statement.isAddressable = true) :
    ∃ w, line.address = some w := by
  obtain ⟨before, after, rfl⟩ := List.append_of_mem hline
  rw [room_append] at hroom
  have hmem : inMemory (a + room before) = true := by
    simp only [inMemory, Bool.and_eq_true, decide_eq_true_eq]
    push_cast at hroom
    omega
  refine ⟨UInt16.ofInt (a + room before), ?_⟩
  rw [Line.address_of_startingAt h.startingAt, haddressable, hmem]
  rfl

lemma layoutEnd_append :
    layoutEnd a (before ++ after) = layoutEnd (layoutEnd a before) after := by
  induction before generalizing a with
  | nil => rfl
  | cons line before ih => exact ih

/-- Contiguous lines end behind the room that they take. -/
lemma Contiguous.layoutEnd_eq (h : Contiguous a lines) : layoutEnd a lines = a + room lines := by
  induction lines generalizing a with
  | nil => simp [layoutEnd]
  | cons line lines ih =>
    have hs : line.statement.startingAt a = line.statement := by
      rw [← Line.statement_startingAt, h.1]
    rw [layoutEnd, hs, ih h.2, room_cons]
    push_cast
    rw [Int.add_assoc]

/-- Lines without an `.ALIGN` take the same room wherever they are laid out. -/
lemma layoutEnd_of_not_align
    (h : ∀ line ∈ lines, line.statement.isAlign = false) : layoutEnd a lines = a + room lines := by
  induction lines generalizing a with
  | nil => simp [layoutEnd]
  | cons line lines ih =>
    rw [List.forall_mem_cons] at h
    rw [layoutEnd, Statement.startingAt_of_not_isAlign h.1, ih h.2, room_cons]
    push_cast
    rw [Int.add_assoc]

lemma le_layoutEnd : a ≤ layoutEnd a lines := by
  induction lines generalizing a with
  | nil => exact Int.le_refl a
  | cons line lines ih =>
    have := ih (a := a + (line.statement.startingAt a).extent)
    rw [layoutEnd]
    omega

/-- The end of a layout is monotone in its start. -/
lemma layoutEnd_mono (hr : ∀ line ∈ lines, line.statement.Regular) (h : a ≤ b) :
    layoutEnd a lines ≤ layoutEnd b lines := by
  induction lines generalizing a b with
  | nil => exact h
  | cons line lines ih =>
    rw [List.forall_mem_cons] at hr
    exact ih hr.2 (hr.1.add_extent_mono h)

/-- Of lines with the same shapes, each is found again. -/
lemma exists_shape_eq {line : Line} (h : lines'.map Line.shape = lines.map Line.shape)
    (hline : line ∈ lines') : ∃ before ∈ lines, before.shape = line.shape := by
  have hmem := List.mem_map_of_mem (f := Line.shape) hline
  rw [h] at hmem
  exact List.mem_map.1 hmem

/-- What can be told of lines from their shapes holds of all lists with the same shapes. -/
lemma forall_of_shapes {P : Line → Prop}
    (hP : ∀ {line line' : Line}, line.shape = line'.shape → P line → P line')
    (h : lines'.map Line.shape = lines.map Line.shape) (hlines : ∀ line ∈ lines, P line) :
    ∀ line ∈ lines', P line := by
  intro line hline
  obtain ⟨before, hbefore, hshape⟩ := exists_shape_eq h hline
  exact hP hshape (hlines before hbefore)

/-- Whether lines are regular can be told from their shapes. -/
lemma regular_of_shapes (hr : ∀ line ∈ lines, line.statement.Regular)
    (h : lines'.map Line.shape = lines.map Line.shape) : ∀ line ∈ lines', line.statement.Regular := by
  refine forall_of_shapes (fun {line line'} hshape hline => ?_) h hr
  have hst : line.statement.shape = line'.statement.shape := congrArg Line.statement hshape
  rwa [← Statement.regular_shape, ← hst, Statement.regular_shape]

/-- The end of a layout does not depend on where the lines stood before. -/
lemma layoutEnd_congr (hr : ∀ line ∈ lines, line.statement.Regular)
    (h : lines.map Line.shape = lines'.map Line.shape) :
    layoutEnd a lines = layoutEnd a lines' := by
  induction lines generalizing a lines' with
  | nil =>
    obtain rfl : lines' = [] := by simpa using h.symm
    rfl
  | cons line lines ih =>
    cases lines' with
    | nil => simp at h
    | cons line' lines' =>
      rw [List.forall_mem_cons] at hr
      rw [List.map_cons, List.map_cons, List.cons.injEq] at h
      have hline : line.statement.shape = line'.statement.shape := congrArg Line.statement h.1
      rw [layoutEnd, layoutEnd, hr.1.extent_startingAt_congr hline, ih hr.2 h.2]

end Pep10
