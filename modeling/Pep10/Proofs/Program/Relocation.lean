import Pep10.Proofs.Program.FirstPass
import Pep10.Proofs.Symbol.Relabeling

/-!
# Laying lines out again

Relocation lays out the ROM of an operating system from a start, and the lines in front of it so
that they end there.  `Lays` and `LaysBefore` are these two ways of giving new addresses to lines,
without a bound on the depth of calls.  Either of them changes the lines of the instances of an
interval, keeping their shapes, and moves the labels of the lines that are laid out.
-/

namespace Pep10.Program

open SymbolStore (Relabeled)

variable {p p₁ p₂ p' q : Program} {emits : Bool} {lo mid hi table depth j : Nat} {a a₁ a' b : Int}
  {line line' : Line} {lines lines' rest body : List Line}

/-! ### Changing lines -/

/-- The program in which an instance has other lines. -/
def setLines (p : Program) (id : Nat) (lines : List Line) : Program :=
  p.modifyInstance id fun i => { i with lines }

lemma inst_setLines_self (h : j < p.instances.size) :
    (p.setLines j lines).inst j = { p.inst j with lines } :=
  inst_modifyInstance_self h

lemma inst_setLines_ne {id : Nat} (h : j ≠ id) : (p.setLines id lines).inst j = p.inst j :=
  inst_modifyInstance_ne h

/-- Moving a label touches the symbols alone. -/
lemma exists_moveLabel (p : Program) (table : Nat) (line : Line) (a : Int) :
    ∃ s : SymbolStore, p.moveLabel table line a = { p with symbols := s } := by
  unfold moveLabel
  split
  · exact ⟨p.symbols, rfl⟩
  · split
    · exact ⟨p.symbols, rfl⟩
    · exact ⟨_, rfl⟩

@[simp] lemma inst_moveLabel : (p.moveLabel table line a).inst j = p.inst j := by
  obtain ⟨s, hs⟩ := exists_moveLabel p table line a
  rw [hs]
  rfl

@[simp] lemma instances_moveLabel : (p.moveLabel table line a).instances = p.instances := by
  obtain ⟨s, hs⟩ := exists_moveLabel p table line a
  rw [hs]

@[simp] lemma modules_moveLabel : (p.moveLabel table line a).modules = p.modules := by
  obtain ⟨s, hs⟩ := exists_moveLabel p table line a
  rw [hs]

/-- What a label is moved to does not depend on where its line stood before. -/
lemma moveLabel_congr (h : line'.shape = line.shape) :
    p.moveLabel table line' a = p.moveLabel table line a := by
  rw [moveLabel, moveLabel, Line.label_of_shape h, Line.isEquate_of_shape h]

/-- The label of a line is moved to where the line is moved. -/
lemma relabeled_moveLabel (htable : table < p.symbols.size) (hshape : line'.shape = line.shape)
    (haddress : line'.address = (line.startingAt a).address) :
    Relabeled (fun i other => i = table ∧ other = line') p.symbols
      (p.moveLabel table line a).symbols := by
  have hlabel := Line.addressLabel?_of_shape hshape
  unfold moveLabel
  split
  next hnone => exact .keep (by rw [hlabel, Line.addressLabel?, hnone, ite_self])
  next name hname =>
    split
    next hequate => exact .keep (by rw [hlabel, Line.addressLabel?, if_pos hequate])
    next hequate =>
      refine .assign (by rw [hlabel, Line.addressLabel?, if_neg hequate, hname]) ?_ htable
      rw [Line.gives_of_not_isEquate (by rw [Line.isEquate_of_shape hshape]; simpa using hequate)]
      intro w hw
      rw [haddress] at hw
      exact (Line.eq_ofInt_of_address hw).symm

/-- The program `p'` is the program `p` with other lines of the same shapes in the instances of an
interval, and with other symbols. -/
structure Reshaped (lo hi : Nat) (p p' : Program) : Prop where
  size_eq : p'.instances.size = p.instances.size
  modules_eq : p'.modules = p.modules
  inst_eq : ∀ j, j < lo ∨ hi ≤ j → p'.inst j = p.inst j
  shapes : ∀ j, ∃ lines, p'.inst j = { p.inst j with lines } ∧
    lines.map Line.shape = (p.inst j).lines.map Line.shape

namespace Reshaped

lemma refl (p : Program) : Reshaped lo hi p p where
  size_eq := rfl
  modules_eq := rfl
  inst_eq _ _ := rfl
  shapes j := ⟨(p.inst j).lines, rfl, rfl⟩

lemma trans (h : Reshaped lo hi p p₁) (h' : Reshaped lo hi p₁ p') : Reshaped lo hi p p' where
  size_eq := h'.size_eq.trans h.size_eq
  modules_eq := h'.modules_eq.trans h.modules_eq
  inst_eq j hj := (h'.inst_eq j hj).trans (h.inst_eq j hj)
  shapes j := by
    obtain ⟨lines, hlines, hshapes⟩ := h.shapes j
    obtain ⟨lines', hlines', hshapes'⟩ := h'.shapes j
    refine ⟨lines', by rw [hlines', hlines], ?_⟩
    rw [hshapes', hlines, hshapes]

/-- The interval can be made larger. -/
lemma mono {lo' hi' : Nat} (h : Reshaped lo hi p p') (hlo : lo' ≤ lo) (hhi : hi ≤ hi') :
    Reshaped lo' hi' p p' where
  size_eq := h.size_eq
  modules_eq := h.modules_eq
  inst_eq j hj := h.inst_eq j (by omega)
  shapes := h.shapes

lemma moveLabel (p : Program) (table : Nat) (line : Line) (a : Int) :
    Reshaped lo hi p (p.moveLabel table line a) where
  size_eq := by rw [instances_moveLabel]
  modules_eq := modules_moveLabel
  inst_eq _ _ := inst_moveLabel
  shapes j := ⟨(p.inst j).lines, by rw [inst_moveLabel], rfl⟩

lemma setLines (hlt : j < p.instances.size) (hj : lo ≤ j) (hj' : j < hi)
    (hshapes : lines.map Line.shape = (p.inst j).lines.map Line.shape) :
    Reshaped lo hi p (p.setLines j lines) where
  size_eq := size_modifyInstance
  modules_eq := rfl
  inst_eq i hi := inst_setLines_ne (by omega)
  shapes i := by
    by_cases hi : i = j
    · subst hi
      exact ⟨lines, inst_setLines_self hlt, hshapes⟩
    · exact ⟨(p.inst i).lines, by rw [inst_setLines_ne hi], rfl⟩

/-- Instances keep their symbol tables. -/
lemma table_eq (h : Reshaped lo hi p p') (j : Nat) : (p'.inst j).table = (p.inst j).table := by
  obtain ⟨lines, hlines, -⟩ := h.shapes j
  rw [hlines]

end Reshaped

/-- The instances from the one that is called on are that one, those that it calls, and those behind
them. -/
lemma forall_called {P : Nat → Prop} (mid : Nat) (hself : P lo) (hwithin : ∀ j, lo + 1 ≤ j → j < mid → P j)
    (hbehind : ∀ j, mid ≤ j → j < hi → P j) : ∀ j, lo ≤ j → j < hi → P j := by
  intro j hj hj'
  rcases Nat.eq_or_lt_of_le hj with rfl | hlo
  · exact hself
  · rcases Nat.lt_or_ge j mid with hm | hm
    · exact hwithin j hlo hm
    · exact hbehind j hm hj'

/-! ### From a start -/

/-- Lines of an instance with the given symbol table are laid out from a position, together with the
instances from `lo` up to `hi` that they call. -/
inductive Lays (emits : Bool) :
    Nat → Nat → Nat → Program → Int → List Line → Program → Int → List Line → Prop
  | nil {lo table : Nat} {p : Program} {a : Int} : Lays emits lo lo table p a [] p a []
  | plain {lo hi table : Nat} {p p' : Program} {a a' : Int} {line : Line} {rest rest' : List Line}
      (hline : line.statement.target? = none)
      (hrest : Lays emits lo hi table (p.moveLabel table line a)
        (a + (line.statement.startingAt a).extent) rest p' a' rest') :
      Lays emits lo hi table p a (line :: rest) p' a' ({ line.startingAt a with emits } :: rest')
  | call {lo mid hi table : Nat} {p p₁ p' : Program} {a a₁ a' : Int} {line : Line}
      {rest rest' body : List Line}
      (hline : line.statement.target? = some lo) (hlt : lo < p.instances.size)
      (hbody : Lays emits (lo + 1) mid (p.inst lo).table (p.moveLabel table line a) a
        (p.inst lo).lines p₁ a₁ body)
      (hrest : Lays emits mid hi table (p₁.setLines lo body) a₁ rest p' a' rest') :
      Lays emits lo hi table p a (line :: rest) p' a' ({ line.startingAt a with emits } :: rest')

namespace Lays

lemma le (h : Lays emits lo hi table p a lines p' a' lines') : lo ≤ hi := by
  induction h with
  | nil => exact Nat.le_refl _
  | plain _ _ ih => exact ih
  | call _ _ _ _ ihbody ihrest => omega

/-- The lines keep their shapes. -/
lemma shapes (h : Lays emits lo hi table p a lines p' a' lines') :
    lines'.map Line.shape = lines.map Line.shape := by
  induction h with
  | nil => rfl
  | plain _ _ ih => rw [List.map_cons, List.map_cons, ih, Line.shape_emits, Line.shape_startingAt]
  | call _ _ _ _ _ ih =>
    rw [List.map_cons, List.map_cons, ih, Line.shape_emits, Line.shape_startingAt]

/-- Nothing but the instances of the interval is changed, and there lines keep their shapes. -/
lemma reshaped (h : Lays emits lo hi table p a lines p' a' lines') : Reshaped lo hi p p' := by
  induction h with
  | nil => exact .refl _
  | plain _ _ ih => exact (Reshaped.moveLabel ..).trans ih
  | @call lo mid hi table p p₁ p' a a₁ a' line rest rest' body _ hlt hbody hrest ihbody ihrest =>
    have h1 := hbody.le
    have h2 := hrest.le
    have hstep : Reshaped lo hi p p₁ :=
      (Reshaped.moveLabel ..).trans (ihbody.mono (by omega) (by omega))
    have hset : Reshaped lo hi p₁ (p₁.setLines lo body) := by
      refine .setLines (by rwa [hstep.size_eq]) (Nat.le_refl lo) (by omega) ?_
      rw [hbody.shapes, ihbody.inst_eq lo (by omega), inst_moveLabel]
    exact (hstep.trans hset).trans (ihrest.mono (by omega) (Nat.le_refl hi))

/-! What a call changes: the instance that is called gets its lines, the instances that this one
calls are laid out with it, and the instances behind them stay. -/

section Called

variable {p₁ : Program}
  (hbody : Lays emits (lo + 1) mid (p.inst lo).table (p.moveLabel table line a) a (p.inst lo).lines p₁ a₁ body)

include hbody

/-- The instance that is called has the lines that were laid out. -/
lemma inst_self (hlt : lo < p.instances.size) :
    (p₁.setLines lo body).inst lo = { p.inst lo with lines := body } := by
  have hsize : p₁.instances.size = p.instances.size := by
    rw [hbody.reshaped.size_eq, instances_moveLabel]
  rw [inst_setLines_self (by rwa [hsize]), hbody.reshaped.inst_eq lo (by omega), inst_moveLabel]

/-- The instance that is called has the lines that were laid out, until the end. -/
lemma inst_called (hlt : lo < p.instances.size)
    (hrest : Lays emits mid hi table (p₁.setLines lo body) a₁ rest p' a' lines') :
    p'.inst lo = { p.inst lo with lines := body } := by
  have h1 := hbody.le
  rw [hrest.reshaped.inst_eq lo (by omega), hbody.inst_self hlt]

/-- The instances behind the ones that are called stay. -/
lemma inst_behind (hj : mid ≤ j) : (p₁.setLines lo body).inst j = p.inst j := by
  have h1 := hbody.le
  rw [inst_setLines_ne (by omega), hbody.reshaped.inst_eq j (.inr hj), inst_moveLabel]

end Called

/-- The instances that are called stay while the lines behind the call are laid out. -/
lemma inst_within {p₁ : Program}
    (hrest : Lays emits mid hi table (p₁.setLines lo body) a₁ rest p' a' lines') (hlo : lo < j) (hj : j < mid) :
    p'.inst j = p₁.inst j := by
  rw [hrest.reshaped.inst_eq j (.inl hj), inst_setLines_ne (by omega)]

/-- The lines call the instances of the interval before they are laid out. -/
lemma spans_before (h : Lays emits lo hi table p a lines p' a' lines') : Spans p lo lines hi := by
  induction h with
  | nil => exact .nil _
  | plain hline _ ih => exact .plain hline (ih.congr fun j _ _ => by rw [inst_moveLabel])
  | @call lo mid hi table p p₁ p' a a₁ a' line rest rest' body hline hlt hbody hrest ihbody ihrest =>
    exact .call hline (ihbody.congr fun j _ _ => by rw [inst_moveLabel])
      (ihrest.congr fun j hj _ => by rw [hbody.inst_behind hj])

/-- A line that calls an instance calls the instances that this one calls. -/
lemma spans_called {p₁ : Program} (hbody : Lays emits (lo + 1) mid (p.inst lo).table (p.moveLabel table line a) a
    (p.inst lo).lines p₁ a₁ body) : Spans p (lo + 1) (p.inst lo).lines mid :=
  hbody.spans_before.congr fun j _ _ => by rw [inst_moveLabel]

/-- The lines call the instances of the interval. -/
lemma spans (h : Lays emits lo hi table p a lines p' a' lines') : Spans p' lo lines' hi := by
  induction h with
  | nil => exact .nil _
  | plain hline _ ih => exact .plain (by simpa using hline) ih
  | @call lo mid hi table p p₁ p' a a₁ a' line rest rest' body hline hlt hbody hrest ihbody ihrest =>
    refine .call (by simpa using hline) ?_ ihrest
    rw [hbody.inst_called hlt hrest]
    exact ihbody.congr fun j hj hj' => by rw [hrest.inst_within hj hj']

/-- The lines of the expansion stand one behind the other. -/
lemma contiguous (h : Lays emits lo hi table p a lines p' a' lines') :
    ∃ e, Expands p' lines' e ∧ Contiguous a e ∧ a' = a + room e := by
  induction h with
  | nil => exact ⟨[], .nil, trivial, by simp⟩
  | @plain lo hi table p p' a a' line rest rest' hline hrest ih =>
    obtain ⟨e, hexp, hcont, hend⟩ := ih
    refine ⟨{ line.startingAt a with emits } :: e, .plain (by simpa using hline) hexp, ⟨?_, hcont⟩, ?_⟩
    · simp [Line.startingAt]
    · rw [hend, room_cons]
      push_cast
      rw [Int.add_assoc]
      rfl
  | @call lo mid hi table p p₁ p' a a₁ a' line rest rest' body hline hlt hbody hrest ihbody ihrest =>
    obtain ⟨e₁, hexp₁, hcont₁, rfl⟩ := ihbody
    obtain ⟨e₂, hexp₂, hcont₂, hend₂⟩ := ihrest
    have hexp : Expands p' body e₁ :=
      hbody.spans.expands_congr (fun j hj hj' => by rw [hrest.inst_within hj hj']) hexp₁
    have htarget : ({ line.startingAt a with emits } : Line).statement.target? = some lo := by
      simpa using hline
    have hzero := Statement.extent_of_target? htarget
    refine ⟨{ line.startingAt a with emits } :: (e₁ ++ e₂), .call htarget ?_ hexp₂, ⟨?_, ?_⟩, ?_⟩
    · rwa [hbody.inst_called hlt hrest]
    · simp [Line.startingAt]
    · rw [hzero, Int.natCast_zero, Int.add_zero, contiguous_append]
      exact ⟨hcont₁, hcont₂⟩
    · rw [hend₂, room_cons, hzero, room_append]
      push_cast
      omega

/-- All lines that are laid out emit code, or none does. -/
lemma emits_eq (h : Lays emits lo hi table p a lines p' a' lines') :
    (∀ line ∈ lines', line.emits = emits) ∧
      ∀ j, lo ≤ j → j < hi → ∀ line ∈ (p'.inst j).lines, line.emits = emits := by
  induction h with
  | nil => exact ⟨List.forall_mem_nil _, fun j hj hj' => absurd hj (by omega)⟩
  | plain _ _ ih => exact ⟨List.forall_mem_cons.2 ⟨rfl, ih.1⟩, ih.2⟩
  | @call lo mid hi table p p₁ p' a a₁ a' line rest rest' body _ hlt hbody hrest ihbody ihrest =>
    refine ⟨List.forall_mem_cons.2 ⟨rfl, ihrest.1⟩, forall_called mid ?_ (fun j hj hj' => ?_) ihrest.2⟩
    · rw [hbody.inst_called hlt hrest]
      exact ihbody.1
    · rw [hrest.inst_within hj hj']
      exact ihbody.2 j hj hj'

end Lays

/-! ### Labels -/

/-- A line is one of the given lines, whose instance has the given symbol table, or a line of an
instance in the interval; `i` is the number of its symbol table. -/
def Laid (p : Program) (lo hi table : Nat) (lines : List Line) (i : Nat) (line : Line) : Prop :=
  (i = table ∧ line ∈ lines) ∨
    ∃ j, lo ≤ j ∧ j < hi ∧ i = (p.inst j).table ∧ line ∈ (p.inst j).lines

lemma laid_cons {i : Nat} {other : Line} :
    Laid p lo hi table (line :: rest) i other ↔
      (i = table ∧ other = line) ∨ Laid p lo hi table rest i other := by
  rw [Laid, Laid, List.mem_cons, and_or_left, or_assoc]

/-- Only the instances of the interval matter. -/
lemma laid_congr {i : Nat} {other : Line} (h : ∀ j, lo ≤ j → j < hi → p.inst j = p'.inst j) :
    Laid p lo hi table lines i other ↔ Laid p' lo hi table lines i other := by
  refine or_congr Iff.rfl (exists_congr fun j => ?_)
  constructor
  · rintro ⟨hj, hj', hline⟩
    rw [h j hj hj'] at hline
    exact ⟨hj, hj', hline⟩
  · rintro ⟨hj, hj', hline⟩
    rw [← h j hj hj'] at hline
    exact ⟨hj, hj', hline⟩

/-- An interval can be split where the lines are. -/
lemma laid_append {i : Nat} {other : Line} {before after : List Line} (hlo : lo ≤ mid)
    (hhi : mid ≤ hi) :
    Laid p lo hi table (before ++ after) i other ↔
      Laid p lo mid table before i other ∨ Laid p mid hi table after i other := by
  constructor
  · rintro (⟨hi, hline⟩ | ⟨j, hj, hj', hline⟩)
    · rcases List.mem_append.1 hline with hline | hline
      · exact .inl (.inl ⟨hi, hline⟩)
      · exact .inr (.inl ⟨hi, hline⟩)
    · rcases Nat.lt_or_ge j mid with hm | hm
      · exact .inl (.inr ⟨j, hj, hm, hline⟩)
      · exact .inr (.inr ⟨j, hm, hj', hline⟩)
  · rintro ((⟨hi, hline⟩ | ⟨j, hj, hj', hline⟩) | (⟨hi, hline⟩ | ⟨j, hj, hj', hline⟩))
    · exact .inl ⟨hi, List.mem_append_left _ hline⟩
    · exact .inr ⟨j, hj, by omega, hline⟩
    · exact .inl ⟨hi, List.mem_append_right _ hline⟩
    · exact .inr ⟨j, by omega, hj', hline⟩

/-- The lines of an interval are those of its first instance, of the instances that this one calls,
and of the others. -/
lemma laid_called {i : Nat} {other : Line} (hlo : lo < mid) (hhi : mid ≤ hi)
    (hinst : p'.inst lo = { p.inst lo with lines := body })
    (hsame : ∀ j, lo < j → j < mid → p'.inst j = p₁.inst j) :
    Laid p' lo hi table rest i other ↔
      Laid p₁ (lo + 1) mid (p.inst lo).table body i other ∨ Laid p' mid hi table rest i other := by
  constructor
  · rintro (hrest | ⟨j, hj, hj', hi, hline⟩)
    · exact .inr (.inl hrest)
    · rcases Nat.lt_trichotomy lo j with hlt | rfl | hlt
      · rcases Nat.lt_or_ge j mid with hm | hm
        · rw [hsame j hlt hm] at hi hline
          exact .inl (.inr ⟨j, hlt, hm, hi, hline⟩)
        · exact .inr (.inr ⟨j, hm, hj', hi, hline⟩)
      · rw [hinst] at hi hline
        exact .inl (.inl ⟨hi, hline⟩)
      · omega
  · rintro ((⟨hi, hline⟩ | ⟨j, hj, hj', hi, hline⟩) | (hrest | ⟨j, hj, hj', hi, hline⟩))
    · exact .inr ⟨lo, Nat.le_refl lo, by omega, by rw [hinst]; exact hi, by rw [hinst]; exact hline⟩
    · rw [← hsame j (by omega) hj'] at hi hline
      exact .inr ⟨j, by omega, by omega, hi, hline⟩
    · exact .inl hrest
    · exact .inr ⟨j, by omega, hj', hi, hline⟩

/-- Laying lines out moves their labels. -/
lemma Lays.relabeled (h : Lays emits lo hi table p a lines p' a' lines')
    (htable : table < p.symbols.size)
    (htables : ∀ j, lo ≤ j → j < hi → (p.inst j).table < p.symbols.size) :
    Relabeled (Laid p' lo hi table lines') p.symbols p'.symbols := by
  induction h with
  | nil =>
    refine .refl _ fun i line hline => ?_
    rcases hline with ⟨-, hline⟩ | ⟨j, hj, hj', -⟩
    · cases hline
    · omega
  | @plain lo hi table p p' a a' line rest rest' hline hrest ih =>
    have hmove : Relabeled (fun i other => i = table ∧ other = { line.startingAt a with emits })
        p.symbols (p.moveLabel table line a).symbols :=
      relabeled_moveLabel htable (by rw [Line.shape_emits, Line.shape_startingAt]) rfl
    refine hmove.trans (ih ?_ ?_) fun i other => laid_cons
    · rwa [hmove.size_eq]
    · intro j hj hj'
      rw [hmove.size_eq, inst_moveLabel]
      exact htables j hj hj'
  | @call lo mid hi table p p₁ p' a a₁ a' line rest rest' body hline hlt hbody hrest ihbody ihrest =>
    have h1 := hbody.le
    have h2 := hrest.le
    have hmove : Relabeled (fun i other => i = table ∧ other = { line.startingAt a with emits })
        p.symbols (p.moveLabel table line a).symbols :=
      relabeled_moveLabel htable (by rw [Line.shape_emits, Line.shape_startingAt]) rfl
    have hcalled := ihbody (by rw [hmove.size_eq]; exact htables lo (Nat.le_refl lo) (by omega))
      fun j hj hj' => by
        rw [hmove.size_eq, inst_moveLabel]
        exact htables j (by omega) (by omega)
    have hsize := hcalled.size_eq.trans hmove.size_eq
    have hothers := ihrest (by rw [setLines, symbols_modifyInstance, hsize]; exact htable)
      fun j hj hj' => by
        rw [setLines, symbols_modifyInstance, hsize, ← setLines, hbody.inst_behind hj]
        exact htables j (by omega) hj'
    refine hmove.trans (hcalled.trans hothers fun i other => Iff.rfl) fun i other => ?_
    rw [laid_cons, laid_called (by omega) h2 (hbody.inst_called hlt hrest) fun j => hrest.inst_within]

/-! ### From the layout to the relation -/

/-- The number of bytes of a regular line at a position. -/
lemma size_laid (h : line.statement.Regular) (symbols : SymbolStore) (table : Nat) :
    (({ line.startingAt a with emits } : Line).size symbols table).toNat =
      (line.statement.startingAt a).extent :=
  (h.startingAt a).size_eq symbols table

variable {layChild : Program → Int → Nat → Program × Int}

lemma layLine_plain (h : line.statement.target? = none) (hregular : line.statement.Regular) :
    layLine layChild emits table p a line =
      (p.moveLabel table line a, a + (line.statement.startingAt a).extent,
        { line.startingAt a with emits }) := by
  have hmove : p.moveLabel table { line.startingAt a with emits } a = p.moveLabel table line a :=
    moveLabel_congr (by rw [Line.shape_emits, Line.shape_startingAt])
  have htarget : (line.statement.startingAt a).target? = none := by
    rwa [Statement.target?_startingAt]
  unfold layLine
  dsimp only
  split
  next name args target hst =>
    rw [Line.statement_startingAt] at hst
    rw [hst] at htarget
    cases htarget
  next => rw [hmove, size_laid hregular]

lemma layLine_call {target : Nat} (h : line.statement.target? = some target) :
    layLine layChild emits table p a line =
      ((layChild (p.moveLabel table line a) a target).1,
        (layChild (p.moveLabel table line a) a target).2, { line.startingAt a with emits }) := by
  have hmove : p.moveLabel table { line.startingAt a with emits } a = p.moveLabel table line a :=
    moveLabel_congr (by rw [Line.shape_emits, Line.shape_startingAt])
  have htarget : (line.statement.startingAt a).target? = some target := by
    rwa [Statement.target?_startingAt]
  unfold layLine
  dsimp only
  split
  next name args target' hst =>
    rw [Line.statement_startingAt] at hst
    rw [hst] at htarget
    cases htarget
    rw [hmove]
  next hst =>
    cases hline : line.statement.startingAt a with
    | call name args target' => exact absurd hline (hst name args target')
    | _ =>
      rw [hline] at htarget
      cases htarget

/-- An instance is laid out by laying out its lines. -/
lemma layInstance_succ {id : Nat} (h : layLines (layInstance emits depth) emits (p.inst id).table p a
    (p.inst id).lines = (p', a', lines)) :
    layInstance emits (depth + 1) p a id = (p'.setLines id lines, a') := by
  rw [layInstance, h]
  rfl

/-- Laying lines out in turn is laying out in the sense of the relation.  The lines come from a
program `q` that agrees with the present one on the interval. -/
theorem lays_layLines (h : Spans q lo lines hi) (hq : ∀ j, lo ≤ j → j < hi → p.inst j = q.inst j)
    (hdepth : hi - lo ≤ depth) (hsize : hi ≤ p.instances.size)
    (hlines : ∀ line ∈ lines, line.statement.Regular)
    (hinst : ∀ j, lo ≤ j → j < hi → ∀ line ∈ (q.inst j).lines, line.statement.Regular) :
    ∃ p' a' lines', layLines (layInstance emits depth) emits table p a lines = (p', a', lines') ∧
      Lays emits lo hi table p a lines p' a' lines' := by
  induction h generalizing depth table p a with
  | nil => exact ⟨p, a, [], rfl, .nil⟩
  | @plain lo hi line rest hline _ ih =>
    rw [List.forall_mem_cons] at hlines
    have hq' : ∀ j, lo ≤ j → j < hi → (p.moveLabel table line a).inst j = q.inst j := by
      intro j hj hj'
      rw [inst_moveLabel, hq j hj hj']
    obtain ⟨p', a', rest', hlay, hlays⟩ :=
      ih hq' hdepth (by rwa [instances_moveLabel]) hlines.2 hinst
    refine ⟨p', a', _, ?_, .plain hline hlays⟩
    rw [layLines, layLine_plain hline hlines.1]
    dsimp only
    rw [hlay]
  | @call lo mid hi line rest hline hbody hrest ihbody ihrest =>
    rw [List.forall_mem_cons] at hlines
    have h1 := hbody.le
    have h2 := hrest.le
    obtain ⟨depth, rfl⟩ : ∃ d, depth = d + 1 := ⟨depth - 1, by omega⟩
    have hlo := hq lo (Nat.le_refl lo) (by omega)
    obtain ⟨p₁, a₁, body, hlay₁, hlays₁⟩ : ∃ p₁ a₁ body,
        layLines (layInstance emits depth) emits (p.inst lo).table (p.moveLabel table line a) a
          (p.inst lo).lines = (p₁, a₁, body) ∧
        Lays emits (lo + 1) mid (p.inst lo).table (p.moveLabel table line a) a (p.inst lo).lines
          p₁ a₁ body := by
      rw [hlo]
      exact ihbody (fun j hj hj' => by rw [inst_moveLabel, hq j (by omega) (by omega)]) (by omega)
        (by rw [instances_moveLabel]; omega) (hinst lo (Nat.le_refl lo) (by omega))
        fun j hj hj' => hinst j (by omega) (by omega)
    have hsize₁ : p₁.instances.size = p.instances.size := by
      rw [hlays₁.reshaped.size_eq, instances_moveLabel]
    have hrest' : ∀ j, mid ≤ j → j < hi → (p₁.setLines lo body).inst j = q.inst j := by
      intro j hj hj'
      rw [hlays₁.inst_behind hj, hq j (by omega) hj']
    obtain ⟨p', a', rest', hlay, hlays⟩ := ihrest hrest' (show hi - mid ≤ depth + 1 by omega)
      (by rw [setLines, size_modifyInstance, hsize₁]; exact hsize) hlines.2
      fun j hj hj' => hinst j (by omega) hj'
    refine ⟨p', a', _, ?_, .call hline (by omega) hlays₁ hlays⟩
    have hchild := layInstance_succ (p := p.moveLabel table line a) (by rw [inst_moveLabel, hlay₁])
    rw [layLines, layLine_call hline, hchild]
    dsimp only
    rw [hlay]

/-! ### Up to an end -/

/-- The line has been moved to a position before the ROM. -/
structure MovedTo (a : Int) (line line' : Line) : Prop where
  shape_eq : line'.shape = line.shape
  target_eq : line'.statement.target? = line.statement.target?
  address_eq : line'.address = (line.startingAt a).address
  silent : line'.emits = false
  aligned : ∀ n padding, line'.statement = .align (.unsigned n) padding →
    padding.toNat < n.toNat ∧ (n.toNat : Int) ∣ a

/-- Lines of an instance with the given symbol table are laid out so that they end at a position,
together with the instances from `lo` up to `hi` that they call.  The last line comes first.  A call
is given the room that the instance takes so far. -/
inductive LaysBefore :
    Nat → Nat → Nat → Program → Int → List Line → Program → Int → List Line → Prop
  | nil {lo table : Nat} {p : Program} {b : Int} : LaysBefore lo lo table p b [] p b []
  | plain {lo hi table : Nat} {p p₁ : Program} {a b b₁ : Int} {line line' : Line}
      {rest rest' : List Line} (hline : line.statement.target? = none)
      (hrest : LaysBefore lo hi table p b rest p₁ b₁ rest') (hmoved : MovedTo a line line')
      (hend : a + line'.statement.extent = b₁) :
      LaysBefore lo hi table p b (line :: rest) (p₁.moveLabel table line a) a (line' :: rest')
  | call {lo mid hi table : Nat} {p p₁ p₂ : Program} {a a₁ b b₁ : Int} {line line' : Line}
      {rest rest' body : List Line} (hline : line.statement.target? = some lo)
      (hlt : lo < p.instances.size) (hrest : LaysBefore mid hi table p b rest p₁ b₁ rest')
      (hmoved : MovedTo a line line') (hend : a + p₁.byteCount lo = b₁)
      (hbody : Lays false (lo + 1) mid (p₁.inst lo).table (p₁.moveLabel table line a) a
        (p₁.inst lo).lines p₂ a₁ body) :
      LaysBefore lo hi table p b (line :: rest) (p₂.setLines lo body) a (line' :: rest')

namespace LaysBefore

lemma le (h : LaysBefore lo hi table p b lines p' a lines') : lo ≤ hi := by
  induction h with
  | nil => exact Nat.le_refl _
  | plain _ _ _ _ ih => exact ih
  | call _ _ _ _ _ hbody ih =>
    have := hbody.le
    omega

/-- The lines keep their shapes. -/
lemma shapes (h : LaysBefore lo hi table p b lines p' a lines') :
    lines'.map Line.shape = lines.map Line.shape := by
  induction h with
  | nil => rfl
  | plain _ _ hmoved _ ih => rw [List.map_cons, List.map_cons, ih, hmoved.shape_eq]
  | call _ _ _ hmoved _ _ ih => rw [List.map_cons, List.map_cons, ih, hmoved.shape_eq]

/-- Nothing but the instances of the interval is changed, and there lines keep their shapes. -/
lemma reshaped (h : LaysBefore lo hi table p b lines p' a lines') : Reshaped lo hi p p' := by
  induction h with
  | nil => exact .refl _
  | plain _ _ _ _ ih => exact ih.trans (.moveLabel ..)
  | @call lo mid hi table p p₁ p₂ a a₁ b b₁ line line' rest rest' body _ hlt hrest _ _ hbody ih =>
    have h1 := hbody.le
    have h2 := hrest.le
    have hbody' := hbody.reshaped
    have hsize : p₂.instances.size = p.instances.size := by
      rw [hbody'.size_eq, instances_moveLabel, ih.size_eq]
    have hstep : Reshaped lo hi p₁ p₂ :=
      (Reshaped.moveLabel ..).trans (hbody'.mono (by omega) h2)
    refine ((ih.mono (by omega) (Nat.le_refl hi)).trans hstep).trans ?_
    refine .setLines (by rwa [hsize]) (Nat.le_refl lo) (by omega) ?_
    rw [hbody.shapes, hbody'.inst_eq lo (by omega), inst_moveLabel]

/-- The instances in front of the interval stay. -/
lemma inst_front (h : LaysBefore lo hi table p b lines p' a lines') (hj : j < lo) : p'.inst j = p.inst j :=
  h.reshaped.inst_eq j (.inl hj)

/-- The instance that is called, and what it calls, are not touched by the lines behind the call. -/
lemma spans_called (hrest : LaysBefore mid hi table p b lines p₁ b' lines')
    (hbody : Lays false (lo + 1) mid (p₁.inst lo).table (p₁.moveLabel table line a) a (p₁.inst lo).lines p₂ a₁
      body) : Spans p (lo + 1) (p.inst lo).lines mid := by
  have h1 := hbody.le
  have hspans := hbody.spans_called
  rw [hrest.inst_front (by omega)] at hspans
  exact hspans.congr fun j _ hj' => by rw [hrest.inst_front hj']

/-- The lines call the instances of the interval before they are laid out. -/
lemma spans_before (h : LaysBefore lo hi table p b lines p' a lines') : Spans p lo lines hi := by
  induction h with
  | nil => exact .nil _
  | plain hline _ _ _ ih => exact .plain hline ih
  | @call lo mid hi table p p₁ p₂ a a₁ b b₁ line line' rest rest' body hline hlt hrest hmoved _ hbody
      ih =>
    exact .call hline (hrest.spans_called hbody) ih

/-- The lines call the instances of the interval. -/
lemma spans (h : LaysBefore lo hi table p b lines p' a lines') : Spans p' lo lines' hi := by
  induction h with
  | nil => exact .nil _
  | plain hline _ hmoved _ ih =>
    exact .plain (hmoved.target_eq.trans hline) (ih.congr fun j _ _ => by rw [inst_moveLabel])
  | @call lo mid hi table p p₁ p₂ a a₁ b b₁ line line' rest rest' body hline hlt hrest hmoved _ hbody
      ih =>
    refine .call (hmoved.target_eq.trans hline) ?_ (ih.congr fun j hj _ => by rw [hbody.inst_behind hj])
    rw [hbody.inst_self (by rwa [hrest.reshaped.size_eq])]
    exact hbody.spans.congr fun j hj hj' => by rw [inst_setLines_ne (by omega)]

/-- No line that is laid out before the ROM emits code. -/
lemma silent (h : LaysBefore lo hi table p b lines p' a lines') :
    (∀ line ∈ lines', line.emits = false) ∧
      ∀ j, lo ≤ j → j < hi → ∀ line ∈ (p'.inst j).lines, line.emits = false := by
  induction h with
  | nil => exact ⟨List.forall_mem_nil _, fun j hj hj' => absurd hj (by omega)⟩
  | plain _ _ hmoved _ ih =>
    refine ⟨List.forall_mem_cons.2 ⟨hmoved.silent, ih.1⟩, fun j hj hj' => ?_⟩
    rw [inst_moveLabel]
    exact ih.2 j hj hj'
  | @call lo mid hi table p p₁ p₂ a a₁ b b₁ line line' rest rest' body _ hlt hrest hmoved _ hbody ih =>
    refine ⟨List.forall_mem_cons.2 ⟨hmoved.silent, ih.1⟩,
      forall_called mid ?_ (fun j hj hj' => ?_) fun j hj hj' => ?_⟩
    · rw [hbody.inst_self (by rwa [hrest.reshaped.size_eq])]
      exact hbody.emits_eq.1
    · rw [inst_setLines_ne (by omega)]
      exact hbody.emits_eq.2 j hj hj'
    · rw [hbody.inst_behind hj]
      exact ih.2 j hj hj'

/-- Laying lines out moves their labels. -/
lemma relabeled (h : LaysBefore lo hi table p b lines p' a lines') (htable : table < p.symbols.size)
    (htables : ∀ j, lo ≤ j → j < hi → (p.inst j).table < p.symbols.size) :
    Relabeled (Laid p' lo hi table lines') p.symbols p'.symbols := by
  induction h with
  | nil =>
    refine .refl _ fun i line hline => ?_
    rcases hline with ⟨-, hline⟩ | ⟨j, hj, hj', -⟩
    · cases hline
    · omega
  | @plain lo hi table p p₁ a b b₁ line line' rest rest' _ hrest hmoved _ ih =>
    have hothers := ih htable htables
    have hmove : Relabeled (fun i other => i = table ∧ other = line') p₁.symbols
        (p₁.moveLabel table line a).symbols :=
      relabeled_moveLabel (by rwa [hothers.size_eq]) hmoved.shape_eq hmoved.address_eq
    refine hothers.trans hmove fun i other => ?_
    rw [laid_cons, or_comm, laid_congr fun j _ _ => inst_moveLabel]
  | @call lo mid hi table p p₁ p₂ a a₁ b b₁ line line' rest rest' body _ hlt hrest hmoved _ hbody ih =>
    have h1 := hbody.le
    have h2 := hrest.le
    have hothers := ih htable fun j hj hj' => htables j (by omega) hj'
    have hmove : Relabeled (fun i other => i = table ∧ other = line') p₁.symbols
        (p₁.moveLabel table line a).symbols :=
      relabeled_moveLabel (by rwa [hothers.size_eq]) hmoved.shape_eq hmoved.address_eq
    have hsize := hmove.size_eq.trans hothers.size_eq
    have htables₁ : ∀ j, lo ≤ j → j < mid →
        ((p₁.moveLabel table line a).inst j).table < (p₁.moveLabel table line a).symbols.size := by
      intro j hj hj'
      rw [hsize, inst_moveLabel, hrest.reshaped.table_eq]
      exact htables j hj (by omega)
    have hcalled := hbody.relabeled (by simpa using htables₁ lo (Nat.le_refl lo) (by omega))
      fun j hj hj' => htables₁ j (by omega) hj'
    refine hothers.trans (hmove.trans hcalled fun i other => Iff.rfl) fun i other => ?_
    rw [laid_cons, laid_called (by omega) h2 (hbody.inst_self (by rwa [hrest.reshaped.size_eq]))
      fun j hj hj' => inst_setLines_ne (by omega), laid_congr fun j hj _ => hbody.inst_behind hj]
    grind

end LaysBefore

/-- A line that is no call is laid out in front of a position. -/
lemma layBefore_plain (h : line.statement.target? = none) (hregular : line.statement.Regular) :
    ∃ a line', layBefore depth table p b line = (p.moveLabel table line a, a, line') ∧
      MovedTo a line line' ∧ a + line'.statement.extent = b := by
  unfold layBefore
  split
  next n padding hst =>
    obtain ⟨m, hm, heq⟩ : ∃ m, IsAlignment m ∧ Operand.unsigned n = .unsigned m := by rwa [hst] at hregular
    cases heq
    refine ⟨_, _, rfl, ⟨?_, ?_, rfl, rfl, ?_⟩, ?_⟩
    · simp [Line.shape, Line.startingAt, hst, Statement.shape]
    · rw [hst]
      rfl
    · intro n' padding' heq
      cases heq
      exact ⟨paddingDown_lt hm b, dvd_sub_paddingDown hm b⟩
    · exact Int.sub_add_cancel ..
  next name args target hst =>
    rw [hst] at h
    cases h
  next hst _ =>
    refine ⟨_, _, rfl, ⟨by rw [Line.shape_emits, Line.shape_startingAt], ?_, rfl, rfl, ?_⟩, ?_⟩
    · exact Statement.target?_startingAt
    · intro n padding heq
      have hshape : line.statement.shape = .align (.unsigned n) 0 := by
        rw [← Statement.shape_startingAt]
        exact congrArg Statement.shape heq
      obtain ⟨padding', hpadding⟩ := Statement.shape_eq_align_iff.1 hshape
      exact absurd hpadding (hst n padding')
    · have hsize : (line.size p.symbols table).toNat = line.statement.extent := hregular.size_eq _ _
      have hself : ∀ a, line.statement.startingAt a = line.statement := by
        refine fun a => Statement.startingAt_eq_self fun operand padding heq => ?_
        rw [heq] at hregular
        obtain ⟨n, -, rfl⟩ := hregular
        exact hst n padding heq
      rw [Line.statement_startingAt, hself, hsize]
      exact Int.sub_add_cancel ..

/-- A call is laid out in front of a position. -/
lemma layBefore_call (depth table : Nat) (p : Program) (b : Int) {target : Nat}
    (h : line.statement.target? = some target) :
    ∃ line', layBefore depth table p b line =
        ((layInstance false depth (p.moveLabel table line (b - p.byteCount target))
          (b - p.byteCount target) target).1, b - p.byteCount target, line') ∧
      MovedTo (b - p.byteCount target) line line' := by
  unfold layBefore
  split
  next n padding hst =>
    rw [hst] at h
    cases h
  next name args target' hst =>
    rw [hst] at h
    cases h
    refine ⟨_, rfl, by rw [Line.shape_emits, Line.shape_startingAt], Statement.target?_startingAt, rfl,
      rfl, ?_⟩
    intro n padding heq
    rw [Line.statement_startingAt, hst] at heq
    cases heq
  next _ hst =>
    cases hline : line.statement with
    | call name args target' => exact absurd hline (hst name args target')
    | _ =>
      rw [hline] at h
      cases h

/-- Laying lines out in front of a position is laying out in the sense of the relation.  The lines
come from a program `q` that agrees with the present one on the interval. -/
theorem laysBefore_layAllBefore (h : Spans q lo lines hi)
    (hq : ∀ j, lo ≤ j → j < hi → p.inst j = q.inst j) (hdepth : hi - lo ≤ depth)
    (hsize : hi ≤ p.instances.size) (hlines : ∀ line ∈ lines, line.statement.Regular)
    (hinst : ∀ j, lo ≤ j → j < hi → ∀ line ∈ (q.inst j).lines, line.statement.Regular) :
    ∃ p' a lines', layAllBefore depth table p b lines = (p', a, lines') ∧
      LaysBefore lo hi table p b lines p' a lines' := by
  induction h with
  | nil => exact ⟨p, b, [], rfl, .nil⟩
  | @plain lo hi line rest hline _ ih =>
    rw [List.forall_mem_cons] at hlines
    obtain ⟨p₁, b₁, rest', hlay, hlays⟩ := ih hq hdepth hsize hlines.2 hinst
    obtain ⟨a, line', hbefore, hmoved, hend⟩ : ∃ a line',
        layBefore depth table p₁ b₁ line = (p₁.moveLabel table line a, a, line') ∧
          MovedTo a line line' ∧ a + line'.statement.extent = b₁ :=
      layBefore_plain hline hlines.1
    refine ⟨_, a, line' :: rest', ?_, .plain hline hlays hmoved hend⟩
    rw [layAllBefore, hlay]
    dsimp only
    rw [hbefore]
  | @call lo mid hi line rest hline hbody hrest _ ihrest =>
    rw [List.forall_mem_cons] at hlines
    have h1 := hbody.le
    have h2 := hrest.le
    obtain ⟨p₁, b₁, rest', hlay, hlays⟩ := ihrest (fun j hj hj' => hq j (by omega) hj') (by omega)
      hsize hlines.2 fun j hj hj' => hinst j (by omega) hj'
    obtain ⟨depth, rfl⟩ : ∃ d, depth = d + 1 := ⟨depth - 1, by omega⟩
    obtain ⟨line', hbefore, hmoved⟩ := layBefore_call (depth + 1) table p₁ b₁ hline
    have hsame : ∀ j, lo ≤ j → j < mid → p₁.inst j = q.inst j := by
      intro j hj hj'
      rw [hlays.reshaped.inst_eq j (.inl hj'), hq j hj (by omega)]
    obtain ⟨p₂, a₁, body, hlay₂, hlays₂⟩ : ∃ p₂ a₁ body,
        layLines (layInstance false depth) false (p₁.inst lo).table
          (p₁.moveLabel table line (b₁ - p₁.byteCount lo)) (b₁ - p₁.byteCount lo)
          (p₁.inst lo).lines = (p₂, a₁, body) ∧
        Lays false (lo + 1) mid (p₁.inst lo).table
          (p₁.moveLabel table line (b₁ - p₁.byteCount lo)) (b₁ - p₁.byteCount lo)
          (p₁.inst lo).lines p₂ a₁ body := by
      rw [hsame lo (Nat.le_refl lo) (by omega)]
      exact lays_layLines hbody (fun j hj hj' => by rw [inst_moveLabel, hsame j (by omega) hj'])
        (by omega) (by rw [instances_moveLabel, hlays.reshaped.size_eq]; omega)
        (hinst lo (Nat.le_refl lo) (by omega)) fun j hj hj' => hinst j (by omega) (by omega)
    have hchild := layInstance_succ (p := p₁.moveLabel table line (b₁ - p₁.byteCount lo))
      (by rw [inst_moveLabel, hlay₂])
    refine ⟨_, _, line' :: rest', ?_,
      .call hline (by omega) hlays hmoved (Int.sub_add_cancel ..) hlays₂⟩
    rw [layAllBefore, hlay]
    dsimp only
    rw [hbefore, hchild]

end Pep10.Program
