import Pep10.Proofs.Program.RomStart

/-!
# Moving lines by a distance

Lines without an `.ALIGN` take the same room everywhere.  So if they stood one behind the other
before, laying them out again, from a start or up to an end, moves all of them by the same distance:
nothing but the address of a line changes, and whether it emits code, and the labels move by the
same distance modulo the size of memory.  `Shifts` says this of the instances of an interval and of
the symbols.
-/

namespace Pep10

namespace Line

variable {line line' : Line} {a c d : Int} {emits : Bool}

/-- The line at its address plus a distance, if that is in memory. -/
def movedBy (d : Int) (emits : Bool) (line : Line) : Line :=
  { line with
    address := line.address.bind fun w =>
      if inMemory (w.toNat + d) then some (UInt16.ofInt (w.toNat + d)) else none
    emits }

/-- The line with the address that its label stands for when it is moved by a distance: it wraps
around at the end of memory. -/
def wrappedBy (d : Int) (line : Line) : Line :=
  { line with address := line.address.map fun w => UInt16.ofInt (w.toNat + d) }

@[simp] lemma statement_movedBy : (line.movedBy d emits).statement = line.statement := rfl

@[simp] lemma label_movedBy : (line.movedBy d emits).label = line.label := rfl

@[simp] lemma number_movedBy : (line.movedBy d emits).number = line.number := rfl

@[simp] lemma emits_movedBy : (line.movedBy d emits).emits = emits := rfl

@[simp] lemma addressLabel?_wrappedBy : (line.wrappedBy d).addressLabel? = line.addressLabel? := rfl

/-- The address of a line that stands in memory. -/
lemma address_of_inMemory (h : line.startingAt c = line) (hc : inMemory c = true) :
    line.address = if line.statement.isAddressable then some (UInt16.ofInt c) else none := by
  rw [address_of_startingAt h, hc, Bool.and_true]

lemma toNat_ofInt_of_inMemory (hc : inMemory c = true) : ((UInt16.ofInt c).toNat : Int) = c := by
  simp only [inMemory, Bool.and_eq_true, decide_eq_true_eq] at hc
  exact toNat_ofInt hc.1 (by omega)

/-- A line that stands in memory is moved when it is laid out at some distance. -/
lemma movedBy_eq (h : line.startingAt c = line) (hc : inMemory c = true)
    (halign : line.statement.isAlign = false) :
    { line.startingAt (c + d) with emits } = line.movedBy d emits := by
  have haddress : (line.startingAt (c + d)).address = (line.movedBy d emits).address := by
    simp only [movedBy, startingAt, address_of_inMemory h hc]
    cases line.statement.isAddressable with
    | false => rfl
    | true =>
      rw [if_pos rfl, Option.bind_some, toNat_ofInt_of_inMemory hc, Bool.true_and]
  simp only [movedBy] at haddress
  simp only [movedBy, ← haddress]
  simp only [startingAt, Statement.startingAt_of_not_isAlign halign]

/-- The value that a label has when its line is laid out at some distance. -/
lemma gives_wrappedBy (h : line.startingAt c = line) (hc : inMemory c = true)
    (hequate : line.statement.isEquate = false) :
    (line.wrappedBy d).Gives (UInt16.ofInt (c + d)) := by
  have hequate' : (line.wrappedBy d).statement.isEquate = false := hequate
  rw [gives_of_not_isEquate hequate']
  intro w hw
  simp only [wrappedBy, address_of_inMemory h hc] at hw
  split at hw
  · rw [Option.map_some, toNat_ofInt_of_inMemory hc, Option.some.injEq] at hw
    exact hw
  · cases hw

end Line

namespace Program

open SymbolStore (Relabeled)

variable {p p₁ p' q : Program} {emits : Bool} {lo mid hi table j : Nat} {a a' b c d : Int}
  {line line' : Line} {lines lines' rest e : List Line}

/-! ### One line -/

/-- A line that has been moved before the ROM is as it was, apart from its address. -/
lemma MovedTo.eq (h : MovedTo a line line') (halign : line.statement.isAlign = false) :
    line' = { line.startingAt a with emits := false } := by
  have hself := Statement.startingAt_of_not_isAlign (a := a) halign
  obtain ⟨hshape, htarget, haddress, hsilent, -⟩ := h
  obtain ⟨s, number, label, comment, address, emits, trace⟩ := line
  obtain ⟨s', number', label', comment', address', emits', trace'⟩ := line'
  simp only [Line.shape, Line.mk.injEq] at hshape
  obtain ⟨hs, rfl, rfl, rfl, -, -, rfl⟩ := hshape
  dsimp only at htarget haddress hsilent halign hself
  subst hsilent haddress
  have hstatement : s' = s := by
    cases s with
    | align => cases halign
    | call name args target =>
      cases s' with
      | call name' args' target' =>
        simp only [Statement.shape, Statement.call.injEq] at hs
        obtain ⟨rfl, rfl, -⟩ := hs
        cases htarget
        rfl
      | _ => cases htarget
    | _ => cases s' <;> simp_all [Statement.shape]
  rw [hstatement]
  simp only [Line.startingAt, hself]

/-- The label of a line that is laid out at some distance moves by the distance. -/
lemma relabeled_moveLabel_wrappedBy (htable : table < p.symbols.size) (h : line.startingAt c = line)
    (hc : inMemory c = true) :
    Relabeled (fun i other => i = table ∧ other = line.wrappedBy d) p.symbols
      (p.moveLabel table line (c + d)).symbols := by
  unfold moveLabel
  split
  next hnone =>
    exact .keep (by rw [Line.addressLabel?_wrappedBy, Line.addressLabel?, hnone, ite_self])
  next name hname =>
    split
    next hequate =>
      exact .keep (by rw [Line.addressLabel?_wrappedBy, Line.addressLabel?, if_pos hequate])
    next hequate =>
      refine .assign ?_ (Line.gives_wrappedBy h hc (by simpa using hequate)) htable
      rw [Line.addressLabel?_wrappedBy, Line.addressLabel?, if_neg hequate, hname]

/-! ### Intervals -/

/-- A line is one of the given lines or of the lines of an interval, with its address wrapped
around. -/
def LaidBy (d : Int) (p : Program) (lo hi table : Nat) (lines : List Line) (i : Nat) (line : Line) : Prop :=
  ∃ before, Laid p lo hi table lines i before ∧ line = before.wrappedBy d

section

variable {i : Nat} {other : Line}

lemma not_laidBy_nil : ¬ LaidBy d p lo lo table [] i other := by
  rintro ⟨before, ⟨-, hmem⟩ | ⟨j, hj, hj', -⟩, -⟩
  · cases hmem
  · omega

lemma laidBy_cons :
    LaidBy d p lo hi table (line :: rest) i other ↔
      (i = table ∧ other = line.wrappedBy d) ∨ LaidBy d p lo hi table rest i other := by
  simp only [LaidBy, laid_cons, or_and_right, exists_or]
  refine or_congr ⟨?_, fun ⟨hi, hother⟩ => ⟨line, ⟨hi, rfl⟩, hother⟩⟩ Iff.rfl
  rintro ⟨before, ⟨hi, rfl⟩, hother⟩
  exact ⟨hi, hother⟩

lemma laidBy_congr (h : ∀ j, lo ≤ j → j < hi → p.inst j = p'.inst j) :
    LaidBy d p lo hi table lines i other ↔ LaidBy d p' lo hi table lines i other := by
  simp only [LaidBy, laid_congr h]

lemma laidBy_append {before after : List Line} (hlo : lo ≤ mid) (hhi : mid ≤ hi) :
    LaidBy d p lo hi table (before ++ after) i other ↔
      LaidBy d p lo mid table before i other ∨ LaidBy d p mid hi table after i other := by
  simp only [LaidBy, laid_append hlo hhi, or_and_right, exists_or]

lemma laidBy_called (hlo : lo < mid) (hhi : mid ≤ hi) :
    LaidBy d p lo hi table rest i other ↔
      LaidBy d p (lo + 1) mid (p.inst lo).table (p.inst lo).lines i other ∨
        LaidBy d p mid hi table rest i other := by
  have hcalled : ∀ before, Laid p lo hi table rest i before ↔
      Laid p (lo + 1) mid (p.inst lo).table (p.inst lo).lines i before ∨
        Laid p mid hi table rest i before :=
    fun before => laid_called hlo hhi rfl fun _ _ _ => rfl
  simp only [LaidBy, hcalled, or_and_right, exists_or]

end

/-- The lines of the instances from `lo` up to `hi` are moved by a distance, and so are the labels
of these and of the given lines, whose instance has the given symbol table. -/
structure Shifts (d : Int) (emits : Bool) (lo hi table : Nat) (lines : List Line) (p p' : Program) :
    Prop where
  lines_eq : ∀ j, lo ≤ j → j < hi → (p'.inst j).lines = (p.inst j).lines.map (Line.movedBy d emits)
  relabeled : Relabeled (LaidBy d p lo hi table lines) p.symbols p'.symbols

/-- What is known of lines before they are moved: they stand one behind the other from a position
on, and all of them in memory. -/
structure Stands (p : Program) (lines : List Line) (c : Int) (e : List Line) : Prop where
  expands : Expands p lines e
  contiguous : Contiguous c e
  nonneg : 0 ≤ c
  le : c + room e ≤ 0xFFFF
  steady : ∀ line ∈ e, line.statement.isAlign = false
  regular : ∀ line ∈ e, line.statement.Regular

namespace Stands

lemma inMemory (h : Stands p lines c e) : inMemory c = true := by
  have hle := h.le
  have hnonneg := h.nonneg
  simp only [Pep10.inMemory, Bool.and_eq_true, decide_eq_true_eq]
  omega

lemma of_plain (h : Stands p (line :: rest) c e) (hline : line.statement.target? = none) :
    ∃ e₁, e = line :: e₁ ∧ line.startingAt c = line ∧ line.statement.isAlign = false ∧
      Stands p rest (c + line.statement.extent) e₁ := by
  obtain ⟨e₁, rfl, he₁⟩ := h.expands.of_plain hline
  have hsteady := List.forall_mem_cons.1 h.steady
  have hregular := List.forall_mem_cons.1 h.regular
  have hle := h.le
  have hnonneg := h.nonneg
  rw [room_cons] at hle
  push_cast at hle
  exact ⟨e₁, rfl, h.contiguous.1, hsteady.1, he₁, h.contiguous.2, by omega, by omega, hsteady.2,
    hregular.2⟩

lemma of_call {target : Nat} (h : Stands p (line :: rest) c e)
    (hline : line.statement.target? = some target) :
    ∃ body e₁, room e = room body + room e₁ ∧ line.startingAt c = line ∧
      line.statement.isAlign = false ∧ Stands p (p.inst target).lines c body ∧
      Stands p rest (c + room body) e₁ := by
  obtain ⟨body, e₁, rfl, hbody, he₁⟩ := h.expands.of_call hline
  have hzero : line.statement.extent = 0 := Statement.extent_of_target? hline
  have hsteady := h.steady
  have hregular := h.regular
  have hcont := h.contiguous
  have hle := h.le
  have hnonneg := h.nonneg
  rw [List.forall_mem_cons, List.forall_mem_append] at hsteady hregular
  rw [Contiguous, hzero, Int.natCast_zero, Int.add_zero, contiguous_append] at hcont
  have hroom : room (line :: (body ++ e₁)) = room body + room e₁ := by
    rw [room_cons, room_append, hzero, Nat.zero_add]
  rw [hroom] at hle
  push_cast at hle
  exact ⟨body, e₁, hroom, hcont.1, hsteady.1,
    ⟨hbody, hcont.2.1, hnonneg, by omega, hsteady.2.1, hregular.2.1⟩,
    ⟨he₁, hcont.2.2, by omega, by omega, hsteady.2.2, hregular.2.2⟩⟩

/-- Only the lines of the instances in the interval matter. -/
lemma congr (h : Stands p lines c e) (hspans : Spans p lo lines hi)
    (hq : ∀ j, lo ≤ j → j < hi → q.inst j = p.inst j) : Stands q lines c e :=
  ⟨hspans.expands_congr (fun j hj hj' => by rw [hq j hj hj']) h.expands, h.contiguous, h.nonneg, h.le,
    h.steady, h.regular⟩

end Stands

/-! ### From a start -/

/-- Laying out lines from a start moves them by the distance from where they stood. -/
theorem Lays.shifts (h : Lays emits lo hi table p a lines p' a' lines') (hstands : Stands p lines c e)
    (ha : a = c + d) (htable : table < p.symbols.size)
    (htables : ∀ j, lo ≤ j → j < hi → (p.inst j).table < p.symbols.size) :
    a' = c + room e + d ∧ lines' = lines.map (Line.movedBy d emits) ∧
      Shifts d emits lo hi table lines p p' := by
  induction h generalizing c e with
  | nil =>
    obtain ⟨hexp, -⟩ := hstands
    cases hexp
    exact ⟨by simp [ha], rfl, fun j hj hj' => absurd hj (by omega), .refl _ fun i line => not_laidBy_nil⟩
  | @plain lo hi table p p' a a' line rest rest' hline hrest ih =>
    subst ha
    have hmem := hstands.inMemory
    obtain ⟨e₁, rfl, hstart, halign, hstands₁⟩ := hstands.of_plain hline
    have hspans : Spans p lo rest hi := hrest.spans_before.congr fun j _ _ => by rw [inst_moveLabel]
    have hmove := relabeled_moveLabel_wrappedBy (d := d) htable hstart hmem
    rw [Statement.startingAt_of_not_isAlign halign] at ih
    obtain ⟨hend, hlines, hshifts⟩ := ih (hstands₁.congr hspans fun _ _ _ => inst_moveLabel) (by omega)
      (by rwa [hmove.size_eq]) fun j hj hj' => by
        rw [hmove.size_eq, inst_moveLabel]
        exact htables j hj hj'
    refine ⟨?_, ?_, fun j hj hj' => ?_, hmove.trans hshifts.relabeled fun i other => ?_⟩
    · rw [hend, room_cons]
      push_cast
      omega
    · rw [hlines, List.map_cons, Line.movedBy_eq hstart hmem halign]
    · rw [hshifts.lines_eq j hj hj', inst_moveLabel]
    · rw [laidBy_cons, laidBy_congr fun _ _ _ => inst_moveLabel]
  | @call lo mid hi table p p₁ p' a a₁ a' line rest rest' body hline hlt hbody hrest ihbody ihrest =>
    subst ha
    have h1 := hbody.le
    have h2 := hrest.le
    have hmem := hstands.inMemory
    obtain ⟨called, e₁, hroom, hstart, halign, hcalled, hothers⟩ := hstands.of_call hline
    have hmove := relabeled_moveLabel_wrappedBy (d := d) htable hstart hmem
    obtain ⟨rfl, hlines₁, hshifts₁⟩ := ihbody (hcalled.congr hbody.spans_called fun _ _ _ => inst_moveLabel) rfl
      (by rw [hmove.size_eq]; exact htables lo (Nat.le_refl lo) (by omega)) fun j hj hj' => by
        rw [hmove.size_eq, inst_moveLabel]
        exact htables j (by omega) (by omega)
    -- What stands behind the call is as it was.
    have hsame : ∀ j, mid ≤ j → j < hi → (p₁.setLines lo body).inst j = p.inst j :=
      fun j hj _ => hbody.inst_behind hj
    have hspans' : Spans p mid rest hi :=
      hrest.spans_before.congr fun j hj hj' => by rw [hsame j hj hj']
    have hsize : (p₁.setLines lo body).symbols.size = p.symbols.size :=
      hshifts₁.relabeled.size_eq.trans hmove.size_eq
    obtain ⟨hend, hlines, hshifts⟩ := ihrest (hothers.congr hspans' hsame) (by omega) (by rwa [hsize])
      fun j hj hj' => by
        rw [hsize, hsame j hj hj']
        exact htables j (by omega) hj'
    refine ⟨?_, ?_, forall_called mid ?_ (fun j hj hj' => ?_) (fun j hj hj' => ?_),
      hmove.trans (hshifts₁.relabeled.trans hshifts.relabeled fun _ _ => Iff.rfl) fun i other => ?_⟩
    · rw [hend, hroom]
      push_cast
      omega
    · rw [hlines, List.map_cons, Line.movedBy_eq hstart hmem halign]
    · rw [hbody.inst_called hlt hrest]
      exact hlines₁
    · rw [hrest.inst_within hj hj', hshifts₁.lines_eq j hj hj', inst_moveLabel]
    · rw [hshifts.lines_eq j hj hj', hsame j hj hj']
    · rw [laidBy_cons, laidBy_called (by omega) h2, laidBy_congr hsame,
        laidBy_congr fun _ _ _ => inst_moveLabel]

/-! ### Up to an end -/

/-- Laying out lines up to an end moves them by the distance from where they stood. -/
theorem LaysBefore.shifts (h : LaysBefore lo hi table p b lines p' a lines')
    (hstands : Stands p lines c e) (hb : b = c + room e + d) (hsize : hi ≤ p.instances.size)
    (htable : table < p.symbols.size)
    (htables : ∀ j, lo ≤ j → j < hi → (p.inst j).table < p.symbols.size) :
    a = c + d ∧ lines' = lines.map (Line.movedBy d false) ∧
      Shifts d false lo hi table lines p p' := by
  induction h generalizing c e with
  | nil =>
    obtain ⟨hexp, -⟩ := hstands
    cases hexp
    exact ⟨by simp [hb], rfl, fun j hj hj' => absurd hj (by omega), .refl _ fun i line => not_laidBy_nil⟩
  | @plain lo hi table p p₁ a b b₁ line line' rest rest' hline hrest hmoved hend ih =>
    have hmem := hstands.inMemory
    obtain ⟨e₁, rfl, hstart, halign, hstands₁⟩ := hstands.of_plain hline
    rw [room_cons] at hb
    push_cast at hb
    obtain ⟨rfl, hlines, hshifts⟩ := ih hstands₁ (by omega) hsize htable htables
    have hline' := hmoved.eq halign
    have hextent : line'.statement.extent = line.statement.extent := by
      rw [hline', Line.statement_startingAt, Statement.startingAt_of_not_isAlign halign]
    obtain rfl : a = c + d := by omega
    have hmove := relabeled_moveLabel_wrappedBy (p := p₁) (d := d)
      (by rwa [hshifts.relabeled.size_eq]) hstart hmem
    refine ⟨rfl, ?_, fun j hj hj' => ?_, hshifts.relabeled.trans hmove fun i other => ?_⟩
    · rw [hlines, List.map_cons, hline', Line.movedBy_eq hstart hmem halign]
    · rw [inst_moveLabel, hshifts.lines_eq j hj hj']
    · rw [laidBy_cons, or_comm]
  | @call lo mid hi table p p₁ p₂ a a₁ b b₁ line line' rest rest' body hline hlt hrest hmoved hend hbody
      ih =>
    have h1 := hbody.le
    have h2 := hrest.le
    have hmem := hstands.inMemory
    obtain ⟨called, e₁, hroom, hstart, halign, hcalled, hothers⟩ := hstands.of_call hline
    rw [hroom] at hb
    push_cast at hb
    obtain ⟨rfl, hlines, hshifts⟩ := ih hothers (by omega) hsize htable
      fun j hj hj' => htables j (by omega) hj'
    -- What stands before the interval of the rest is as it was.
    have hcalled₁ : Stands p₁ (p₁.inst lo).lines c called := by
      rw [hrest.inst_front (by omega)]
      exact hcalled.congr (hrest.spans_called hbody) fun j _ hj' => hrest.inst_front hj'
    have hcount := hbody.spans_called.byteCount_eq (by rw [hrest.reshaped.size_eq]; omega) hcalled₁.expands
      hcalled.regular
    obtain rfl : a = c + d := by omega
    have hmove := relabeled_moveLabel_wrappedBy (p := p₁) (d := d)
      (by rwa [hshifts.relabeled.size_eq]) hstart hmem
    have hsymbols := hmove.size_eq.trans hshifts.relabeled.size_eq
    have htables₁ : ∀ j, lo ≤ j → j < mid →
        ((p₁.moveLabel table line (c + d)).inst j).table <
          (p₁.moveLabel table line (c + d)).symbols.size := by
      intro j hj hj'
      rw [hsymbols, inst_moveLabel, hrest.inst_front hj']
      exact htables j hj (by omega)
    obtain ⟨-, hlines₁, hshifts₁⟩ := hbody.shifts
      (hcalled₁.congr hbody.spans_called fun _ _ _ => inst_moveLabel) rfl
      (by simpa using htables₁ lo (Nat.le_refl lo) (by omega)) fun j hj hj' => htables₁ j (by omega) hj'
    refine ⟨rfl, ?_, forall_called mid ?_ (fun j hj hj' => ?_) (fun j hj hj' => ?_),
      hshifts.relabeled.trans (hmove.trans hshifts₁.relabeled fun _ _ => Iff.rfl) fun i other => ?_⟩
    · rw [hlines, List.map_cons, hmoved.eq halign, Line.movedBy_eq hstart hmem halign]
    · rw [hbody.inst_self (by rwa [hrest.reshaped.size_eq]), ← hrest.inst_front (by omega)]
      exact hlines₁
    · rw [inst_setLines_ne (by omega), hshifts₁.lines_eq j hj hj', inst_moveLabel, hrest.inst_front hj']
    · rw [hbody.inst_behind hj, hshifts.lines_eq j hj hj']
    · have hinner : LaidBy d (p₁.moveLabel table line (c + d)) (lo + 1) mid (p₁.inst lo).table
          (p₁.inst lo).lines i other ↔
          LaidBy d p (lo + 1) mid (p.inst lo).table (p.inst lo).lines i other := by
        rw [hrest.inst_front (by omega)]
        exact laidBy_congr fun j _ hj' => by rw [inst_moveLabel, hrest.inst_front hj']
      rw [laidBy_cons, laidBy_called (by omega) h2, hinner]
      grind

end Program

end Pep10
