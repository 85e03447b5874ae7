import Pep10.Proofs.Program.Descent
import Pep10.Proofs.Program.FirstPass

/-!
# Linking with faults

When linking meets faults, it goes on behind them.  The calls that it follows get copies as usual,
which are numbered in the order in which they are met; a call that has a fault of its own is not
followed, and still leads to an instance that was there before.  `Covers` states this for some
lines.  It tells which instances can be reached through a line: those of an interval, and some that
were there before.

Faults in a copy are logged under the copy, and one of them is repeated on the line of the call.  So
if something is logged under an instance of the interval of a line, then there is a fault on that
line (`Logs`, `logs_linkLines`).
-/

namespace Pep10

/-! ### The log -/

namespace Ordered

variable {α : Type} {lt : α → α → Bool} {a b : α} {l : List α}

lemma mem_insert : b ∈ insert lt a l ↔ b = a ∨ b ∈ l := by
  induction l with
  | nil => simp [insert]
  | cons c l ih =>
    rw [insert]
    split
    · exact List.mem_cons
    · rw [List.mem_cons, ih, List.mem_cons]
      grind

lemma mem_sort : b ∈ sort lt l ↔ b ∈ l := by
  have hfold : ∀ sorted : List α, b ∈ l.foldl (fun sorted a => insert lt a sorted) sorted ↔
      b ∈ sorted ∨ b ∈ l := by
    induction l with
    | nil => simp
    | cons a l ih =>
      intro sorted
      rw [List.foldl_cons, ih, mem_insert, List.mem_cons]
      grind
  rw [sort, hfold]
  simp

end Ordered

namespace Program

variable {p q : Program} {n lo mid hi id : Nat} {line : Line} {lines rest : List Line}

lemma mem_entries_addDiagnostic {number : Nat} {d : Diagnostic} {e : LogEntry} :
    e ∈ (p.addDiagnostic id number d).log.entries ↔ e = ⟨id, number, d⟩ ∨ e ∈ p.log.entries :=
  Ordered.mem_insert

/-- Logging faults under an instance adds entries of that instance. -/
lemma mem_entries_addDiagnostics {faults : List Fault} {e : LogEntry}
    (h : e ∈ (faults.foldl (fun p (number, e) => p.addDiagnostic id number (.ofLink e)) p).log.entries) :
    e ∈ p.log.entries ∨ e.owner = id ∧ faults ≠ [] := by
  induction faults generalizing p with
  | nil => exact .inl h
  | cons fault rest ih =>
    rcases ih h with h | ⟨howner, -⟩
    · rcases mem_entries_addDiagnostic.1 h with rfl | h
      · exact .inr ⟨rfl, List.cons_ne_nil _ _⟩
      · exact .inl h
    · exact .inr ⟨howner, List.cons_ne_nil _ _⟩

/-- Laying out logs nothing. -/
lemma log_layLines {layChild : Program → Int → Nat → Program × Int}
    (hchild : ∀ p address id, (layChild p address id).1.log = p.log) (emits : Bool) (table : Nat)
    (p : Program) (address : Int) (lines : List Line) :
    (layLines layChild emits table p address lines).1.log = p.log := by
  induction lines generalizing p address with
  | nil => rfl
  | cons line rest ih =>
    have hline : (layLine layChild emits table p address line).1.log = p.log := by
      obtain ⟨s, hs⟩ := exists_moveLabel p table { line.startingAt address with emits } address
      rw [layLine]
      split
      · exact (hchild _ _ _).trans (by rw [hs])
      · rw [hs]
    exact (ih _ _).trans hline

lemma log_layInstance (emits : Bool) (depth : Nat) (p : Program) (address : Int) (id : Nat) :
    (layInstance emits depth p address id).1.log = p.log := by
  induction depth generalizing p address id with
  | zero => rfl
  | succ depth ih => exact log_layLines ih emits _ p address _

lemma log_layAllBefore (depth table : Nat) (p : Program) (below : Int) (lines : List Line) :
    (layAllBefore depth table p below lines).1.log = p.log := by
  have hmove : ∀ (p : Program) (line : Line) (address : Int),
      (p.moveLabel table line address).log = p.log := by
    intro p line address
    obtain ⟨s, hs⟩ := exists_moveLabel p table line address
    rw [hs]
  induction lines with
  | nil => rfl
  | cons line rest ih =>
    refine Eq.trans ?_ ih
    change (layBefore depth table _ _ line).1.log = _
    rw [layBefore]
    split
    · exact hmove _ _ _
    · exact (log_layInstance _ _ _ _ _).trans (hmove _ _ _)
    · exact hmove _ _ _

lemma log_relocate (p : Program) (next : Nat) : (p.relocate next).1.log = p.log := by
  rw [relocate]
  dsimp only
  split
  · rfl
  · generalize searchStart _ _ _ = start
    have hrom := log_layLines (log_layInstance true p.instances.size) true (p.inst root).table p start
      ((p.inst root).lines.dropWhile fun line => !line.statement.isBurn)
    generalize layLines _ _ _ _ _ _ = laid at hrom ⊢
    have hram := log_layAllBefore p.instances.size (p.inst root).table laid.1 start
      ((p.inst root).lines.takeWhile fun line => !line.statement.isBurn)
    generalize layAllBefore _ _ _ _ _ = laid' at hram ⊢
    split
    · exact hram.trans hrom
    · exact hram.trans hrom

/-- The end of linking logs nothing. -/
lemma log_finishLink (p : Program) (next : Nat) (options : Options) :
    (p.finishLink next options).1.log = p.log := by
  rw [finishLink]
  split
  · rfl
  · split
    · rfl
    · split
      · rfl
      · exact log_relocate p next

/-! ### The instances behind a line -/

/-- If the line calls an instance, then one of the first `n` ones, and not the root. -/
def CallsOriginal (n : Nat) (line : Line) : Prop :=
  ∀ t, line.statement.target? = some t → t ≠ root ∧ t < n

/-- Some lines lead to instances that were among the first `n` ones before linking, other than the
root, or to the copies from `lo` up to `hi`, in the order of the expansion. -/
inductive Covers (n : Nat) (p : Program) : Nat → List Line → Nat → Prop
  | nil (lo : Nat) : Covers n p lo [] lo
  | plain {lo hi : Nat} {line : Line} {rest : List Line}
      (hline : CallsOriginal n line) (hrest : Covers n p lo rest hi) : Covers n p lo (line :: rest) hi
  | call {lo mid hi : Nat} {line : Line} {rest : List Line}
      (hline : line.statement.target? = some lo) (hbody : Covers n p (lo + 1) (p.inst lo).lines mid)
      (hrest : Covers n p mid rest hi) : Covers n p lo (line :: rest) hi

/-- The first `n` instances lead to each other only, and never to the root. -/
def OriginalsClosed (n : Nat) (p : Program) : Prop :=
  ∀ j < n, j ≠ root → ∀ line ∈ (p.inst j).lines, CallsOriginal n line

namespace Covers

lemma le (h : Covers n p lo lines hi) : lo ≤ hi := by
  induction h with
  | nil => exact Nat.le_refl _
  | plain _ _ ih => exact ih
  | call _ _ _ ihbody ihrest => omega

lemma of_original (h : ∀ line ∈ lines, CallsOriginal n line) : Covers n p lo lines lo := by
  induction lines with
  | nil => exact .nil lo
  | cons line rest ih =>
    rw [List.forall_mem_cons] at h
    exact .plain h.1 (ih h.2)

/-- Only the lines of the copies matter. -/
lemma congr (h : Covers n p lo lines hi)
    (hq : ∀ j, lo ≤ j → j < hi → (q.inst j).lines = (p.inst j).lines) : Covers n q lo lines hi := by
  induction h with
  | nil => exact .nil _
  | plain hline _ ih => exact .plain hline (ih hq)
  | @call lo mid hi _ _ hline hbody hrest ihbody ihrest =>
    have h1 := hbody.le
    have h2 := hrest.le
    have hlo : (q.inst lo).lines = (p.inst lo).lines := hq lo (by omega) (by omega)
    refine .call hline ?_ (ihrest fun j hj hj' => hq j (by omega) hj')
    rw [hlo]
    exact ihbody fun j hj hj' => hq j (by omega) (by omega)

lemma append {before after : List Line} (h1 : Covers n p lo before mid) (h2 : Covers n p mid after hi) :
    Covers n p lo (before ++ after) hi := by
  induction h1 with
  | nil => exact h2
  | plain hline _ ih => exact .plain hline (ih h2)
  | call hline hbody _ _ ih => exact .call hline hbody (ih h2)

/-- Every copy has an interval of its own inside. -/
lemma inner (h : Covers n p lo lines hi) {j : Nat} (hlo : lo ≤ j) (hhi : j < hi) :
    ∃ mid, mid ≤ hi ∧ Covers n p (j + 1) (p.inst j).lines mid := by
  induction h with
  | nil => omega
  | plain _ _ ih => exact ih hlo hhi
  | @call lo mid hi _ _ _ hbody hrest ihbody ihrest =>
    have hle := hrest.le
    rcases Nat.lt_trichotomy lo j with hj | rfl | hj
    · rcases Nat.lt_or_ge j mid with hm | hm
      · obtain ⟨m, hm, h⟩ := ihbody (by omega) hm
        exact ⟨m, by omega, h⟩
      · exact ihrest hm hhi
    · exact ⟨mid, hle, hbody⟩
    · omega

lemma target_mem (h : Covers n p lo lines hi) (hline : line ∈ lines) {t : Nat}
    (ht : line.statement.target? = some t) : (t ≠ root ∧ t < n) ∨ lo ≤ t ∧ t < hi := by
  induction h with
  | nil => cases hline
  | plain hplain _ ih =>
    rcases List.mem_cons.1 hline with rfl | hmem
    · exact .inl (hplain t ht)
    · exact ih hmem
  | @call lo mid hi _ _ hcall hbody hrest _ ih =>
    have h1 := hbody.le
    have h2 := hrest.le
    rcases List.mem_cons.1 hline with rfl | hmem
    · rw [hcall] at ht
      cases ht
      exact .inr (by omega)
    · exact (ih hmem).imp_right (by omega)

/-- What can be reached from an instance lies in the interval of its lines, or was there before. -/
lemma mem_of_reaches {a b : Nat} (h : Covers n p lo (p.inst a).lines hi) (hn : OriginalsClosed n p)
    (hab : p.Reaches a b) : b = a ∨ (b ≠ root ∧ b < n) ∨ lo ≤ b ∧ b < hi := by
  induction hab with
  | refl => exact .inl rfl
  | @tail b c _ hbc ih =>
    obtain ⟨line, hline, hc⟩ := List.mem_filterMap.1 hbc
    rcases ih with rfl | ⟨hne, hlt⟩ | ⟨hlo, hhi⟩
    · exact .inr (h.target_mem hline hc)
    · exact .inr (.inl (hn b hlt hne line hline c hc))
    · obtain ⟨m, hm, hb⟩ := h.inner hlo hhi
      exact .inr ((hb.target_mem hline hc).imp_right (by omega))

/-- Every copy can be reached through one of the lines. -/
lemma exists_reaches (h : Covers n p lo lines hi) {j : Nat} (hlo : lo ≤ j) (hhi : j < hi) :
    ∃ line ∈ lines, ∃ t, line.statement.target? = some t ∧ p.Reaches t j := by
  induction h with
  | nil => omega
  | plain _ _ ih =>
    obtain ⟨line, hline, hreach⟩ := ih hlo hhi
    exact ⟨line, List.mem_cons_of_mem _ hline, hreach⟩
  | @call lo mid hi line rest hcall hbody hrest ihbody ihrest =>
    rcases Nat.lt_trichotomy lo j with hj | rfl | hj
    · rcases Nat.lt_or_ge j mid with hm | hm
      · obtain ⟨inner, hinner, t, ht, hreach⟩ := ihbody (by omega) hm
        exact ⟨line, List.mem_cons_self, lo, hcall,
          .head (List.mem_filterMap.2 ⟨inner, hinner, ht⟩) hreach⟩
      · obtain ⟨line, hline, hreach⟩ := ihrest hm hhi
        exact ⟨line, List.mem_cons_of_mem _ hline, hreach⟩
    · exact ⟨line, List.mem_cons_self, lo, hcall, .refl⟩
    · omega

end Covers

end Program

/-! ### Linking -/

namespace Linker

open Program (root CallsOriginal Covers OriginalsClosed)

variable {n id table number target depth : Nat} {l l₁ l' : Linker} {line : Line} {lines lines' : List Line}
  {faults faults' : List Fault} {f : Linker → Nat → Linker × List Fault}

/-- The instances that were there before linking lead to each other, and entries of the log belong
to instances. -/
structure Intact (n : Nat) (l : Linker) : Prop where
  le_size : n ≤ l.program.instances.size
  closed : OriginalsClosed n l.program
  bounded : ∀ e ∈ l.program.log.entries, e.owner < l.program.instances.size

/-- What comes with linked lines: copies for the calls that have been followed, and entries under
these.  If something is logged under a copy that can be reached through a line, then there is a
fault on that line. -/
structure Logs (n : Nat) (l l' : Linker) (lines : List Line) (faults : List Fault) : Prop where
  size_le : l.program.instances.size ≤ l'.program.instances.size
  inst_eq : ∀ j < l.program.instances.size, l'.program.inst j = l.program.inst j
  entries : ∀ e ∈ l'.program.log.entries, e ∈ l.program.log.entries ∨
    l.program.instances.size ≤ e.owner ∧ e.owner < l'.program.instances.size
  covers : Covers n l'.program l.program.instances.size lines l'.program.instances.size
  blames : ∀ line ∈ lines, ∀ t, line.statement.target? = some t → (t ≠ root ∧ t < n) ∨
    ∃ mid, l.program.instances.size ≤ t ∧ mid ≤ l'.program.instances.size ∧
      Covers n l'.program (t + 1) (l'.program.inst t).lines mid ∧
      ∀ e ∈ l'.program.log.entries, t ≤ e.owner → e.owner < mid → ∃ fault ∈ faults, fault.1 = line.number
  faulty : ∀ e ∈ l'.program.log.entries, l.program.instances.size ≤ e.owner → faults ≠ []

namespace Logs

lemma intact (h : Logs n l l' lines faults) (hl : Intact n l) : Intact n l' where
  le_size := hl.le_size.trans h.size_le
  closed j hj hne line hline := by
    rw [h.inst_eq j (Nat.lt_of_lt_of_le hj hl.le_size)] at hline
    exact hl.closed j hj hne line hline
  bounded e he := by
    rcases h.entries e he with he | ⟨-, hlt⟩
    · exact Nat.lt_of_lt_of_le (hl.bounded e he) h.size_le
    · exact hlt

lemma append (h : Logs n l l₁ lines faults) (h' : Logs n l₁ l' lines' faults') :
    Logs n l l' (lines ++ lines') (faults ++ faults') where
  size_le := h.size_le.trans h'.size_le
  inst_eq j hj := (h'.inst_eq j (Nat.lt_of_lt_of_le hj h.size_le)).trans (h.inst_eq j hj)
  entries e he := by
    have hsize := h.size_le
    have hsize' := h'.size_le
    rcases h'.entries e he with he | ⟨hlo, hhi⟩
    · exact (h.entries e he).imp_right (by omega)
    · exact .inr (by omega)
  covers := by
    refine Covers.append (h.covers.congr fun j _ hj => ?_) h'.covers
    rw [h'.inst_eq j hj]
  blames line hline t ht := by
    have hsize := h.size_le
    have hsize' := h'.size_le
    rcases List.mem_append.1 hline with hline | hline
    · refine (h.blames line hline t ht).imp_right ?_
      rintro ⟨mid, hlo, hmid, hcovers, hblame⟩
      have hle := hcovers.le
      refine ⟨mid, hlo, by omega, ?_, fun e he hte hem => ?_⟩
      · rw [h'.inst_eq t (by omega)]
        refine hcovers.congr fun j _ hj => ?_
        rw [h'.inst_eq j (by omega)]
      · -- What is logged behind the lines is logged under later copies.
        have he : e ∈ l₁.program.log.entries := (h'.entries e he).resolve_right (by omega)
        obtain ⟨fault, hfault, hnumber⟩ := hblame e he hte hem
        exact ⟨fault, List.mem_append_left _ hfault, hnumber⟩
    · refine (h'.blames line hline t ht).imp_right ?_
      rintro ⟨mid, hlo, hmid, hcovers, hblame⟩
      refine ⟨mid, by omega, hmid, hcovers, fun e he hte hem => ?_⟩
      obtain ⟨fault, hfault, hnumber⟩ := hblame e he hte hem
      exact ⟨fault, List.mem_append_right _ hfault, hnumber⟩
  faulty e he hlo := by
    intro hnil
    obtain ⟨hfaults, hfaults'⟩ := List.append_eq_nil_iff.1 hnil
    rcases h'.entries e he with he | ⟨hlo', -⟩
    · exact h.faulty e he hlo hfaults
    · exact h'.faulty e he hlo' hfaults'

lemma nil (hl : Intact n l) : Logs n l l [] [] where
  size_le := Nat.le_refl _
  inst_eq _ _ := rfl
  entries _ he := .inl he
  covers := .nil _
  blames _ hline := absurd hline List.not_mem_nil
  faulty e he hlo := absurd (hl.bounded e he) (Nat.not_lt.2 hlo)

/-- A line that is not followed brings neither copies nor entries. -/
lemma plain (hl : Intact n l) (hinstances : l'.program.instances = l.program.instances)
    (hlog : l'.program.log = l.program.log) (hline : CallsOriginal n line) :
    Logs n l l' [line] faults where
  size_le := by rw [hinstances]
  inst_eq j _ := by rw [Program.inst, Program.inst, hinstances]
  entries e he := .inl (by rwa [hlog] at he)
  covers := by
    rw [hinstances]
    exact .plain hline (.nil _)
  blames line' hline' t ht := by
    obtain rfl := List.mem_singleton.1 hline'
    exact .inl (hline t ht)
  faulty e he hlo := by
    rw [hlog] at he
    exact absurd (hl.bounded e he) (Nat.not_lt.2 hlo)

end Logs

/-- What comes with the linking of a called instance: its lines lead to new copies, and if something
is logged under one of these, then there is a fault. -/
structure LogsInside (n : Nat) (l l' : Linker) (id : Nat) (faults : List Fault) : Prop where
  size_le : l.program.instances.size ≤ l'.program.instances.size
  inst_eq : ∀ j < l.program.instances.size, j ≠ id → l'.program.inst j = l.program.inst j
  entries : ∀ e ∈ l'.program.log.entries, e ∈ l.program.log.entries ∨
    l.program.instances.size ≤ e.owner ∧ e.owner < l'.program.instances.size
  covers : Covers n l'.program l.program.instances.size (l'.program.inst id).lines
    l'.program.instances.size
  faulty : ∀ e ∈ l'.program.log.entries, l.program.instances.size ≤ e.owner → faults ≠ []

/-- Linking a called instance that leads to instances that were there before. -/
def ChildLogs (n : Nat) (linkChild : Linker → Nat → Linker × List Fault) : Prop :=
  ∀ l id, Intact n l → id < l.program.instances.size →
    (∀ line ∈ (l.program.inst id).lines, CallsOriginal n line) →
    LogsInside n l (linkChild l id).1 id (linkChild l id).2

/-- Copying an instance that was there before keeps the invariant. -/
lemma Intact.copyFor (hl : Intact n l) (id number target : Nat) :
    Intact n (l.copyFor id number target) where
  le_size := by
    rw [size_copyFor]
    exact Nat.le_succ_of_le hl.le_size
  closed j hj hne line hline := by
    rw [inst_copyFor_of_lt (Nat.lt_of_lt_of_le hj hl.le_size)] at hline
    exact hl.closed j hj hne line hline
  bounded e he := by
    rw [size_copyFor]
    exact Nat.lt_succ_of_lt (hl.bounded e he)

lemma logs_linkCall (hf : ChildLogs n f) (hl : Intact n l) (id : Nat) (line : Line) (name : String)
    (args : List String) (htarget : target ≠ root ∧ target < n) :
    Logs n l (linkCall f id l line name args target).1 [(linkCall f id l line name args target).2.1]
      (linkCall f id l line name args target).2.2 := by
  have hcopied := hl.copyFor id line.number target
  obtain ⟨hsize, hinst, hentries, hcovers, hfaulty⟩ := hf _ l.program.instances.size hcopied
    (by rw [size_copyFor]; exact Nat.lt_succ_self _)
    (by rw [inst_copyFor_size]; exact hl.closed target htarget.2 htarget.1)
  rw [linkCall]
  dsimp only
  rw [size_copyFor] at hsize hentries hcovers hfaulty
  generalize hlinked : f (l.copyFor id line.number target) l.program.instances.size = linked at *
  obtain ⟨l₂, faults⟩ := linked
  dsimp only at hsize hinst hentries hcovers hfaulty ⊢
  have hinstances := instances_logAll l₂ l.program.instances.size faults
  have hinst' : ∀ j, (l₂.logAll l.program.instances.size faults).program.inst j = l₂.program.inst j := by
    intro j
    rw [Program.inst, Program.inst, hinstances]
  -- Whatever is new comes with a fault.
  have hnew : ∀ e ∈ (l₂.logAll l.program.instances.size faults).program.log.entries,
      l.program.instances.size ≤ e.owner → faults ≠ [] := by
    intro e he hlo
    rcases Program.mem_entries_addDiagnostics he with he | ⟨-, hne⟩
    · rcases hentries e he with hold | ⟨hlo', -⟩
      · exact absurd (hl.bounded e hold) (Nat.not_lt.2 hlo)
      · exact hfaulty e he hlo'
    · exact hne
  have hcovers' : Covers n (l₂.logAll l.program.instances.size faults).program (l.program.instances.size + 1)
      ((l₂.logAll l.program.instances.size faults).program.inst l.program.instances.size).lines
      l₂.program.instances.size := by
    rw [hinst']
    exact hcovers.congr fun j _ _ => by rw [hinst']
  exact {
    size_le := by
      rw [hinstances]
      omega
    inst_eq := fun j hj => by
      rw [hinst', hinst j (by rw [size_copyFor]; omega) (Nat.ne_of_lt hj), inst_copyFor_of_lt hj]
    entries := fun e he => by
      rw [hinstances]
      rcases Program.mem_entries_addDiagnostics he with he | ⟨howner, -⟩
      · exact (hentries e he).imp_right (by omega)
      · exact .inr (by omega)
    covers := by
      rw [hinstances]
      exact .call rfl hcovers' (.nil _)
    blames := fun line' hline' t ht => by
      obtain rfl := List.mem_singleton.1 hline'
      cases ht
      refine .inr ⟨l₂.program.instances.size, Nat.le_refl _, by rw [hinstances], hcovers',
        fun e he hlo _ => ?_⟩
      obtain ⟨fault, rest, rfl⟩ := List.exists_cons_of_ne_nil (hnew e he hlo)
      exact ⟨_, List.mem_cons_self, rfl⟩
    faulty := fun e he hlo => by
      obtain ⟨fault, rest, rfl⟩ := List.exists_cons_of_ne_nil (hnew e he hlo)
      exact List.cons_ne_nil _ _ }

lemma logs_linkLine (hf : ChildLogs n f) (hl : Intact n l) (hline : CallsOriginal n line) :
    Logs n l (linkLine f id table l line).1 [(linkLine f id table l line).2.1]
      (linkLine f id table l line).2.2 := by
  obtain ⟨l₁, ⟨s, -, rfl⟩, hcases⟩ := linkLine_cases id table l line
  have hhere : CallsOriginal n (l.here line) := by
    intro t ht
    rw [here, Line.statement_startingAt, Statement.target?_startingAt] at ht
    exact hline t ht
  rcases hcases with ⟨next, overflowed, faults, heq⟩ | ⟨name, args, target, hst, heq⟩
  · rw [heq f]
    exact .plain hl rfl rfl hhere
  · rw [heq f]
    have hbound : Intact n { l with program := { l.program with symbols := s } } :=
      ⟨hl.le_size, hl.closed, hl.bounded⟩
    have hcall := logs_linkCall hf hbound id (l.here line) name args (hhere target (by rw [hst]; rfl))
    exact { hcall with }

/-- Linking lines in turn. -/
lemma logs_linkLines (hf : ChildLogs n f) (hl : Intact n l) (id table : Nat)
    (hlines : ∀ line ∈ lines, CallsOriginal n line) :
    Logs n l (linkLines f id table l lines).1 (linkLines f id table l lines).2.1
      (linkLines f id table l lines).2.2 := by
  induction lines generalizing l with
  | nil => exact .nil hl
  | cons line rest ih =>
    rw [List.forall_mem_cons] at hlines
    have hline : Logs n l (linkLine f id table l line).1 [(linkLine f id table l line).2.1]
        (linkLine f id table l line).2.2 := logs_linkLine hf hl hlines.1
    exact hline.append (ih (hline.intact hl) hlines.2)

lemma childLogs_linkInstance (n depth : Nat) : ChildLogs n (linkInstance depth) := by
  induction depth with
  | zero =>
    intro l id hl _ hlines
    exact ⟨Nat.le_refl _, fun _ _ _ => rfl, fun _ he => .inl he, .of_original hlines,
      fun e he hlo => absurd (hl.bounded e he) (Nat.not_lt.2 hlo)⟩
  | succ depth ih =>
    intro l id hl hid hlines
    have hlogs : Logs n l _ _ _ :=
      logs_linkLines ih hl id (l.program.inst id).table hlines
    rw [linkInstance]
    dsimp only
    generalize linkLines (linkInstance depth) id (l.program.inst id).table l (l.program.inst id).lines =
      linked at hlogs
    obtain ⟨l', lines, faults⟩ := linked
    change LogsInside n l (l'.store id lines) id faults
    dsimp only at hlogs
    have hid' : id < l'.program.instances.size := Nat.lt_of_lt_of_le hid hlogs.size_le
    have hsize : (l'.store id lines).program.instances.size = l'.program.instances.size := size_store
    refine ⟨?_, fun j hj hne => ?_, ?_, ?_, hlogs.faulty⟩
    · rw [hsize]
      exact hlogs.size_le
    · rw [inst_store_ne hne, hlogs.inst_eq j hj]
    · rw [hsize]
      exact hlogs.entries
    · rw [hsize, inst_store_self hid']
      refine hlogs.covers.congr fun j hj _ => ?_
      rw [inst_store_ne (by omega)]

end Linker

/-! ### The program as a whole -/

namespace Program

open Linker (Logs)

variable {p q : Program} {lib : MacroLibrary} {text : String} {kind : ModuleKind}
  {exports : Option (List ExportedSymbol)} {options : Options} {reports : List Report}

lemma log_start : (Linker.start p exports).program.log = p.log := by
  unfold Linker.start
  split
  · rfl
  · split <;> rfl

/-- An assembled program calls instances of its own, and never the root. -/
lemma Ready.targets (h : Ready text kind lib p) :
    ∀ j < p.instances.size, ∀ line ∈ (p.inst j).lines, CallsOriginal p.instances.size line := by
  obtain ⟨rank, hrank⟩ := h.ranked
  intro j hj line hline t ht
  obtain ⟨hne, hlt, -⟩ := (hrank j hj).2 line hline t ht
  exact ⟨hne, hlt⟩

/-- Linking links the lines of the root, and goes on behind them if there is no fault.  The faults
that it finds are logged under the root. -/
lemma Ready.link_logs (h : Ready text kind lib p) (hlog : p.log.entries = [])
    (hlink : p.link exports options = (q, reports)) :
    ∃ l lines faults, Logs p.instances.size (Linker.start p exports) l lines faults ∧
      (∀ e ∈ q.log.entries, e.owner ≠ root → e ∈ l.program.log.entries) ∧
      (faults = [] ∨ q.instances = (l.store root lines).program.instances ∧
        reports = faults.map fun (number, e) => ⟨number, .ofLink e⟩) := by
  have hstart : Linker.Intact p.instances.size (Linker.start p exports) := by
    refine ⟨by rw [instances_start], fun j hj _ => ?_, fun e he => ?_⟩
    · rw [inst_start]
      exact h.targets j hj
    · rw [log_start, hlog] at he
      cases he
  have hlines : ∀ line ∈ ((Linker.start p exports).program.inst root).lines,
      CallsOriginal p.instances.size line := by
    rw [inst_start]
    exact h.targets root h.root_lt
  obtain ⟨depth, hdepth⟩ := Nat.exists_eq_add_one_of_ne_zero (Nat.ne_zero_of_lt h.root_lt)
  have hlogs : Logs p.instances.size (Linker.start p exports) _ _ _ :=
    Linker.logs_linkLines (Linker.childLogs_linkInstance p.instances.size depth) hstart root
      ((Linker.start p exports).program.inst root).table hlines
  rw [link] at hlink
  nth_rewrite 1 [hdepth] at hlink
  rw [Linker.linkInstance] at hlink
  generalize Linker.linkLines _ _ _ _ _ = linked at hlogs hlink
  obtain ⟨l, lines, faults⟩ := linked
  dsimp only at hlogs hlink
  cases hlink
  refine ⟨l, lines, faults, hlogs, fun e he hne => ?_, ?_⟩
  · rcases mem_entries_addDiagnostics he with he | ⟨howner, -⟩
    · split at he
      · rwa [log_finishLink] at he
      · exact he
    · exact absurd howner hne
  · cases faults with
    | nil => exact .inl rfl
    | cons fault rest => exact .inr ⟨instances_addDiagnostics _ _ _, rfl⟩

/-- If linking logs something under an instance other than the root, then it can be reached from the
root.  There is a report for every line of the root through which it can be reached. -/
lemma Ready.blame_link (h : Ready text kind lib p) (hlog : p.log.entries = [])
    (hlink : p.link exports options = (q, reports)) {e : LogEntry} (he : e ∈ q.log.entries)
    (hne : e.owner ≠ root) :
    (∃ line ∈ (q.inst root).lines, ∃ t, line.statement.target? = some t ∧ q.Reaches t e.owner) ∧
      ∀ line ∈ (q.inst root).lines, ∀ t, line.statement.target? = some t → q.Reaches t e.owner →
        ∃ r ∈ reports, r.line = line.number := by
  obtain ⟨l, lines, faults, hlogs, hentries, hcases⟩ := h.link_logs hlog hlink
  have hmem : e ∈ l.program.log.entries := hentries e he hne
  obtain ⟨hlo, hhi⟩ : p.instances.size ≤ e.owner ∧ e.owner < l.program.instances.size := by
    have hnew := hlogs.entries e hmem
    rw [log_start, hlog, instances_start] at hnew
    exact hnew.resolve_left List.not_mem_nil
  obtain ⟨hinstances, rfl⟩ := hcases.resolve_left (hlogs.faulty e hmem (by rwa [instances_start]))
  have hroot : root < l.program.instances.size :=
    Nat.lt_of_lt_of_le (Nat.lt_of_lt_of_le h.root_lt hlo) (Nat.le_of_lt hhi)
  have hinst : ∀ j, q.inst j = (l.store root lines).program.inst j := fun j => by
    rw [inst, inst, hinstances]
  have hcalls : q.Calls = (l.store root lines).program.Calls := by
    funext a b
    rw [Calls, Calls, callsOf, callsOf, hinst]
  have hcopies : ∀ j, p.instances.size ≤ j → (l.store root lines).program.inst j = l.program.inst j :=
    fun j hj => Linker.inst_store_ne (Nat.ne_of_gt (Nat.lt_of_lt_of_le h.root_lt hj))
  have hclosed : OriginalsClosed p.instances.size (l.store root lines).program := by
    intro j hj hne'
    rw [Linker.inst_store_ne hne', hlogs.inst_eq j (by rwa [instances_start]), inst_start]
    exact h.targets j hj
  rw [hinst, Linker.inst_store_self hroot, Reaches, hcalls]
  constructor
  · refine Covers.exists_reaches (hlogs.covers.congr fun j hj _ => ?_) (by rwa [instances_start]) hhi
    rw [instances_start] at hj
    rw [hcopies j hj]
  · intro line hline t ht hreach
    rcases hlogs.blames line hline t ht with ⟨hne', hlt⟩ | ⟨mid, hle, hmid, hcovers, hblame⟩
    · -- What was there before leads to nothing new.
      have hcovers : Covers p.instances.size (l.store root lines).program p.instances.size
          ((l.store root lines).program.inst t).lines p.instances.size := .of_original (hclosed t hlt hne')
      rcases hcovers.mem_of_reaches hclosed hreach with heq | ⟨-, hlt'⟩ | hbetween <;> omega
    · rw [instances_start] at hle
      have hcovers' : Covers p.instances.size (l.store root lines).program (t + 1)
          ((l.store root lines).program.inst t).lines mid := by
        rw [hcopies t hle]
        exact hcovers.congr fun j hj _ => by rw [hcopies j (by omega)]
      have hbetween : t ≤ e.owner ∧ e.owner < mid := by
        have := hcovers.le
        rcases hcovers'.mem_of_reaches hclosed hreach with heq | ⟨-, hlt'⟩ | hbetween <;> omega
      obtain ⟨fault, hfault, hnumber⟩ := hblame e hmem hbetween.1 hbetween.2
      exact ⟨_, List.mem_map_of_mem hfault, hnumber⟩

end Program

end Pep10
