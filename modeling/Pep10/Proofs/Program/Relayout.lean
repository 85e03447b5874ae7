import Pep10.Proofs.Program.Repetition
import Pep10.Proofs.Program.RomStart

/-!
# Laying out in step

Two programs whose lines stand at the same places, and whose calls lead to instances that are
further on in one of them, are laid out in the same way.  The layouts are compared step by step, as
both follow the calls: `Lays` and `LaysBefore` give the same addresses to their lines, and move the
same labels.
-/

namespace Pep10

/-! ### Tables in pairs -/

/-- The tables that are paired have the same symbols. -/
structure SymbolStore.AgreeOn (pairs : Nat → Nat → Prop) (s s' : SymbolStore) : Prop where
  inj : ∀ {t t' u u' : Nat}, pairs t t' → pairs u u' → (u = t ↔ u' = t')
  lt : ∀ {t t' : Nat}, pairs t t' → t < s.size ∧ t' < s'.size
  find?_eq : ∀ {t t' : Nat}, pairs t t' → ∀ name, (s'.table t').find? name = (s.table t).find? name

namespace Program

open SymbolStore (AgreeOn)

variable {p p₁ q q₁ : Program} {pairs : Nat → Nat → Prop} {lo hi lo' hi' table table' c d : Nat} {a a₁ a' b b' : Int}
  {emits : Bool} {line line' made made' : Line} {lines lines' lines₁ lines₁' e : List Line}

/-- Moving the same label in both of two paired tables keeps their symbols the same. -/
lemma agreeOn_moveLabel (h : AgreeOn pairs p.symbols q.symbols) (hshape : line'.shape = line.shape)
    (htable : pairs table table') (a : Int) :
    AgreeOn pairs (p.moveLabel table line a).symbols (q.moveLabel table' line' a).symbols := by
  rw [moveLabel, moveLabel, Line.label_of_shape hshape, Line.isEquate_of_shape hshape]
  split
  · exact h
  next name _ =>
    split
    · exact h
    · obtain ⟨hlt, hlt'⟩ := h.lt htable
      refine ⟨h.inj, fun hu => ?_, fun {u u'} hu other => ?_⟩
      · rw [symbols_modifyTable, symbols_modifyTable, SymbolStore.size_modify, SymbolStore.size_modify]
        exact h.lt hu
      · rw [symbols_modifyTable, symbols_modifyTable]
        by_cases heq : u = table
        · subst heq
          obtain rfl := (h.inj htable hu).1 rfl
          rw [SymbolStore.table_modify_self hlt, SymbolStore.table_modify_self hlt']
          by_cases ho : other = name
          · rw [ho, SymbolTable.find?_assign_self, SymbolTable.find?_assign_self, h.find?_eq htable]
          · rw [SymbolTable.find?_assign_ne _ ho, SymbolTable.find?_assign_ne _ ho, h.find?_eq htable]
        · rw [SymbolStore.table_modify_ne heq,
            SymbolStore.table_modify_ne fun heq' => heq ((h.inj htable hu).2 heq')]
          exact h.find?_eq hu other

/-! ### Expansions -/

lemma map_shape_of_movedBy (h : List.Forall₂ (Line.MovedBy d) lines lines') :
    lines'.map Line.shape = lines.map Line.shape := by
  induction h with
  | nil => rfl
  | cons hline _ ih => rw [List.map_cons, List.map_cons, hline.shape_eq, ih]

namespace Spans

/-- Lines whose calls lead to instances further on call the instances of an interval further on. -/
lemma end_eq (h : Spans p lo lines hi) (h' : Spans q lo' lines' hi') (hlo : lo' = lo + d)
    (hlines : List.Forall₂ (Line.MovedBy d) lines lines')
    (hinst : ∀ j, lo ≤ j → j < hi → List.Forall₂ (Line.MovedBy d) (p.inst j).lines (q.inst (j + d)).lines) :
    hi' = hi + d := by
  induction h generalizing lo' lines' hi' with
  | nil =>
    cases hlines
    cases h'
    exact hlo
  | plain hline _ ih =>
    obtain _ | ⟨hmoved, hlines⟩ := hlines
    exact ih (h'.of_plain (by rw [hmoved.target_eq, hline, Option.map_none])) hlo hlines hinst
  | @call lo mid hi line rest hline hbody hrest ihbody ihrest =>
    obtain _ | ⟨hmoved, hlines⟩ := hlines
    subst hlo
    have h1 := hbody.le
    have h2 := hrest.le
    obtain ⟨-, mid', hbody', hrest'⟩ := h'.of_call (by rw [hmoved.target_eq, hline, Option.map_some])
    have hmid := ihbody hbody' (by omega) (hinst lo (Nat.le_refl lo) (by omega))
      fun j hj hj' => hinst j (by omega) (by omega)
    exact ihrest hrest' hmid hlines fun j hj hj' => hinst j (by omega) hj'

/-- The expansions of lines that stand at the same places stand at the same places. -/
lemma echoes_expansion (h : Spans p lo lines hi) (hlines : List.Forall₂ (Line.Echoes d) lines lines')
    (hinst : ∀ j, lo ≤ j → j < hi → List.Forall₂ (Line.Echoes d) (p.inst j).lines (q.inst (j + d)).lines)
    (he : Expands p lines e) : ∃ e', Expands q lines' e' ∧ List.Forall₂ (Line.Echoes d) e e' := by
  induction h generalizing lines' e with
  | nil =>
    cases hlines
    cases he
    exact ⟨[], .nil, .nil⟩
  | plain hline _ ih =>
    obtain _ | ⟨hecho, hlines⟩ := hlines
    obtain ⟨e₁, rfl, he₁⟩ := he.of_plain hline
    obtain ⟨e₁', he₁', hechoes⟩ := ih hlines hinst he₁
    have hline' := hecho.movedBy.target_eq
    rw [hline, Option.map_none] at hline'
    exact ⟨_, .plain hline' he₁', .cons hecho hechoes⟩
  | @call lo mid hi line rest hline hbody hrest ihbody ihrest =>
    obtain _ | ⟨hecho, hlines⟩ := hlines
    have h1 := hbody.le
    have h2 := hrest.le
    obtain ⟨body, e₁, rfl, hebody, he₁⟩ := he.of_call hline
    obtain ⟨body', hebody', hechoes⟩ := ihbody (hinst lo (Nat.le_refl lo) (by omega))
      (fun j hj hj' => hinst j (by omega) (by omega)) hebody
    obtain ⟨e₁', he₁', hechoes₁⟩ := ihrest hlines (fun j hj hj' => hinst j (by omega) hj') he₁
    have hline' := hecho.movedBy.target_eq
    rw [hline, Option.map_some] at hline'
    exact ⟨_, .call hline' hebody' he₁', .cons hecho (List.rel_append hechoes hechoes₁)⟩

end Spans

lemma room_of_echoes (h : List.Forall₂ (Line.Echoes d) lines lines') : room lines' = room lines := by
  induction h with
  | nil => rfl
  | cons hline _ ih => rw [room_cons, room_cons, ih, hline, Statement.extent_retarget]

/-- Instances whose lines stand at the same places, down all calls, take the same room. -/
lemma byteCount_of_echoes {id mid mid' : Nat} (h : Spans p (id + 1) (p.inst id).lines mid)
    (h' : Spans q (id + d + 1) (q.inst (id + d)).lines mid') (hsize : mid ≤ p.instances.size)
    (hsize' : mid' ≤ q.instances.size)
    (hinst : ∀ j, id ≤ j → j < mid →
      List.Forall₂ (Line.Echoes d) (p.inst j).lines (q.inst (j + d)).lines ∧
        ∀ line ∈ (p.inst j).lines, line.statement.Regular) :
    q.byteCount (id + d) = p.byteCount id := by
  have hle := h.le
  obtain ⟨e, he⟩ := h.exists_expands
  have hregular := h.forall_mem_expansion he (hinst id (Nat.le_refl id) (by omega)).2
    fun j hj hj' => (hinst j (by omega) hj').2
  obtain ⟨e', he', hechoes⟩ := h.echoes_expansion (hinst id (Nat.le_refl id) (by omega)).1
    (fun j hj hj' => (hinst j (by omega) hj').1) he
  have hshapes : e'.map Line.shape = e.map Line.shape :=
    map_shape_of_movedBy (hechoes.imp fun _ _ hline => hline.movedBy)
  rw [h.byteCount_eq hsize he hregular, h'.byteCount_eq hsize' he' (regular_of_shapes hregular hshapes),
    room_of_echoes hechoes]

/-! ### From a start -/

/-- The instances of an interval have lines that have been moved, and tables that are paired. -/
def Paired (R : Line → Line → Prop) (pairs : Nat → Nat → Prop) (lo hi d : Nat) (p q : Program) : Prop :=
  ∀ j, lo ≤ j → j < hi → List.Forall₂ R (p.inst j).lines (q.inst (j + d)).lines ∧
    pairs (p.inst j).table (q.inst (j + d)).table

namespace Paired

variable {R S : Line → Line → Prop} {lo₁ hi₁ : Nat} {p' q' : Program}

lemma imp (h : Paired R pairs lo hi d p q) (hR : ∀ x y, R x y → S x y) : Paired S pairs lo hi d p q :=
  fun j hj hj' => ⟨(h j hj hj').1.imp hR, (h j hj hj').2⟩

lemma mono (h : Paired R pairs lo hi d p q) (hlo : lo ≤ lo₁) (hhi : hi₁ ≤ hi) : Paired R pairs lo₁ hi₁ d p q :=
  fun j hj hj' => h j (Nat.le_trans hlo hj) (Nat.lt_of_lt_of_le hj' hhi)

/-- Only the instances of the interval matter. -/
lemma congr (h : Paired R pairs lo hi d p q) (hp : ∀ j, lo ≤ j → j < hi → p'.inst j = p.inst j)
    (hq : ∀ j, lo ≤ j → j < hi → q'.inst (j + d) = q.inst (j + d)) : Paired R pairs lo hi d p' q' := by
  intro j hj hj'
  rw [hp j hj hj', hq j hj hj']
  exact h j hj hj'

end Paired

/-- Two layouts from the same start come to the same. -/
theorem Lays.mirrors (h : Lays emits lo hi table p a lines p₁ a₁ lines₁)
    (h' : Lays emits lo' hi' table' q a lines' q₁ a' lines₁') (hlo : lo' = lo + d)
    (hlines : List.Forall₂ (Line.MovedBy d) lines lines') (hregular : ∀ line ∈ lines, line.statement.Regular)
    (hinst : Paired (Line.MovedBy d) pairs lo hi d p q)
    (hinst' : ∀ j, lo ≤ j → j < hi → ∀ line ∈ (p.inst j).lines, line.statement.Regular)
    (htable : pairs table table') (hagree : AgreeOn pairs p.symbols q.symbols) :
    hi' = hi + d ∧ a' = a₁ ∧ List.Forall₂ (Line.Retargets d) lines₁ lines₁' ∧
      Paired (Line.Retargets d) pairs lo hi d p₁ q₁ ∧ AgreeOn pairs p₁.symbols q₁.symbols := by
  induction h generalizing q lines' lo' hi' table' q₁ a' lines₁' with
  | nil =>
    cases hlines
    cases h'
    exact ⟨hlo, rfl, .nil, fun j hj hj' => absurd hj (by omega), hagree⟩
  | @plain lo hi table p p₁ a a₁ line rest rest' hline hrest ih =>
    obtain _ | ⟨hmoved, hlines⟩ := hlines
    rename_i line' lines'
    rw [List.forall_mem_cons] at hregular
    have hline' : line'.statement.target? = none := by rw [hmoved.target_eq, hline, Option.map_none]
    cases h' with
    | call hcall =>
      rw [hline'] at hcall
      cases hcall
    | plain _ hrest' =>
      have hextent : (line'.statement.startingAt a).extent = (line.statement.startingAt a).extent :=
        (hregular.1.extent_startingAt_congr (congrArg Line.statement hmoved.shape_eq).symm).symm
      rw [hextent] at hrest'
      obtain ⟨hhi, hend, hmade, hpaired, hagree⟩ := ih hrest' hlo hlines hregular.2
        (hinst.congr (fun _ _ _ => inst_moveLabel) fun _ _ _ => inst_moveLabel)
        (fun j hj hj' => by rw [inst_moveLabel]; exact hinst' j hj hj') htable
        (agreeOn_moveLabel hagree hmoved.shape_eq htable a)
      exact ⟨hhi, hend, .cons ((hmoved.echoes_startingAt hregular.1).retargets emits) hmade, hpaired, hagree⟩
  | @call lo mid hi table p p₁ p' a a₁ a' line rest rest' body hline hlt hbody hrest ihbody ihrest =>
    obtain _ | ⟨hmoved, hlines⟩ := hlines
    rename_i line' lines'
    rw [List.forall_mem_cons] at hregular
    subst hlo
    have h1 := hbody.le
    have h2 := hrest.le
    cases h' with
    | plain hplain =>
      rw [hmoved.target_eq, hline] at hplain
      cases hplain
    | @call _ mid' _ _ _ q₁ _ _ _ _ _ _ _ body' _ hlt' hbody' hrest' =>
      obtain ⟨hlo, htable₁⟩ := hinst lo (Nat.le_refl lo) (by omega)
      have hmove := agreeOn_moveLabel hagree hmoved.shape_eq htable a
      obtain ⟨rfl, rfl, hmade₁, hpaired₁, hagree₁⟩ := ihbody hbody' (by omega) hlo
        (hinst' lo (Nat.le_refl lo) (by omega))
        ((hinst.mono (by omega) h2).congr (fun _ _ _ => inst_moveLabel) fun _ _ _ => inst_moveLabel)
        (fun j hj hj' => by rw [inst_moveLabel]; exact hinst' j (by omega) (by omega)) htable₁ hmove
      obtain ⟨hhi, hend, hmade, hpaired, hagree'⟩ := ihrest hrest' rfl hlines hregular.2
        ((hinst.mono (by omega) (Nat.le_refl hi)).congr (fun j hj _ => hbody.inst_behind hj)
          fun j hj _ => hbody'.inst_behind (by omega))
        (fun j hj hj' => by rw [hbody.inst_behind hj]; exact hinst' j (by omega) hj') htable hagree₁
      refine ⟨hhi, hend, .cons ((hmoved.echoes_startingAt hregular.1).retargets emits) hmade,
        forall_called mid ?_ (fun j hj hj' => ?_) hpaired, hagree'⟩
      · rw [hbody.inst_called hlt hrest, hbody'.inst_called hlt' hrest']
        exact ⟨hmade₁, htable₁⟩
      · rw [hrest.inst_within hj hj', hrest'.inst_within (by omega) (by omega)]
        exact hpaired₁ j hj hj'

/-! ### Up to an end -/

/-- A statement that is neither an `.ALIGN` nor a call is given by its shape. -/
lemma eq_of_shape {s s' : Statement} (h : s'.shape = s.shape) (htarget : s.target? = none)
    (halign : s.isAlign = false) : s' = s := by
  have hs : s.shape = s := by cases s <;> first | rfl | (cases halign; done) | cases htarget
  rw [hs] at h
  subst h
  cases s' <;> first | rfl | (cases halign; done) | cases htarget

/-- Lines of the same shape, with calls that lead further on, are the same up to that if they stand
at the same place. -/
lemma retargets_of_shape (hshape : line'.shape = line.shape) (hst : line'.statement = line.statement.retarget d)
    (haddress : line'.address = line.address) (hemits : line'.emits = line.emits) :
    Line.Retargets d line line' := by
  rw [Line.Retargets, Line.eq_of_shape hshape, hst, haddress, hemits]

namespace MovedTo

variable {x x' y y' : Line}

/-- Two lines of the same shape that are no calls are moved to the same place in front of a
position. -/
lemma retargets_plain (h : MovedTo a x x') (h' : MovedTo a' y y') (hmoved : Line.MovedBy d x y)
    (hplain : x.statement.target? = none) (hregular : x.statement.Regular)
    (hend : a + x'.statement.extent = b) (hend' : a' + y'.statement.extent = b) :
    a' = a ∧ Line.Retargets d x' y' := by
  have hshape : y'.shape = x'.shape := by rw [h'.shape_eq, hmoved.shape_eq, h.shape_eq]
  have hst : y'.statement.shape = x'.statement.shape := congrArg Line.statement hshape
  have hplain' : x'.statement.target? = none := h.target_eq.trans hplain
  have hregular' : x'.statement.Regular := by
    have hst' : x'.statement.shape = x.statement.shape := congrArg Line.statement h.shape_eq
    rwa [← Statement.regular_shape, hst', Statement.regular_shape]
  obtain ⟨ha, heq⟩ : a' = a ∧ y'.statement = x'.statement := by
    cases halign : x'.statement.isAlign with
    | false =>
      have heq := eq_of_shape hst hplain' halign
      rw [heq] at hend'
      exact ⟨by omega, heq⟩
    | true =>
      obtain ⟨n, padding, hx⟩ : ∃ n padding, x'.statement = .align (.unsigned n) padding := by
        cases hx : x'.statement with
        | align operand padding =>
          rw [hx] at hregular'
          obtain ⟨n, -, rfl⟩ := hregular'
          exact ⟨n, padding, rfl⟩
        | _ =>
          rw [hx] at halign
          cases halign
      obtain ⟨padding', hy⟩ : ∃ padding', y'.statement = .align (.unsigned n) padding' :=
        Statement.shape_eq_align_iff.1 (by rw [hst, hx]; rfl)
      -- Between two multiples of the operand there is no room for a padding.
      obtain ⟨hlt, hdvd⟩ := h.aligned n padding hx
      obtain ⟨hlt', hdvd'⟩ := h'.aligned n padding' hy
      rw [hx, show (Statement.align (.unsigned n) padding).extent = padding.toNat from rfl] at hend
      rw [hy, show (Statement.align (.unsigned n) padding').extent = padding'.toNat from rfl] at hend'
      have hzero : a' - a = 0 :=
        Int.eq_zero_of_dvd_of_natAbs_lt_natAbs (Int.dvd_sub hdvd' hdvd) (by omega)
      have hpadding : padding' = padding := UInt16.toNat_inj.1 (by omega)
      exact ⟨by omega, by rw [hx, hy, hpadding]⟩
  subst ha
  refine ⟨rfl, retargets_of_shape hshape ?_ ?_ (h'.silent.trans h.silent.symm)⟩
  · rw [heq, Statement.retarget_of_target?_none hplain']
  · rw [h'.address_eq, h.address_eq]
    exact Line.address_startingAt_congr hmoved.shape_eq

/-- Two calls of the same macro are the same up to the copies that they lead to if they are moved to
the same place. -/
lemma retargets_call {target : Nat} (h : MovedTo a x x') (h' : MovedTo a y y') (hmoved : Line.MovedBy d x y)
    (htarget : x.statement.target? = some target) : Line.Retargets d x' y' := by
  obtain ⟨name, args, hx⟩ := Statement.eq_call_of_target? (h.target_eq.trans htarget)
  have hshape : y'.shape = x'.shape := by rw [h'.shape_eq, hmoved.shape_eq, h.shape_eq]
  have hx' : Line.MovedBy d x' y' := by
    refine ⟨hshape, ?_⟩
    rw [h'.target_eq, hmoved.target_eq, h.target_eq]
  refine retargets_of_shape hshape ?_ ?_ (h'.silent.trans h.silent.symm)
  · rw [hx'.statement_eq hx, hx]
    rfl
  · rw [h'.address_eq, h.address_eq]
    exact Line.address_startingAt_congr hmoved.shape_eq

end MovedTo

/-- The instances that two paired ones call end at paired instances. -/
lemma Paired.end_eq {mid mid' : Nat} (h : Paired (Line.Echoes d) pairs lo mid d p q) (hlt : lo + 1 ≤ mid)
    (hspans : Spans p (lo + 1) (p.inst lo).lines mid)
    (hspans' : Spans q (lo + d + 1) (q.inst (lo + d)).lines mid') : mid' = mid + d := by
  have hmoved := h.imp fun _ _ hecho => hecho.movedBy
  exact hspans.end_eq hspans' (by omega) (hmoved lo (Nat.le_refl lo) hlt).1
    fun j hj hj' => (hmoved j (by omega) hj').1

/-- Two layouts up to the same end come to the same. -/
theorem LaysBefore.mirrors (h : LaysBefore lo hi table p b lines p₁ a lines₁)
    (h' : LaysBefore lo' hi' table' q b lines' q₁ a' lines₁') (hlo : lo' = lo + d)
    (hsize : hi ≤ p.instances.size) (hsize' : hi' ≤ q.instances.size)
    (hlines : List.Forall₂ (Line.MovedBy d) lines lines') (hregular : ∀ line ∈ lines, line.statement.Regular)
    (hinst : Paired (Line.Echoes d) pairs lo hi d p q)
    (hinst' : ∀ j, lo ≤ j → j < hi → ∀ line ∈ (p.inst j).lines, line.statement.Regular)
    (htable : pairs table table') (hagree : AgreeOn pairs p.symbols q.symbols) :
    hi' = hi + d ∧ a' = a ∧ List.Forall₂ (Line.Retargets d) lines₁ lines₁' ∧
      Paired (Line.Retargets d) pairs lo hi d p₁ q₁ ∧ AgreeOn pairs p₁.symbols q₁.symbols := by
  induction h generalizing q lines' lo' hi' table' q₁ a' lines₁' with
  | nil =>
    cases hlines
    cases h'
    exact ⟨hlo, rfl, .nil, fun j hj hj' => absurd hj (by omega), hagree⟩
  | @plain lo hi table p p₁ a b b₁ line made rest rest' hline hrest hmade hend ih =>
    obtain _ | ⟨hmoved, hlines⟩ := hlines
    rw [List.forall_mem_cons] at hregular
    cases h' with
    | call hcall =>
      rw [hmoved.target_eq, hline] at hcall
      cases hcall
    | @plain _ _ _ _ q₁ _ _ b₁' line' made' _ _ _ hrest' hmade' hend' =>
      obtain ⟨hhi, rfl, hrests, hpaired, hagree₁⟩ := ih hrest' hlo hsize hsize' hlines hregular.2 hinst hinst'
        htable hagree
      obtain ⟨rfl, hretargets⟩ := hmade.retargets_plain hmade' hmoved hline hregular.1 hend hend'
      exact ⟨hhi, rfl, .cons hretargets hrests,
        hpaired.congr (fun _ _ _ => inst_moveLabel) fun _ _ _ => inst_moveLabel,
        agreeOn_moveLabel hagree₁ hmoved.shape_eq htable _⟩
  | @call lo mid hi table p p₁ p₂ a a₁ b b₁ line made rest rest' body hline hlt hrest hmade hend hbody ih =>
    obtain _ | ⟨hmoved, hlines⟩ := hlines
    rw [List.forall_mem_cons] at hregular
    subst hlo
    have h1 := hbody.le
    have h2 := hrest.le
    cases h' with
    | plain hplain =>
      rw [hmoved.target_eq, hline] at hplain
      cases hplain
    | @call _ mid' _ _ _ q₁ q₂ _ _ _ b₁' line' made' _ _ body' _ hlt' hrest' hmade' hend' hbody' =>
      obtain rfl := (hinst.mono (Nat.le_refl lo) h2).end_eq h1 (hrest.spans_called hbody)
        (hrest'.spans_called hbody')
      obtain ⟨hhi, rfl, hrests, hpaired, hagree₁⟩ := ih hrest' rfl hsize hsize' hlines hregular.2
        (hinst.mono (by omega) (Nat.le_refl hi)) (fun j hj hj' => hinst' j (by omega) hj') htable hagree
      -- What the line calls has not been touched by the lines behind it.
      have hcalled : Paired (Line.Echoes d) pairs lo mid d p₁ q₁ :=
        (hinst.mono (Nat.le_refl lo) h2).congr (fun j _ hj => hrest.inst_front hj)
          fun j _ hj => hrest'.inst_front (by omega)
      have hcalled' : ∀ j, lo ≤ j → j < mid → ∀ line ∈ (p₁.inst j).lines, line.statement.Regular := by
        intro j hj hj'
        rw [hrest.inst_front hj']
        exact hinst' j hj (by omega)
      have hcount : q₁.byteCount (lo + d) = p₁.byteCount lo :=
        byteCount_of_echoes hbody.spans_called hbody'.spans_called (by rw [hrest.reshaped.size_eq]; omega)
          (by rw [hrest'.reshaped.size_eq]; have := hrest'.le; omega)
          fun j hj hj' => ⟨(hcalled j hj hj').1, hcalled' j hj hj'⟩
      obtain rfl : a' = a := by
        rw [hcount] at hend'
        omega
      have hmovedBy := hcalled.imp fun _ _ hecho => hecho.movedBy
      obtain ⟨hbodylines, htables⟩ := hmovedBy lo (Nat.le_refl lo) (by omega)
      obtain ⟨-, -, hbodies, hpaired₂, hagree₂⟩ := hbody.mirrors hbody' (by omega) hbodylines
        (hcalled' lo (Nat.le_refl lo) (by omega))
        ((hmovedBy.mono (by omega) (Nat.le_refl mid)).congr (fun _ _ _ => inst_moveLabel)
          fun _ _ _ => inst_moveLabel)
        (fun j hj hj' => by rw [inst_moveLabel]; exact hcalled' j (by omega) hj') htables
        (agreeOn_moveLabel hagree₁ hmoved.shape_eq htable _)
      refine ⟨hhi, rfl, .cons (hmade.retargets_call hmade' hmoved hline) hrests,
        forall_called mid ?_ (fun j hj hj' => ?_) (fun j hj hj' => ?_), hagree₂⟩
      · rw [hbody.inst_self (by rwa [hrest.reshaped.size_eq]),
          hbody'.inst_self (by rwa [hrest'.reshaped.size_eq])]
        exact ⟨hbodies, htables⟩
      · rw [inst_setLines_ne (by omega), inst_setLines_ne (by omega)]
        exact hpaired₂ j hj hj'
      · rw [hbody.inst_behind hj, hbody'.inst_behind (by omega)]
        exact hpaired j hj hj'

end Program

end Pep10
