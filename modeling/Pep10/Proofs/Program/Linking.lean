import Pep10.Proofs.Program.LinkerStep

/-!
# Linking without a fault

`Links` is the relation between the state before and the state after some lines of an instance have
been linked without a fault.  It has one rule for a call and one for every other line, and no bound
on the depth of calls.  Everything that is known of a linked program is shown by induction on it.

`links_of_childLinks` leads from the linker to the relation, for programs in which every call goes
down in rank.
-/

namespace Pep10.Linker

variable {p : Program} {id table depth size : Nat} {l l₁ l' : Linker} {line line' : Line}
  {lines lines' : List Line}

/-! ### The relation -/

/-- Lines of the instance `id` are linked without a fault, and become the lines at the end. -/
inductive Links (p : Program) : Nat → Nat → Linker → List Line → Linker → List Line → Prop
  | nil {id table : Nat} {l : Linker} (hholds : Holds p id table l) : Links p id table l [] l []
  | plain {id table : Nat} {l l₁ l' : Linker} {line : Line} {rest rest' : List Line}
      (hholds : Holds p id table l) (hline : line.statement.target? = none)
      (hbind : Binds id table l (l.here line) l₁)
      (hroom : l₁.next + ((l.here line).size l₁.program.symbols table).toNat ≤ 0xFFFF)
      (hrest : Links p id table
        (l₁.skip ((l.here line).size l₁.program.symbols table).toNat) rest l' rest') :
      Links p id table l (line :: rest) l' (l.here line :: rest')
  | call {id table target : Nat} {l l₁ l₂ l' : Linker} {line : Line} {name : String}
      {args : List String} {rest rest' body : List Line}
      (hholds : Holds p id table l) (hline : line.statement = .call name args target)
      (hroot : target ≠ Program.root) (htarget : target < p.instances.size)
      (hbind : Binds id table l (l.here line) l₁)
      (hbody : Links p l₁.program.instances.size l₁.program.symbols.size
        (l₁.copyFor id line.number target) (p.inst target).lines l₂ body)
      (hrest : Links p id table (l₂.store l₁.program.instances.size body) rest l' rest') :
      Links p id table l (line :: rest) l'
        ({ l.here line with statement := .call name args l₁.program.instances.size } :: rest')

namespace Links

/-- The invariant holds before the lines. -/
lemma holds (h : Links p id table l lines l' lines') : Holds p id table l := by
  cases h <;> assumption

/-- The invariant holds behind the lines. -/
lemma holds' (h : Links p id table l lines l' lines') : Holds p id table l' := by
  induction h with
  | nil hholds => exact hholds
  | plain _ _ _ _ _ ih => exact ih
  | call _ _ _ _ _ _ _ _ ih => exact ih

end Links

lemma Binds.instances_eq (h : Binds id table l line l') :
    l'.program.instances = l.program.instances := by
  obtain ⟨s, -, rfl⟩ := h.symbolsOnly
  rfl

lemma Binds.inst_eq (h : Binds id table l line l') (j : Nat) :
    l'.program.inst j = l.program.inst j := by
  obtain ⟨s, -, rfl⟩ := h.symbolsOnly
  rfl

lemma Binds.next_eq (h : Binds id table l line l') : l'.next = l.next := by
  obtain ⟨s, -, rfl⟩ := h.symbolsOnly
  rfl

namespace Links

/-- Linking adds instances and never takes one away. -/
lemma size_le (h : Links p id table l lines l' lines') :
    l.program.instances.size ≤ l'.program.instances.size := by
  induction h with
  | nil => exact Nat.le_refl _
  | plain _ _ hbind _ _ ih => rwa [skip, hbind.instances_eq] at ih
  | call _ _ _ _ hbind _ _ ihbody ihrest =>
    rw [size_copyFor, hbind.instances_eq] at ihbody
    rw [size_store] at ihrest
    omega

/-- Linking leaves all instances alone that exist already. -/
lemma inst_eq (h : Links p id table l lines l' lines') {j : Nat}
    (hj : j < l.program.instances.size) : l'.program.inst j = l.program.inst j := by
  induction h with
  | nil => rfl
  | plain _ _ hbind _ _ ih => rw [ih (by rwa [skip, hbind.instances_eq]), skip, hbind.inst_eq]
  | call _ _ _ _ hbind hbody _ ihbody ihrest =>
    have hsize := hbody.size_le
    rw [size_copyFor, hbind.instances_eq] at hsize
    rw [ihrest (by rw [size_store]; omega),
      inst_store_ne (by rw [hbind.instances_eq]; exact Nat.ne_of_lt hj),
      ihbody (by rw [size_copyFor, hbind.instances_eq]; omega),
      inst_copyFor_of_lt (by rwa [hbind.instances_eq]), hbind.inst_eq]

end Links

/-! ### From the linker to the relation -/

/-- A line is linked without a fault only if it is bound, and then it is either passed over or, if
it is a call, a copy of the called instance is linked. -/
lemma linkLine_eq {linkChild : Linker → Nat → Linker × List Fault}
    (h : linkLine linkChild id table l line = (l', line', [])) :
    ∃ l₁, Binds id table l (l.here line) l₁ ∧
      ((line.statement.target? = none ∧ line' = l.here line ∧
          l₁.advance ((l.here line).size l₁.program.symbols table).toNat = (l', none)) ∨
        ∃ name args target, line.statement = .call name args target ∧
          linkChild (l₁.copyFor id line.number target) l₁.program.instances.size = (l', []) ∧
          line' =
            { l.here line with statement := .call name args l₁.program.instances.size }) := by
  unfold linkLine at h
  dsimp only at h
  split at h
  · cases h
  next l₀ hlabel =>
    split at h
    · cases h
    next l₁ hoperand =>
      refine ⟨l₁, ⟨l₀, hlabel, hoperand⟩, ?_⟩
      split at h
      next name args target hst =>
        have hcall : line.statement = .call name args target := by
          obtain ⟨statement⟩ := line
          cases statement with
          | align operand _ => cases operand <;> cases hst
          | call => exact hst
          | _ => cases hst
        unfold linkCall at h
        simp only [Prod.mk.injEq, List.map_eq_nil_iff, List.take_eq_nil_iff] at h
        obtain ⟨hl, rfl, hnone | hnil⟩ := h
        · cases hnone
        · refine .inr ⟨name, args, target, hcall, Prod.ext ?_ hnil, rfl⟩
          rw [← hl, hnil]
          rfl
      next hst =>
        simp only [Prod.mk.injEq, List.map_eq_nil_iff, Option.toList_eq_nil_iff] at h
        obtain ⟨rfl, rfl, hnone⟩ := h
        refine .inl ⟨?_, rfl, Prod.ext rfl hnone⟩
        obtain ⟨statement⟩ := line
        cases statement <;> first | rfl | exact absurd rfl (hst _ _ _)

/-- Memory that has not been reported to be short is not short as long as there is no report. -/
lemma advance_eq (hl : l.overflowed = false) (h : l.advance size = (l', none)) :
    l.next + size ≤ 0xFFFF ∧ l' = l.skip size := by
  unfold advance at h
  split at h
  · cases h
  next hfit =>
    cases h
    simp only [hl, Bool.not_false, Bool.and_true, decide_eq_true_eq] at hfit
    exact ⟨by omega, rfl⟩

/-- The called instances are linked in the sense of the relation. -/
def ChildLinks (p : Program) (rank : Nat → Nat) (depth : Nat)
    (linkChild : Linker → Nat → Linker × List Fault) : Prop :=
  ∀ {copy table target : Nat} {l l' : Linker}, target < p.instances.size → rank target < depth →
    Holds p copy table l → (l.program.inst copy).lines = (p.inst target).lines →
    (l.program.inst copy).table = table → linkChild l copy = (l', []) →
    ∃ l₂ body, Links p copy table l (p.inst target).lines l₂ body ∧ l' = l₂.store copy body

/-- Lines are linked without a fault only if the first one is, and the others behind it. -/
lemma linkLines_cons_eq {linkChild : Linker → Nat → Linker × List Fault} {rest : List Line}
    (h : linkLines linkChild id table l (line :: rest) = (l', lines', [])) :
    ∃ l₁ line' rest', linkLine linkChild id table l line = (l₁, line', []) ∧
      linkLines linkChild id table l₁ rest = (l', rest', []) ∧ lines' = line' :: rest' := by
  rw [linkLines] at h
  rcases hfirst : linkLine linkChild id table l line with ⟨l₁, line', faults⟩
  rcases hrest : linkLines linkChild id table l₁ rest with ⟨l₂, rest', more⟩
  simp only [hfirst, hrest, Prod.mk.injEq, List.append_eq_nil_iff] at h
  obtain ⟨rfl, rfl, rfl, rfl⟩ := h
  exact ⟨l₁, line', rest', rfl, hrest, rfl⟩

/-- Linking lines in turn is linking in the sense of the relation, if linking called instances
is. -/
lemma links_of_childLinks {rank : Nat → Nat} {linkChild : Linker → Nat → Linker × List Fault}
    (hchild : ChildLinks p rank depth linkChild) (hholds : Holds p id table l)
    (hbelow : p.CallsBelow rank depth lines)
    (h : linkLines linkChild id table l lines = (l', lines', [])) :
    Links p id table l lines l' lines' := by
  induction lines generalizing l lines' with
  | nil =>
    cases h
    exact .nil hholds
  | cons line rest ih =>
    obtain ⟨lmid, line', rest', hfirst, hrest, rfl⟩ := linkLines_cons_eq h
    have hbelow' : p.CallsBelow rank depth rest :=
      fun line hline => hbelow line (List.mem_cons_of_mem _ hline)
    obtain ⟨l₁, hbind, ⟨hplain, rfl, hadv⟩ | ⟨name, args, target, hcall, hlink, rfl⟩⟩ :=
      linkLine_eq hfirst
    · have hholds₁ := hholds.binds hbind
      obtain ⟨hroom, rfl⟩ := advance_eq hholds₁.overflowed_eq hadv
      exact .plain hholds hplain hbind hroom (ih (hholds₁.skip _) hbelow' hrest)
    · have hholds₁ := hholds.binds hbind
      have htarget : line.statement.target? = some target := by rw [hcall]; rfl
      obtain ⟨hroot, hlt, hrank⟩ := hbelow line List.mem_cons_self target htarget
      obtain ⟨l₂, body, hbody, rfl⟩ := hchild hlt hrank hholds₁.copyFor
        (by rw [inst_copyFor_size, hholds₁.inst_eq target hlt]) (by rw [inst_copyFor_size]) hlink
      have hsize := hbody.size_le
      rw [size_copyFor] at hsize
      exact .call hholds hcall hroot hlt hbind hbody
        (ih (hholds₁.store hbody.holds' hsize) hbelow' hrest)

/-- What the linker does without a fault is linking in the sense of the relation, if the depth
suffices for the ranks of the called instances. -/
theorem childLinks_linkInstance {rank : Nat → Nat}
    (hrank : ∀ j < p.instances.size, p.CallsBelow rank (rank j) (p.inst j).lines) (depth : Nat) :
    ChildLinks p rank depth (linkInstance depth) := by
  induction depth with
  | zero =>
    intro _ _ _ _ _ _ hlow
    exact absurd hlow (Nat.not_lt_zero _)
  | succ depth ih =>
    intro copy table target l l' htarget hlow hholds hlines htable h
    simp only [linkInstance, Prod.mk.injEq] at h
    obtain ⟨rfl, hfaults⟩ := h
    have hbelow : p.CallsBelow rank depth (l.program.inst copy).lines := by
      rw [hlines]
      intro line hline t ht
      obtain ⟨h1, h2, h3⟩ := hrank target htarget line hline t ht
      exact ⟨h1, h2, by omega⟩
    rw [htable] at hfaults ⊢
    have hlinks := links_of_childLinks ih hholds hbelow (Prod.ext rfl (Prod.ext rfl hfaults))
    rw [hlines] at hlinks ⊢
    exact ⟨_, _, hlinks, rfl⟩

end Pep10.Linker
