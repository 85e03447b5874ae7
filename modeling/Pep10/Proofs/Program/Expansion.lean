import Mathlib.Logic.Relation
import Pep10.Proofs.Line.Layout
import Pep10.Proofs.Program.Access
import Pep10.Program.Expansion

/-!
# Expansions as trees

Linking gives every call an instance of its own, and numbers these instances in the order in which
they are met.  `Spans` states this for some lines: the instances that the lines call, directly or
not, are exactly those of an interval, each of them called once, in the order of the expansion.

From this everything about the shape of an expansion follows: calls lead upwards, so that the bound
on the depth in `Program.sites` is never felt; the instances that can be reached are those of the
interval; and what is changed outside the interval does not matter.
-/

namespace Pep10.Program

variable {p q : Program} {lo mid hi : Nat} {line : Line} {lines rest : List Line}

/-- Whether an instance calls another one. -/
def Calls (p : Program) (a b : Nat) : Prop := b ∈ p.callsOf a

/-- The instance `b` is the instance `a` or is called from it, directly or not. -/
def Reaches (p : Program) : Nat → Nat → Prop := Relation.ReflTransGen p.Calls

/-- Some lines call instances of a lower rank, and never the root. -/
def CallsBelow (p : Program) (rank : Nat → Nat) (bound : Nat) (lines : List Line) : Prop :=
  ∀ line ∈ lines, ∀ target, line.statement.target? = some target →
    target ≠ root ∧ target < p.instances.size ∧ rank target < bound

/-! ### Intervals of instances -/

/-- The instances that some lines call, directly or not, are those from `lo` up to `hi`, in the
order of the expansion. -/
inductive Spans (p : Program) : Nat → List Line → Nat → Prop
  | nil (lo : Nat) : Spans p lo [] lo
  | plain {lo hi : Nat} {line : Line} {rest : List Line} (hline : line.statement.target? = none)
      (hrest : Spans p lo rest hi) : Spans p lo (line :: rest) hi
  | call {lo mid hi : Nat} {line : Line} {rest : List Line}
      (hline : line.statement.target? = some lo) (hbody : Spans p (lo + 1) (p.inst lo).lines mid)
      (hrest : Spans p mid rest hi) : Spans p lo (line :: rest) hi

namespace Spans

lemma le (h : Spans p lo lines hi) : lo ≤ hi := by
  induction h with
  | nil => exact Nat.le_refl _
  | plain _ _ ih => exact ih
  | call _ _ _ ihbody ihrest => omega

/-- Only the lines of the instances in the interval matter. -/
lemma congr (h : Spans p lo lines hi)
    (hq : ∀ j, lo ≤ j → j < hi → (q.inst j).lines = (p.inst j).lines) : Spans q lo lines hi := by
  induction h with
  | nil => exact .nil _
  | plain hline _ ih => exact .plain hline (ih hq)
  | @call lo mid hi _ _ hline hbody hrest ihbody ihrest =>
    have h1 := hbody.le
    have h2 := hrest.le
    have hlo : (q.inst lo).lines = (p.inst lo).lines := hq lo (by omega) (by omega)
    refine .call hline ?_ (ihrest fun j hj hj' => hq j (by omega) hj')
    rw [hlo]
    exact ihbody fun j hj hj' => hq j (by omega) (by omega)

lemma of_plain (h : Spans p lo (line :: rest) hi) (hline : line.statement.target? = none) :
    Spans p lo rest hi := by
  cases h with
  | plain _ hrest => exact hrest
  | call hline' => rw [hline] at hline'; cases hline'

lemma of_call {target : Nat} (h : Spans p lo (line :: rest) hi)
    (hline : line.statement.target? = some target) :
    target = lo ∧ ∃ mid, Spans p (lo + 1) (p.inst lo).lines mid ∧ Spans p mid rest hi := by
  cases h with
  | plain hline' => rw [hline] at hline'; cases hline'
  | call hline' hbody hrest =>
    rw [hline] at hline'
    cases hline'
    exact ⟨rfl, _, hbody, hrest⟩

/-- Lines without calls call no instance. -/
lemma eq_of_plain (h : Spans p lo lines hi) (hlines : ∀ line ∈ lines, line.statement.target? = none) :
    hi = lo := by
  induction h with
  | nil => rfl
  | plain _ _ ih => exact ih (List.forall_mem_cons.1 hlines).2
  | call hline _ _ _ _ =>
    rw [(List.forall_mem_cons.1 hlines).1] at hline
    cases hline

lemma append {before after : List Line} (h1 : Spans p lo before mid) (h2 : Spans p mid after hi) :
    Spans p lo (before ++ after) hi := by
  induction h1 with
  | nil => exact h2
  | plain hline _ ih => exact .plain hline (ih h2)
  | call hline hbody _ _ ih => exact .call hline hbody (ih h2)

lemma exists_of_append {before after : List Line} (h : Spans p lo (before ++ after) hi) :
    ∃ mid, Spans p lo before mid ∧ Spans p mid after hi := by
  induction before generalizing lo with
  | nil => exact ⟨lo, .nil lo, h⟩
  | cons line before ih =>
    cases h with
    | plain hline hrest =>
      obtain ⟨mid, h1, h2⟩ := ih hrest
      exact ⟨mid, .plain hline h1, h2⟩
    | call hline hbody hrest =>
      obtain ⟨mid, h1, h2⟩ := ih hrest
      exact ⟨mid, .call hline hbody h1, h2⟩

/-- Every instance of the interval has an interval of its own inside. -/
lemma inner (h : Spans p lo lines hi) {j : Nat} (hlo : lo ≤ j) (hhi : j < hi) :
    ∃ mid, mid ≤ hi ∧ Spans p (j + 1) (p.inst j).lines mid := by
  induction h with
  | nil => omega
  | plain _ _ ih => exact ih hlo hhi
  | @call lo mid hi _ _ _ hbody hrest ihbody ihrest =>
    have hle := hrest.le
    rcases Nat.lt_trichotomy lo j with hj | rfl | hj
    · rcases Nat.lt_or_ge j mid with hm | hm
      · obtain ⟨m, hm, h⟩ := ihbody (by omega) hm
        exact ⟨m, by omega, h⟩
      · exact ihrest hm hhi
    · exact ⟨mid, hle, hbody⟩
    · omega

/-- The lines of an interval call instances of the interval. -/
lemma target_mem (h : Spans p lo lines hi) (hline : line ∈ lines) {j : Nat}
    (hj : line.statement.target? = some j) : lo ≤ j ∧ j < hi := by
  induction h with
  | nil => cases hline
  | plain hplain _ ih =>
    rcases List.mem_cons.1 hline with rfl | hmem
    · rw [hplain] at hj
      cases hj
    · exact ih hmem
  | @call lo mid hi _ _ hcall hbody hrest _ ih =>
    have h1 := hbody.le
    have h2 := hrest.le
    rcases List.mem_cons.1 hline with rfl | hmem
    · rw [hcall] at hj
      cases hj
      omega
    · have := ih hmem
      omega

/-- What can be reached from an instance lies in the interval of its lines. -/
lemma mem_of_reaches {a b : Nat} (h : Spans p lo (p.inst a).lines hi) (hab : p.Reaches a b) :
    b = a ∨ lo ≤ b ∧ b < hi := by
  induction hab with
  | refl => exact .inl rfl
  | @tail b c _ hbc ih =>
    obtain ⟨line, hline, hc⟩ := List.mem_filterMap.1 hbc
    rcases ih with rfl | ⟨hlo, hhi⟩
    · exact .inr (h.target_mem hline hc)
    · obtain ⟨m, hm, hb⟩ := h.inner hlo hhi
      have := hb.target_mem hline hc
      exact .inr (by omega)

end Spans

/-! ### The lines of an expansion -/

/-- The lines that some lines stand for, each call followed by the lines of the instance that it is
bound to. -/
inductive Expands (p : Program) : List Line → List Line → Prop
  | nil : Expands p [] []
  | plain {line : Line} {rest e : List Line} (hline : line.statement.target? = none)
      (hrest : Expands p rest e) : Expands p (line :: rest) (line :: e)
  | call {line : Line} {rest body e : List Line} {target : Nat}
      (hline : line.statement.target? = some target) (hbody : Expands p (p.inst target).lines body)
      (hrest : Expands p rest e) : Expands p (line :: rest) (line :: (body ++ e))

namespace Expands

variable {e e' : List Line}

lemma of_plain (h : Expands p (line :: rest) e) (hline : line.statement.target? = none) :
    ∃ e₁, e = line :: e₁ ∧ Expands p rest e₁ := by
  cases h with
  | plain _ hrest => exact ⟨_, rfl, hrest⟩
  | call hline' => rw [hline] at hline'; cases hline'

lemma of_call {target : Nat} (h : Expands p (line :: rest) e)
    (hline : line.statement.target? = some target) :
    ∃ body e₁, e = line :: (body ++ e₁) ∧ Expands p (p.inst target).lines body ∧
      Expands p rest e₁ := by
  cases h with
  | plain hline' => rw [hline] at hline'; cases hline'
  | call hline' hbody hrest =>
    rw [hline] at hline'
    cases hline'
    exact ⟨_, _, rfl, hbody, hrest⟩

/-- Lines stand for one expansion only. -/
lemma unique (h : Expands p lines e) (h' : Expands p lines e') : e = e' := by
  induction h generalizing e' with
  | nil => cases h'; rfl
  | plain hline _ ih =>
    obtain ⟨e₁, rfl, hrest⟩ := h'.of_plain hline
    rw [ih hrest]
  | call hline _ _ ihbody ihrest =>
    obtain ⟨body, e₁, rfl, hbody, hrest⟩ := h'.of_call hline
    rw [ihbody hbody, ihrest hrest]

/-- Lines without calls stand for themselves. -/
lemma eq_of_plain (h : Expands p lines e) (hlines : ∀ line ∈ lines, line.statement.target? = none) :
    e = lines := by
  induction h with
  | nil => rfl
  | plain _ _ ih => rw [ih (List.forall_mem_cons.1 hlines).2]
  | call hline _ _ _ _ =>
    rw [(List.forall_mem_cons.1 hlines).1] at hline
    cases hline

lemma append {before after : List Line} (h : Expands p before e) (h' : Expands p after e') :
    Expands p (before ++ after) (e ++ e') := by
  induction h with
  | nil => exact h'
  | plain hline _ ih => exact .plain hline ih
  | call hline hbody _ _ ih =>
    rw [List.cons_append, List.cons_append, List.append_assoc]
    exact .call hline hbody ih

/-- The lines are part of their expansion. -/
lemma mem (h : Expands p lines e) (hline : line ∈ lines) : line ∈ e := by
  induction h with
  | nil => exact hline
  | plain _ _ ih =>
    rcases List.mem_cons.1 hline with rfl | hmem
    · exact List.mem_cons_self
    · exact List.mem_cons_of_mem _ (ih hmem)
  | call _ _ _ _ ih =>
    rcases List.mem_cons.1 hline with rfl | hmem
    · exact List.mem_cons_self
    · exact List.mem_cons_of_mem _ (List.mem_append_right _ (ih hmem))

end Expands

namespace Spans

variable {e : List Line}

/-- Only the lines of the instances in the interval show in the expansion. -/
lemma expands_congr (h : Spans p lo lines hi)
    (hq : ∀ j, lo ≤ j → j < hi → (q.inst j).lines = (p.inst j).lines) (he : Expands p lines e) :
    Expands q lines e := by
  induction h generalizing e with
  | nil =>
    cases he
    exact .nil
  | plain hline _ ih =>
    obtain ⟨e₁, rfl, hrest⟩ := he.of_plain hline
    exact .plain hline (ih hq hrest)
  | @call lo mid hi _ _ hline hbody hrest ihbody ihrest =>
    have h1 := hbody.le
    have h2 := hrest.le
    obtain ⟨body, e₁, rfl, hbody', hrest'⟩ := he.of_call hline
    refine .call hline ?_ (ihrest (fun j hj hj' => hq j (by omega) hj') hrest')
    rw [hq lo (by omega) (by omega)]
    exact ihbody (fun j hj hj' => hq j (by omega) (by omega)) hbody'

end Spans

/-! ### Sites -/

/-- The sites of some lines of the instance `id`, the first of which has the given position. -/
def sitesOfLines (p : Program) (depth : Nat) (rootLine : Option Nat) (id : Nat) :
    Nat → List Line → List Site
  | _, [] => []
  | index, line :: rest =>
    let number := rootLine.getD line.number
    ⟨id, index, number, line⟩ ::
      (match line.statement.target? with
        | some target => p.sitesFrom depth (some number) target
        | none => []) ++ p.sitesOfLines depth rootLine id (index + 1) rest

lemma sitesOfLines_eq_flatMap (depth : Nat) (rootLine : Option Nat) (id index : Nat)
    (lines : List Line) :
    p.sitesOfLines depth rootLine id index lines =
      (lines.zipIdx index).flatMap fun (line, index) =>
        let number := rootLine.getD line.number
        ⟨id, index, number, line⟩ ::
          match line.statement with
          | .call _ _ target => p.sitesFrom depth (some number) target
          | _ => [] := by
  induction lines generalizing index with
  | nil => rfl
  | cons line rest ih =>
    rw [sitesOfLines, ih, List.zipIdx_cons, List.flatMap_cons]
    obtain ⟨statement⟩ := line
    cases statement <;> rfl

lemma sitesFrom_succ (depth : Nat) (rootLine : Option Nat) (id : Nat) :
    p.sitesFrom (depth + 1) rootLine id =
      p.sitesOfLines depth rootLine id 0 (p.inst id).lines := by
  rw [sitesOfLines_eq_flatMap]
  rfl

variable {depth id index : Nat} {rootLine : Option Nat}

lemma sitesOfLines_plain (h : line.statement.target? = none) :
    p.sitesOfLines depth rootLine id index (line :: rest) =
      ⟨id, index, rootLine.getD line.number, line⟩ ::
        p.sitesOfLines depth rootLine id (index + 1) rest := by
  simp [sitesOfLines, h]

lemma sitesOfLines_call {target : Nat} (h : line.statement.target? = some target) :
    p.sitesOfLines (depth + 1) rootLine id index (line :: rest) =
      ⟨id, index, rootLine.getD line.number, line⟩ ::
        (p.sitesOfLines depth (some (rootLine.getD line.number)) target 0 (p.inst target).lines ++
          p.sitesOfLines (depth + 1) rootLine id (index + 1) rest) := by
  simp [sitesOfLines, h, sitesFrom_succ]

lemma sitesOfLines_append {before after : List Line} :
    p.sitesOfLines depth rootLine id index (before ++ after) =
      p.sitesOfLines depth rootLine id index before ++
        p.sitesOfLines depth rootLine id (index + before.length) after := by
  induction before generalizing index with
  | nil => rfl
  | cons line before ih =>
    rw [List.cons_append, sitesOfLines, sitesOfLines, ih, List.length_cons]
    simp only [List.cons_append, List.append_assoc]
    rw [Nat.add_right_comm, Nat.add_assoc]

namespace Spans

/-- Every site is a line of the instance at hand or of an instance in the interval. -/
lemma mem_sites (h : Spans p lo lines hi) (hdepth : hi - lo ≤ depth) {site : Site}
    (hsite : site ∈ p.sitesOfLines depth rootLine id index lines) :
    (site.owner = id ∧ site.line ∈ lines) ∨
      (lo ≤ site.owner ∧ site.owner < hi ∧ site.line ∈ (p.inst site.owner).lines) := by
  induction h generalizing depth rootLine id index with
  | nil => cases hsite
  | plain hline _ ih =>
    rw [sitesOfLines_plain hline, List.mem_cons] at hsite
    rcases hsite with rfl | hsite
    · exact .inl ⟨rfl, List.mem_cons_self⟩
    · rcases ih hdepth hsite with ⟨h1, h2⟩ | h
      · exact .inl ⟨h1, List.mem_cons_of_mem _ h2⟩
      · exact .inr h
  | @call lo mid hi _ _ hline hbody hrest ihbody ihrest =>
    have h1 := hbody.le
    have h2 := hrest.le
    obtain ⟨depth, rfl⟩ : ∃ d, depth = d + 1 := ⟨depth - 1, by omega⟩
    rw [sitesOfLines_call hline, List.mem_cons, List.mem_append] at hsite
    rcases hsite with rfl | hsite | hsite
    · exact .inl ⟨rfl, List.mem_cons_self⟩
    · rcases ihbody (by omega) hsite with ⟨hown, hmem⟩ | ⟨hlo, hhi, hmem⟩
      · rw [← hown] at hmem
        exact .inr ⟨by omega, by omega, hmem⟩
      · exact .inr ⟨by omega, by omega, hmem⟩
    · rcases ihrest (by omega) hsite with ⟨hown, hmem⟩ | ⟨hlo, hhi, hmem⟩
      · exact .inl ⟨hown, List.mem_cons_of_mem _ hmem⟩
      · exact .inr ⟨by omega, by omega, hmem⟩

/-- The lines at the sites are the expansion. -/
lemma expands_sites (h : Spans p lo lines hi) (hdepth : hi - lo ≤ depth) :
    Expands p lines ((p.sitesOfLines depth rootLine id index lines).map Site.line) := by
  induction h generalizing depth rootLine id index with
  | nil => exact .nil
  | plain hline _ ih =>
    rw [sitesOfLines_plain hline]
    exact .plain hline (ih hdepth)
  | @call lo mid hi _ _ hline hbody hrest ihbody ihrest =>
    have h1 := hbody.le
    have h2 := hrest.le
    obtain ⟨depth, rfl⟩ : ∃ d, depth = d + 1 := ⟨depth - 1, by omega⟩
    rw [sitesOfLines_call hline, List.map_cons, List.map_append]
    exact .call hline (ihbody (by omega)) (ihrest (by omega))

/-- The lines have an expansion. -/
lemma exists_expands (h : Spans p lo lines hi) : ∃ e, Expands p lines e :=
  ⟨(p.sitesOfLines (hi - lo) none root 0 lines).map Site.line, h.expands_sites (Nat.le_refl _)⟩

/-- What holds of the lines and of those of the instances in the interval holds of the expansion. -/
lemma forall_mem_expansion {P : Line → Prop} (h : Spans p lo lines hi) (he : Expands p lines e)
    (hlines : ∀ line ∈ lines, P line)
    (hinst : ∀ j, lo ≤ j → j < hi → ∀ line ∈ (p.inst j).lines, P line) : ∀ line ∈ e, P line := by
  intro line hline
  have hsites : Expands p lines ((p.sitesOfLines (hi - lo) none root 0 lines).map Site.line) :=
    h.expands_sites (Nat.le_refl _)
  rw [he.unique hsites] at hline
  obtain ⟨site, hsite, rfl⟩ := List.mem_map.1 hline
  rcases h.mem_sites (Nat.le_refl _) hsite with ⟨-, hmem⟩ | ⟨hlo, hhi, hmem⟩
  · exact hlines _ hmem
  · exact hinst _ hlo hhi _ hmem

/-- Lines of the same shapes, in programs whose instances have lines of the same shapes, call the
same instances and have expansions of the same shapes. -/
lemma shapes_expansion {hi' : Nat} {lines' e' : List Line} (h : Spans p lo lines hi)
    (h' : Spans q lo lines' hi') (hlines : lines'.map Line.shape = lines.map Line.shape)
    (hinst : ∀ j, lo ≤ j → j < hi →
      (q.inst j).lines.map Line.shape = (p.inst j).lines.map Line.shape)
    (he : Expands p lines e) (he' : Expands q lines' e') :
    hi' = hi ∧ e'.map Line.shape = e.map Line.shape := by
  induction h generalizing lines' e e' hi' with
  | nil =>
    obtain rfl : lines' = [] := by simpa using hlines
    cases h'
    cases he
    cases he'
    exact ⟨rfl, rfl⟩
  | @plain lo hi line rest hline hrest ih =>
    cases lines' with
    | nil => simp at hlines
    | cons line' rest' =>
      rw [List.map_cons, List.map_cons, List.cons.injEq] at hlines
      have hline' : line'.statement.target? = none := Line.target?_of_shape hlines.1.symm hline
      obtain ⟨e₁, rfl, he₁⟩ := he.of_plain hline
      obtain ⟨e₁', rfl, he₁'⟩ := he'.of_plain hline'
      obtain ⟨hend, hshapes⟩ := ih (h'.of_plain hline') hlines.2 hinst he₁ he₁'
      exact ⟨hend, by rw [List.map_cons, List.map_cons, hlines.1, hshapes]⟩
  | @call lo mid hi line rest hline hbody hrest ihbody ihrest =>
    have h1 := hbody.le
    have h2 := hrest.le
    cases lines' with
    | nil => simp at hlines
    | cons line' rest' =>
      rw [List.map_cons, List.map_cons, List.cons.injEq] at hlines
      obtain ⟨target, hline'⟩ : ∃ target, line'.statement.target? = some target := by
        have := Line.isSome_target?_of_shape hlines.1
        rw [hline] at this
        exact Option.isSome_iff_exists.1 this
      obtain ⟨rfl, mid', hbody', hrest'⟩ := h'.of_call hline'
      obtain ⟨body, e₁, rfl, hebody, he₁⟩ := he.of_call hline
      obtain ⟨body', e₁', rfl, hebody', he₁'⟩ := he'.of_call hline'
      obtain ⟨rfl, hshapes⟩ := ihbody hbody' (hinst _ (Nat.le_refl _) (by omega))
        (fun j hj hj' => hinst j (by omega) (by omega)) hebody hebody'
      obtain ⟨hend, hshapes₁⟩ :=
        ihrest hrest' hlines.2 (fun j hj hj' => hinst j (by omega) hj') he₁ he₁'
      refine ⟨hend, ?_⟩
      rw [List.map_cons, List.map_cons, List.map_append, List.map_append, hlines.1, hshapes, hshapes₁]

/-- The number of instances is depth enough for the sites of the root. -/
lemma sites_eq (h : Spans p lo (p.inst root).lines p.instances.size) (hlo : root < lo) :
    ∃ depth, p.instances.size - lo ≤ depth ∧
      p.sites root = p.sitesOfLines depth none root 0 (p.inst root).lines := by
  have hle := h.le
  refine ⟨p.instances.size - 1, by omega, ?_⟩
  rw [sites, show p.instances.size = p.instances.size - 1 + 1 by omega, sitesFrom_succ]
  rfl

end Spans

/-! ### Room -/

/-- The number of bytes at some sites. -/
def roomAt (p : Program) (sites : List Site) : Nat :=
  sites.foldr (fun site count => (p.sizeAt site).toNat + count) 0

/-- The number of bytes of an expansion is the number of bytes at its sites. -/
lemma byteCount_eq_roomAt (id : Nat) : p.byteCount id = p.roomAt (p.sites id) := rfl

lemma roomAt_append (before after : List Site) :
    p.roomAt (before ++ after) = p.roomAt before + p.roomAt after := by
  induction before with
  | nil => exact (Nat.zero_add _).symm
  | cons site before ih =>
    change (p.sizeAt site).toNat + p.roomAt (before ++ after) =
      (p.sizeAt site).toNat + p.roomAt before + p.roomAt after
    rw [ih, Nat.add_assoc]

/-- The room at sites whose sizes do not depend on symbols is the room of their lines. -/
lemma roomAt_eq_room {sites : List Site} (h : ∀ site ∈ sites, site.line.statement.Regular) :
    p.roomAt sites = room (sites.map Site.line) := by
  induction sites with
  | nil => rfl
  | cons site sites ih =>
    rw [List.forall_mem_cons] at h
    change (p.sizeAt site).toNat + p.roomAt sites = _
    rw [ih h.2, List.map_cons, room_cons]
    exact congrArg (· + _) (h.1.size_eq _ _)

/-- An instance takes the room of its expansion. -/
lemma Spans.byteCount_eq {e : List Line} (h : Spans p (id + 1) (p.inst id).lines mid)
    (hmid : mid ≤ p.instances.size) (he : Expands p (p.inst id).lines e)
    (hlines : ∀ line ∈ e, line.statement.Regular) : p.byteCount id = room e := by
  have hle := h.le
  have hsites : p.sites id = p.sitesOfLines (p.instances.size - 1) none id 0 (p.inst id).lines := by
    rw [sites, ← sitesFrom_succ, show p.instances.size - 1 + 1 = p.instances.size by omega]
  have hexp : e = (p.sites id).map Site.line := by
    rw [hsites]
    exact he.unique (h.expands_sites (by omega))
  rw [byteCount_eq_roomAt, hexp, roomAt_eq_room]
  intro site hsite
  exact hlines site.line (by rw [hexp]; exact List.mem_map_of_mem hsite)

end Pep10.Program
