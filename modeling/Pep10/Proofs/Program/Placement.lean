import Pep10.Proofs.Program.Linking

/-!
# Where linked lines stand

What linking does to lines, apart from their symbols.  The copies that are made for the calls span
the interval of the new instances; every line keeps its shape; and the lines of the expansion stand
one behind the other from the address on at which linking started.
-/

namespace Pep10.Linker.Links

variable {p : Program} {id table depth : Nat} {l l' : Linker} {lines lines' : List Line}

/-- A call keeps its address when it is bound to another instance. -/
lemma startingAt_bound {line : Line} {name : String} {args : List String} {target : Nat} {a : Int}
    (h : line.statement = .call name args target) (copy : Nat) :
    ({ line.startingAt a with statement := .call name args copy } : Line).startingAt a =
      { line.startingAt a with statement := .call name args copy } := by
  simp [Line.startingAt, h, Statement.isAddressable, Statement.startingAt]

/-- A call keeps its shape when it is bound to another instance. -/
lemma shape_bound {line : Line} {name : String} {args : List String} {target : Nat} {a : Int}
    (h : line.statement = .call name args target) (copy : Nat) :
    ({ line.startingAt a with statement := .call name args copy } : Line).shape = line.shape := by
  simp [Line.shape, Line.startingAt, h, Statement.shape]

/-- The lines keep their shapes. -/
lemma shapes (h : Links p id table l lines l' lines') :
    lines'.map Line.shape = lines.map Line.shape := by
  induction h with
  | nil => rfl
  | plain _ _ _ _ _ ih => rw [List.map_cons, List.map_cons, ih, here, Line.shape_startingAt]
  | call _ hline _ _ _ _ _ _ ih => rw [List.map_cons, List.map_cons, ih, here, shape_bound hline]

/-! ### Copies -/

/-- The instance `i` is a linked copy of the instance `t` of the program, which is not the root. -/
structure CopyOf (p : Program) (t : Nat) (i : Instance) : Prop where
  ne_root : t ≠ Program.root
  lt_size : t < p.instances.size
  moduleId_eq : i.moduleId = (p.inst t).moduleId
  args_eq : i.args = (p.inst t).args
  shapes : i.lines.map Line.shape = (p.inst t).lines.map Line.shape

/-- The copy that is made for a call, once its lines have been linked, until the end. -/
lemma inst_copy {copy target number : Nat} {l₁ l₂ : Linker} {body : List Line}
    (hcopy : copy = l₁.program.instances.size)
    (hbody : Links p copy l₁.program.symbols.size (l₁.copyFor id number target)
      (p.inst target).lines l₂ body)
    (hrest : Links p id table (l₂.store copy body) lines l' lines') :
    l'.program.inst copy = withLines body
      { l₁.program.inst target with table := l₁.program.symbols.size } := by
  subst hcopy
  have hsize := hbody.size_le
  rw [size_copyFor] at hsize
  rw [hrest.inst_eq (by rw [size_store]; omega), inst_store_self (by omega),
    hbody.inst_eq (by rw [size_copyFor]; omega), inst_copyFor_size]

/-- Every instance that linking adds is a copy of an assembled instance, if no other is called. -/
lemma copies (h : Links p id table l lines l' lines')
    (hlines : ∀ line ∈ lines, ∀ t, line.statement.target? = some t → (p.inst t).assembled = true)
    (hp : ∀ j < p.instances.size, ∀ line ∈ (p.inst j).lines, ∀ t,
      line.statement.target? = some t → (p.inst t).assembled = true) {j : Nat}
    (hlo : l.program.instances.size ≤ j) (hhi : j < l'.program.instances.size) :
    ∃ t, (p.inst t).assembled = true ∧ CopyOf p t (l'.program.inst j) := by
  induction h with
  | nil => omega
  | plain _ _ hbind _ _ ih =>
    exact ih (List.forall_mem_cons.1 hlines).2 (by rwa [skip, hbind.instances_eq]) hhi
  | @call _ _ target _ l₁ l₂ _ _ _ _ _ _ _ hholds hline hroot htarget hbind hbody hrest ihbody ihrest =>
    rw [List.forall_mem_cons] at hlines
    have hsize := hbody.size_le
    rw [size_copyFor] at hsize
    rw [← hbind.instances_eq] at hlo
    rcases Nat.lt_or_ge j l₂.program.instances.size with hj | hj
    · rcases Nat.eq_or_lt_of_le hlo with rfl | hlt
      · rw [inst_copy rfl hbody hrest, (hholds.binds hbind).inst_eq target htarget]
        exact ⟨target, hlines.1 target (by rw [hline]; rfl), hroot, htarget, rfl, rfl, hbody.shapes⟩
      · rw [hrest.inst_eq (by rwa [size_store]), inst_store_ne (by omega)]
        exact ihbody (hp target htarget) (by rw [size_copyFor]; omega) hj
    · exact ihrest hlines.2 (by rwa [size_store]) hhi

/-- Lines that emit code still do when they have been linked, and so do the lines of the copies. -/
lemma emits (h : Links p id table l lines l' lines') (hlines : ∀ line ∈ lines, line.emits = true)
    (hp : ∀ j < p.instances.size, ∀ line ∈ (p.inst j).lines, line.emits = true) :
    (∀ line ∈ lines', line.emits = true) ∧
      ∀ j, l.program.instances.size ≤ j → j < l'.program.instances.size →
        ∀ line ∈ (l'.program.inst j).lines, line.emits = true := by
  induction h with
  | nil => exact ⟨List.forall_mem_nil _, fun j hj hj' => absurd hj (by omega)⟩
  | plain _ _ hbind _ _ ih =>
    rw [List.forall_mem_cons] at hlines
    obtain ⟨hrest, hcopies⟩ := ih hlines.2
    refine ⟨List.forall_mem_cons.2 ⟨hlines.1, hrest⟩, fun j hj => hcopies j ?_⟩
    rwa [skip, hbind.instances_eq]
  | @call _ _ target _ l₁ l₂ _ _ _ _ _ _ _ _ _ _ htarget hbind hbody hrest ihbody ihrest =>
    rw [List.forall_mem_cons] at hlines
    obtain ⟨hrest', hothers⟩ := ihrest hlines.2
    obtain ⟨hbody', hcopies⟩ := ihbody (hp target htarget)
    have hsize := hbody.size_le
    rw [size_copyFor] at hsize
    refine ⟨List.forall_mem_cons.2 ⟨hlines.1, hrest'⟩, fun j hj hj' => ?_⟩
    rw [← hbind.instances_eq] at hj
    rcases Nat.lt_or_ge j l₂.program.instances.size with hlt | hge
    · rcases Nat.eq_or_lt_of_le hj with rfl | hcopy
      · rw [inst_copy rfl hbody hrest]
        exact hbody'
      · rw [hrest.inst_eq (by rwa [size_store]), inst_store_ne (by omega)]
        exact hcopies j (by rw [size_copyFor]; omega) hlt
    · exact hothers j (by rwa [size_store]) hj'

/-! ### Intervals -/

/-- The lines call the instances that linking adds. -/
lemma spans (h : Links p id table l lines l' lines') :
    Program.Spans l'.program l.program.instances.size lines' l'.program.instances.size := by
  induction h with
  | nil => exact .nil _
  | plain _ hline hbind _ _ ih =>
    rw [skip, hbind.instances_eq] at ih
    exact .plain (by rwa [here, Line.statement_startingAt, Statement.target?_startingAt]) ih
  | call _ _ _ _ hbind hbody hrest ihbody ihrest =>
    have hsize := hbody.size_le
    rw [size_copyFor] at hsize ihbody
    rw [size_store] at ihrest
    rw [← hbind.instances_eq]
    refine .call rfl ?_ ihrest
    rw [inst_copy rfl hbody hrest]
    refine ihbody.congr fun j hj hj' => ?_
    rw [hrest.inst_eq (by rwa [size_store]), inst_store_ne (by omega)]

/-! ### Addresses -/

lemma toNat_address (h : l.next ≤ 0xFFFF) : l.address.toNat = l.next := by
  rw [address, UInt16.toNat_ofNat', Nat.mod_eq_of_lt (by omega)]

/-- There is memory left behind the lines. -/
lemma next_le (h : Links p id table l lines l' lines') (hnext : l.next ≤ 0xFFFF) :
    l'.next ≤ 0xFFFF := by
  induction h with
  | nil => exact hnext
  | plain _ _ _ hroom _ ih => exact ih hroom
  | call _ _ _ _ hbind _ _ ihbody ihrest =>
    exact ihrest (ihbody (by rwa [next_copyFor, hbind.next_eq]))

/-- The lines of the expansion stand one behind the other. -/
lemma contiguous (h : Links p id table l lines l' lines') (hnext : l.next ≤ 0xFFFF)
    (hlines : ∀ line ∈ lines, line.statement.Regular)
    (hp : ∀ j < p.instances.size, ∀ line ∈ (p.inst j).lines, line.statement.Regular) :
    ∃ e, Program.Expands l'.program lines' e ∧ Contiguous l.next e ∧
      l'.next = l.next + room e := by
  induction h with
  | nil => exact ⟨[], .nil, trivial, rfl⟩
  | @plain id table l l₁ l' line rest rest' _ hline hbind hroom hrest ih =>
    rw [List.forall_mem_cons] at hlines
    have hstart : (l.here line).startingAt l.next = l.here line := by
      rw [here, toNat_address hnext, Line.startingAt_startingAt]
    have hsize : ((l.here line).size l₁.program.symbols table).toNat =
        (l.here line).statement.extent :=
      (hlines.1.startingAt _).size_eq _ _
    rw [hbind.next_eq, hsize] at hroom
    rw [skip, hbind.next_eq, hsize] at ih
    obtain ⟨e, hexp, hcont, hend⟩ := ih hroom hlines.2
    refine ⟨l.here line :: e, .plain ?_ hexp, ⟨hstart, ?_⟩, ?_⟩
    · rwa [here, Line.statement_startingAt, Statement.target?_startingAt]
    · push_cast at hcont
      exact hcont
    · rw [hend, room_cons, Nat.add_assoc]
  | @call id table target l l₁ l₂ l' line name args rest rest' body _ hline _ htarget hbind hbody
      hrest ihbody ihrest =>
    rw [List.forall_mem_cons] at hlines
    have hnext₁ : (l₁.copyFor id line.number target).next = l.next := hbind.next_eq
    obtain ⟨e₁, hexp₁, hcont₁, hend₁⟩ := ihbody (by rwa [hnext₁]) (hp target htarget)
    obtain ⟨e₂, hexp₂, hcont₂, hend₂⟩ :=
      ihrest (hbody.next_le (by rwa [hnext₁])) hlines.2
    rw [hnext₁] at hcont₁ hend₁
    rw [next_store, hend₁] at hcont₂ hend₂
    -- What is linked behind the call leaves the copies of the call alone.
    have hexp : Program.Expands l'.program body e₁ := by
      refine hbody.spans.expands_congr (fun j hj hj' => ?_) hexp₁
      rw [size_copyFor] at hj
      rw [hrest.inst_eq (by rwa [size_store]), inst_store_ne (by omega)]
    refine ⟨_ :: (e₁ ++ e₂), .call rfl ?_ hexp₂, ⟨?_, ?_⟩, ?_⟩
    · rwa [inst_copy rfl hbody hrest]
    · rw [here, toNat_address hnext]
      exact startingAt_bound hline _
    · change Contiguous (l.next + (0 : Nat)) (e₁ ++ e₂)
      rw [Int.natCast_zero, Int.add_zero, contiguous_append]
      push_cast at hcont₂
      exact ⟨hcont₁, hcont₂⟩
    · rw [hend₂, room_cons, room_append]
      change _ = l.next + (0 + (room e₁ + room e₂))
      omega

end Pep10.Linker.Links
