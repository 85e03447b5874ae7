import Pep10.Proofs.Program.Relayout

/-!
# Relocating an operating system again

Relocation moves lines and labels, and that is all that it leaves behind (`Relocates.remains`).
When the program is linked again, the first pass takes the lines back to where they were, and they
are relocated as they have been the first time (`Relocates.again`): the search for the start of the
ROM looks at the same layouts, and the layouts are made in step.
-/

namespace Pep10.Program

open SymbolStore (AgreeOn)
open Linker (Leftover)

variable {p q p' p₁ : Program} {lo hi table table' c d next t : Nat} {a a' b start below : Int} {emits : Bool}
  {line line' : Line} {lines lines' : List Line} {R : Line → Line → Prop} {kind : ModuleKind}
  {exported : List ExportedSymbol}

/-! ### What relocation leaves -/

lemma names_moveLabel (t : Nat) :
    ((p.moveLabel table line a).symbols.table t).names = (p.symbols.table t).names := by
  unfold moveLabel
  split
  · rfl
  · split
    · rfl
    · exact SymbolStore.names_modify (fun _ => SymbolTable.names_assign _) t

lemma size_symbols_moveLabel : (p.moveLabel table line a).symbols.size = p.symbols.size := by
  unfold moveLabel
  split
  · rfl
  · split
    · rfl
    · exact SymbolStore.size_modify

lemma Lays.size_symbols (h : Lays emits lo hi table p a lines p₁ a' lines') :
    p₁.symbols.size = p.symbols.size := by
  induction h with
  | nil => rfl
  | plain _ _ ih => rw [ih, size_symbols_moveLabel]
  | call _ _ _ _ ihbody ihrest =>
    rw [ihrest, setLines, symbols_modifyInstance, ihbody, size_symbols_moveLabel]

lemma LaysBefore.size_symbols (h : LaysBefore lo hi table p b lines p₁ a lines') :
    p₁.symbols.size = p.symbols.size := by
  induction h with
  | nil => rfl
  | plain _ _ _ _ ih => rw [size_symbols_moveLabel, ih]
  | call _ _ _ _ _ hbody ih =>
    rw [setLines, symbols_modifyInstance, hbody.size_symbols, size_symbols_moveLabel, ih]

/-- Relocation keeps the root in its place. -/
lemma Relocates.rooted (h : Relocates p q lo start below) (hp : p.Rooted kind) : q.Rooted kind := by
  obtain ⟨_, _, _, _, _, _, hlays, hbefore, -, -, -, hsymbols, hmodules⟩ := h.layout
  refine ⟨by rw [h.size_eq]; exact hp.root_lt, (h.shapes root).2.trans hp.root_table, ?_, ?_⟩
  · rw [hsymbols, hbefore.size_symbols, hlays.size_symbols]
    exact hp.table_lt
  · rw [Program.module, hmodules, hbefore.reshaped.modules_eq, hlays.reshaped.modules_eq]
    exact hp.root_kind

lemma Lays.names_eq (h : Lays emits lo hi table p a lines p₁ a' lines') (t : Nat) :
    (p₁.symbols.table t).names = (p.symbols.table t).names := by
  induction h with
  | nil => rfl
  | plain _ _ ih => rw [ih, names_moveLabel]
  | call _ _ _ _ ihbody ihrest =>
    rw [ihrest, setLines, symbols_modifyInstance, ihbody, names_moveLabel]

lemma LaysBefore.names_eq (h : LaysBefore lo hi table p b lines p₁ a lines') (t : Nat) :
    (p₁.symbols.table t).names = (p.symbols.table t).names := by
  induction h with
  | nil => rfl
  | plain _ _ _ _ ih => rw [names_moveLabel, ih]
  | call _ _ _ _ _ hbody ih =>
    rw [setLines, symbols_modifyInstance, hbody.names_eq, names_moveLabel, ih]

lemma Relocates.names_eq (h : Relocates p q lo start below) (t : Nat) :
    (q.symbols.table t).names = (p.symbols.table t).names := by
  obtain ⟨mid, p₁, p₂, a₁, ram', rom', hlays, hbefore, -, -, -, hsymbols, -⟩ := h.layout
  rw [hsymbols, hbefore.names_eq, hlays.names_eq]

/-- Lines of the same shapes that call the same instances are the same up to their places. -/
lemma forall₂_movedBy (hshapes : lines'.map Line.shape = lines.map Line.shape)
    (htargets : targetsOf lines' = targetsOf lines) : List.Forall₂ (Line.MovedBy 0) lines lines' := by
  induction lines generalizing lines' with
  | nil =>
    obtain rfl : lines' = [] := by simpa using hshapes
    exact .nil
  | cons line rest ih =>
    cases lines' with
    | nil => cases hshapes
    | cons line' rest' =>
      rw [List.map_cons, List.map_cons, List.cons.injEq] at hshapes
      have hst : line'.statement.shape = line.statement.shape := congrArg Line.statement hshapes.1
      have hsome : line'.statement.target?.isSome = line.statement.target?.isSome := by
        have hshape : ∀ s : Statement, s.shape.target?.isSome = s.target?.isSome := by
          intro s
          cases s <;> rfl
        rw [← hshape, hst, hshape]
      rw [targetsOf, targetsOf, List.filterMap_cons, List.filterMap_cons] at htargets
      cases ht : line.statement.target? with
      | none =>
        rw [ht, Option.isSome_none, Option.isSome_eq_false_iff, Option.isNone_iff_eq_none] at hsome
        rw [ht, hsome] at htargets
        exact .cons ⟨hshapes.1, by rw [ht, hsome]; rfl⟩ (ih hshapes.2 htargets)
      | some target =>
        obtain ⟨target', ht'⟩ := Option.isSome_iff_exists.1 (hsome.trans (by rw [ht]; rfl))
        rw [ht, ht'] at htargets
        obtain ⟨rfl, hrest⟩ := List.cons.inj htargets
        exact .cons ⟨hshapes.1, by rw [ht, ht']; rfl⟩ (ih hshapes.2 hrest)

/-- A program remains what it is. -/
lemma Resolved.remains (h : Resolved p lo exported) : Remains exported lo 0 p p where
  root_lines := forall₂_movedBy rfl rfl
  root_symbols name _ := .refl _ _ _
  names_eq := rfl
  copies j hlo hhi := by
    obtain ⟨hne, hlt⟩ := h.table_lt j hlo hhi
    refine ⟨hhi, hlt, ?_, forall₂_movedBy rfl rfl, fun name => .refl _ _ _⟩
    rw [h.root_table]
    exact Nat.ne_of_gt hne

/-- Labels that have moved are alike up to the values that lines assign. -/
lemma alikeAt_of_relabeled {own : Nat → Line → Prop} {s s' : SymbolStore}
    (h : SymbolStore.Relabeled own s s') (hshapes : lines'.map Line.shape = lines.map Line.shape)
    (hown : ∀ line, own t line → line ∈ lines') (name : String) :
    (s.table t).AlikeAt (Unbound lines) name (s'.table t) := by
  refine .intro (fun hnone => ?_) fun x hx => ?_
  · cases hy : (s'.table t).find? name with
    | none => rfl
    | some y =>
      obtain ⟨x, hx, -⟩ := h.symbol_before hy
      rw [hnone] at hx
      cases hx
  · obtain ⟨v, hy, hv⟩ := h.symbol t name x hx
    refine ⟨_, hy, rfl, ?_⟩
    rcases hv with ⟨rfl, -⟩ | ⟨w, line, -, hline, hlabel, -⟩
    · exact .inl rfl
    · refine .inr (unbound_of_shapes hshapes.symm (.inl (List.mem_flatMap.2 ⟨line, hown line hline, ?_⟩)))
      rw [hlabel, SymbolTable.name_of_find? hx]
      exact Option.mem_toList.2 rfl

/-- Relocation leaves the program as it was up to the places of lines and the values of their
labels. -/
theorem Relocates.remains (h : Relocates p q lo start below) (hlo : root < lo) (hp : Resolved p lo [])
    (hcalls : SameCalls p q) : Remains [] lo 0 p q := by
  have hrelabeled := h.relabeled hlo (by rw [hp.root_table]; exact hp.root_lt)
    fun j hj hj' => (hp.table_lt j hj hj').2
  rw [hp.root_table] at hrelabeled
  have hlines : ∀ j, List.Forall₂ (Line.MovedBy 0) (p.inst j).lines (q.inst j).lines :=
    fun j => forall₂_movedBy (h.shapes j).1 (hcalls.callsOf_eq j)
  refine ⟨hlines root, fun name _ => ?_, h.names_eq root, fun j hj hj' => ?_⟩
  · refine alikeAt_of_relabeled hrelabeled (h.shapes root).1 (fun line hline => ?_) name
    rcases hline with ⟨-, hline⟩ | ⟨j, hj, hj', heq, -⟩
    · exact hline
    · rw [(h.shapes j).2] at heq
      rw [h.size_eq] at hj'
      exact absurd heq (Nat.ne_of_lt (hp.table_lt j hj hj').1)
  · obtain ⟨hne, hlt⟩ := hp.table_lt j hj hj'
    have htable := (h.shapes j).2
    refine ⟨by rwa [h.size_eq], ?_, ?_, hlines j, fun name => ?_⟩
    · rwa [Nat.add_zero, htable, hrelabeled.size_eq]
    · rw [Nat.add_zero, htable, rootTable, (h.shapes root).2]
      have hroot : (p.inst root).table = root := hp.root_table
      rw [hroot]
      exact Nat.ne_of_gt hne
    · rw [Nat.add_zero, htable]
      refine alikeAt_of_relabeled hrelabeled (h.shapes j).1 (fun line hline => ?_) name
      rcases hline with ⟨heq, -⟩ | ⟨j', hlo', hhi', heq, hline⟩
      · exact absurd heq (Nat.ne_of_gt hne)
      · rw [(h.shapes j').2] at heq
        rw [h.size_eq] at hhi'
        rwa [hp.table_inj j j' hj hj' hlo' hhi' heq]

/-- Lines that have been moved, and then retargeted, have been moved with their calls. -/
lemma forall₂_movedBy_of_retargets {l₁ l₂ l₃ : List Line} (h₁ : List.Forall₂ (Line.MovedBy 0) l₁ l₂)
    (h₂ : List.Forall₂ (Line.Retargets c) l₂ l₃) : List.Forall₂ (Line.MovedBy c) l₁ l₃ := by
  induction h₁ generalizing l₃ with
  | nil =>
    cases h₂
    exact .nil
  | cons hline _ ih =>
    obtain _ | ⟨hline', h₂⟩ := h₂
    have hmoved := hline'.echoes.movedBy
    exact .cons ⟨hmoved.shape_eq.trans hline.shape_eq, by rw [hmoved.target_eq, hline.target_eq]; simp⟩ (ih h₂)

/-- What is left of a program is left of it in a program that mirrors what it has become. -/
lemma Remains.mirrored (h : Remains exported lo 0 p q) (hsize : q.instances.size = p.instances.size)
    (hm : Mirrors (Line.Retargets c) exported lo c q p') (hroot : p'.rootTable = root) :
    Remains exported lo c p p' := by
  refine ⟨forall₂_movedBy_of_retargets h.root_lines hm.root_lines, fun name hname => ?_,
    hm.names_eq.trans h.names_eq, fun j hlo hhi => ?_⟩
  · exact (h.root_symbols name hname).trans (.of_find?_eq (hm.root_symbols name hname))
  · have hleft := h.copies j hlo hhi
    rw [← hsize] at hhi
    obtain ⟨hne, hlt⟩ := hm.table_lt j hlo hhi
    refine ⟨by rw [hm.size_eq]; omega, hlt, ?_,
      forall₂_movedBy_of_retargets hleft.lines (hm.lines j hlo hhi), fun name => ?_⟩
    · rw [hroot]
      exact Nat.ne_of_gt hne
    · exact (hleft.symbols name).trans (.of_find?_eq (hm.symbols j hlo hhi name))

/-! ### RAM and ROM -/

/-- Lines that stand at the same places are divided into RAM and ROM at the same place. -/
lemma forall₂_ramOf_romOf (hR : ∀ line line', R line line' → line'.statement.isBurn = line.statement.isBurn)
    (h : List.Forall₂ R lines lines') :
    List.Forall₂ R (ramOf lines) (ramOf lines') ∧ List.Forall₂ R (romOf lines) (romOf lines') := by
  induction h with
  | nil => exact ⟨.nil, .nil⟩
  | @cons line line' rest rest' hline hrest ih =>
    have hburn := hR _ _ hline
    simp only [ramOf, romOf, List.takeWhile_cons, List.dropWhile_cons, hburn] at ih ⊢
    cases line.statement.isBurn with
    | true => exact ⟨.nil, .cons hline hrest⟩
    | false => exact ⟨.cons hline ih.1, ih.2⟩

section Again

variable (hlo : root < lo) (hp : Resolved p lo []) (hregular : RegularFrom p lo)
  (hspans : Spans p lo (p.inst root).lines p.instances.size)
  (hmirrors : Mirrors (Line.Echoes d) [] lo d p p')
  (hspans' : Spans p' (lo + d) (p'.inst root).lines p'.instances.size)
  (hburn : (p'.inst root).burn = { (p.inst root).burn with startRom := (p'.inst root).burn.startRom })

include hmirrors in
/-- The lines of RAM and ROM stand at the same places. -/
lemma Mirrors.ram_rom :
    List.Forall₂ (Line.Echoes d) (ramOf (p.inst root).lines) (ramOf (p'.inst root).lines) ∧
      List.Forall₂ (Line.Echoes d) (romOf (p.inst root).lines) (romOf (p'.inst root).lines) :=
  forall₂_ramOf_romOf (fun _ _ hline => hline.movedBy.isBurn_eq) hmirrors.root_lines

include hmirrors hregular in
/-- Programs that mirror each other have lines whose sizes do not depend on the symbols. -/
lemma Mirrors.regularFrom : RegularFrom p' (lo + d) := by
  rintro j (rfl | ⟨hj, hj'⟩) line hline
  · exact regular_of_shapes (hregular root (.inl rfl))
      (map_shape_of_movedBy (hmirrors.root_lines.imp fun _ _ h => h.movedBy)) line hline
  · obtain ⟨j, rfl⟩ : ∃ k, j = k + d := ⟨j - d, by omega⟩
    rw [hmirrors.size_eq] at hj'
    exact regular_of_shapes (hregular j (.inr ⟨by omega, by omega⟩))
      (map_shape_of_movedBy ((hmirrors.lines j (by omega) (by omega)).imp fun _ _ h => h.movedBy)) line hline

include hregular hspans hmirrors hspans' hburn in
/-- The search for the start of the ROM comes to the same. -/
lemma Mirrors.romStart_eq (next : Nat) : p'.romStart next = p.romStart next := by
  have hregular' := Mirrors.regularFrom hregular hmirrors
  obtain ⟨-, hrom⟩ := Mirrors.ram_rom hmirrors
  have hlimit : p'.romLimit = p.romLimit := by rw [romLimit, hburn]; rfl
  have hfits : p'.romFits = p.romFits := by
    funext start
    rw [← ramOf_append_romOf (p.inst root).lines] at hspans
    rw [← ramOf_append_romOf (p'.inst root).lines] at hspans'
    obtain ⟨mid, hram, hromSpans⟩ := hspans.exists_of_append
    obtain ⟨mid', hram', hromSpans'⟩ := hspans'.exists_of_append
    have h1 := hram.le
    have h2 := hram'.le
    obtain ⟨e, he⟩ := hromSpans.exists_expands
    obtain ⟨e', he', hechoes⟩ := hromSpans.echoes_expansion hrom
      (fun j hj hj' => hmirrors.lines j (by omega) hj') he
    have hlines : ∀ line ∈ romOf (p.inst root).lines, line.statement.Regular := fun line hline =>
      hregular root (.inl rfl) line (by
        rw [← ramOf_append_romOf (p.inst root).lines]
        exact List.mem_append_right _ hline)
    have hlines' : ∀ line ∈ romOf (p'.inst root).lines, line.statement.Regular := fun line hline =>
      hregular' root (.inl rfl) line (by
        rw [← ramOf_append_romOf (p'.inst root).lines]
        exact List.mem_append_right _ hline)
    have hinst : ∀ j, mid ≤ j → j < p.instances.size → ∀ line ∈ (p.inst j).lines, line.statement.Regular :=
      fun j hj hj' => hregular j (.inr ⟨by omega, hj'⟩)
    have hends : layoutEnd start e' = layoutEnd start e :=
      layoutEnd_congr (hromSpans'.forall_mem_expansion he' hlines' fun j hj hj' =>
        hregular' j (.inr ⟨by omega, hj'⟩)) (map_shape_of_movedBy (hechoes.imp fun _ _ h => h.movedBy))
    rw [romFits, romFits, hlimit,
      hromSpans.linesEnd_eq (by omega) he hlines hinst,
      hromSpans'.linesEnd_eq (by omega) he' hlines' (fun j hj hj' => hregular' j (.inr ⟨by omega, hj'⟩)), hends]
  rw [romStart, romStart, hfits, hlimit, hburn]

/-- The tables of the instances that mirror each other. -/
def TablePairs (p p' : Program) (lo d t t' : Nat) : Prop :=
  (t = root ∧ t' = root) ∨
    ∃ j, lo ≤ j ∧ j < p.instances.size ∧ t = (p.inst j).table ∧ t' = (p'.inst (j + d)).table

include hp hmirrors in
/-- Programs that mirror each other and import nothing have the same symbols. -/
lemma Mirrors.agreeOn (hroot' : p'.Rooted kind) :
    AgreeOn (TablePairs p p' lo d) p.symbols p'.symbols := by
  refine ⟨?_, ?_, ?_⟩
  · rintro t t' u u' (⟨rfl, rfl⟩ | ⟨j, hj, hj', rfl, rfl⟩) (⟨rfl, rfl⟩ | ⟨k, hk, hk', rfl, rfl⟩)
    · exact Iff.rfl
    · have := (hp.table_lt k hk hk').1
      have := (hmirrors.table_lt k hk hk').1
      omega
    · have := (hp.table_lt j hj hj').1
      have := (hmirrors.table_lt j hj hj').1
      omega
    · refine ⟨fun heq => ?_, fun heq => ?_⟩
      · rw [hp.table_inj k j hk hk' hj hj' heq]
      · rw [hmirrors.table_inj k j hk hk' hj hj' heq]
  · rintro t t' (⟨rfl, rfl⟩ | ⟨j, hj, hj', rfl, rfl⟩)
    · exact ⟨hp.root_lt, hroot'.table_lt⟩
    · exact ⟨(hp.table_lt j hj hj').2, (hmirrors.table_lt j hj hj').2⟩
  · rintro t t' (⟨rfl, rfl⟩ | ⟨j, hj, hj', rfl, rfl⟩) name
    · exact hmirrors.root_symbols name rfl
    · exact hmirrors.symbols j hj hj' name

include hp hregular hmirrors in
/-- The two layouts of relocation are made in step. -/
lemma Mirrors.layouts (hroot' : p'.Rooted kind) {mid mid' : Nat} {p₁ p₂ q₁ q₂ : Program} {a₁ a₁' below' : Int}
    {ram rom ram' rom' : List Line}
    (hlays : Lays true mid p.instances.size p.rootTable p start (romOf (p.inst root).lines) p₁ a₁ rom)
    (hbefore : LaysBefore lo mid p.rootTable p₁ start (ramOf (p.inst root).lines) p₂ below ram)
    (hlays' : Lays true mid' p'.instances.size p'.rootTable p' start (romOf (p'.inst root).lines) q₁ a₁' rom')
    (hbefore' : LaysBefore (lo + d) mid' p'.rootTable q₁ start (ramOf (p'.inst root).lines) q₂ below' ram') :
    below' = below ∧ List.Forall₂ (Line.Retargets d) (ram ++ rom) (ram' ++ rom') ∧
      Paired (Line.Retargets d) (TablePairs p p' lo d) lo p.instances.size d p₂ q₂ ∧
      AgreeOn (TablePairs p p' lo d) p₂.symbols q₂.symbols := by
  have h1 := hlays.le
  have h2 := hbefore.le
  have h3 := hlays'.le
  have h4 := hbefore'.le
  obtain ⟨hram, hrom⟩ := Mirrors.ram_rom hmirrors
  have hinst : ∀ j, j < mid → p₁.inst j = p.inst j := fun j hj => hlays.reshaped.inst_eq j (.inl hj)
  have hinst' : ∀ j, j < mid' → q₁.inst j = p'.inst j := fun j hj => hlays'.reshaped.inst_eq j (.inl hj)
  have hpaired : Paired (Line.Echoes d) (TablePairs p p' lo d) lo p.instances.size d p p' :=
    fun j hj hj' => ⟨hmirrors.lines j hj hj', .inr ⟨j, hj, hj', rfl, rfl⟩⟩
  have hmid : mid' = mid + d := by
    have hspans₁ : Spans p lo (ramOf (p.inst root).lines) mid :=
      hbefore.spans_before.congr fun j _ hj => by rw [hinst j hj]
    have hspans₁' : Spans p' (lo + d) (ramOf (p'.inst root).lines) mid' :=
      hbefore'.spans_before.congr fun j _ hj => by rw [hinst' j hj]
    exact hspans₁.end_eq hspans₁' rfl (hram.imp fun _ _ h => h.movedBy) fun j hj hj' =>
      (hmirrors.lines j hj (by omega)).imp fun _ _ h => h.movedBy
  subst hmid
  have htable : TablePairs p p' lo d p.rootTable p'.rootTable := .inl ⟨hp.root_table, hroot'.root_table⟩
  have hlines : ∀ line, line ∈ ramOf (p.inst root).lines ∨ line ∈ romOf (p.inst root).lines →
      line.statement.Regular := by
    intro line hline
    refine hregular root (.inl rfl) line ?_
    rw [← ramOf_append_romOf (p.inst root).lines, List.mem_append]
    exact hline
  obtain ⟨-, -, hroms, hpaired₁, hagree₁⟩ := hlays.mirrors hlays' rfl (hrom.imp fun _ _ h => h.movedBy)
    (fun line hline => hlines line (.inr hline))
    ((hpaired.mono h2 (Nat.le_refl _)).imp fun _ _ h => h.movedBy)
    (fun j hj hj' => hregular j (.inr ⟨by omega, hj'⟩)) htable (Mirrors.agreeOn hp hmirrors hroot')
  obtain ⟨-, hbelow, hrams, hpaired₂, hagree₂⟩ := hbefore.mirrors hbefore' rfl
    (by rw [hlays.reshaped.size_eq]; omega) (by rw [hlays'.reshaped.size_eq]; omega)
    (hram.imp fun _ _ h => h.movedBy) (fun line hline => hlines line (.inl hline))
    ((hpaired.mono (Nat.le_refl lo) h1).congr (fun j _ hj => hinst j hj) fun j _ hj => hinst' (j + d) (by omega))
    (fun j hj hj' => by rw [hinst j hj']; exact hregular j (.inr ⟨hj, by omega⟩)) htable hagree₁
  refine ⟨hbelow, List.rel_append hrams hroms, fun j hj hj' => ?_, hagree₂⟩
  rcases Nat.lt_or_ge j mid with hm | hm
  · exact hpaired₂ j hj hm
  · rw [hbefore.reshaped.inst_eq j (.inr hm), hbefore'.reshaped.inst_eq (j + d) (.inr (by omega))]
    exact hpaired₁ j hm hj'

include hlo hp hregular hmirrors hburn in
/-- Relocating programs that mirror each other comes to the same if their ROMs start at the same
position. -/
lemma Relocates.mirrors {q' : Program} {below' : Int} (h : Relocates p q lo start below)
    (h' : Relocates p' q' (lo + d) start below') (hroot' : p'.Rooted kind) :
    Mirrors (Line.Retargets d) [] lo d q q' ∧ (q'.inst root).burn = (q.inst root).burn := by
  obtain ⟨mid, p₁, p₂, a₁, ram, rom, hlays, hbefore, hothers, hroot, -, hsymbols, -⟩ := h.layout
  obtain ⟨mid', q₁, q₂, a₁', ram', rom', hlays', hbefore', hothers', hroot₁, -, hsymbols', -⟩ := h'.layout
  obtain ⟨-, hlines, hpaired, hagree⟩ := Mirrors.layouts hp hregular hmirrors hroot' hlays hbefore hlays' hbefore'
  have htables : ∀ j, (q'.inst (j + d)).table = (p'.inst (j + d)).table := fun j => (h'.shapes (j + d)).2
  have hinst : ∀ j, lo ≤ j → q.inst j = p₂.inst j := fun j hj => hothers j (by omega)
  have hinst' : ∀ j, lo ≤ j → q'.inst (j + d) = q₂.inst (j + d) := fun j hj => hothers' (j + d) (by omega)
  have hlt : ∀ j, j < q.instances.size → j < p.instances.size := fun j hj => by rwa [← h.size_eq]
  refine ⟨⟨by rw [h'.size_eq, hmirrors.size_eq, h.size_eq], ?_, fun name _ => ?_,
    fun name v x hv => absurd hv (by simp [exportedValue?]), ?_, fun j hj hj' => ?_, fun j hj hj' name => ?_,
    fun j hj hj' => ?_, fun j j' hj hj' hk hk' => ?_⟩, ?_⟩
  · rw [hroot, hroot₁]
    exact hlines
  · rw [hsymbols, hsymbols']
    exact hagree.find?_eq (.inl ⟨rfl, rfl⟩) name
  · rw [h'.names_eq, h.names_eq, hmirrors.names_eq]
  · rw [hinst j hj, hinst' j hj]
    exact (hpaired j hj (hlt j hj')).1
  · rw [hinst j hj, hinst' j hj, hsymbols, hsymbols']
    exact hagree.find?_eq (hpaired j hj (hlt j hj')).2 name
  · refine ⟨by rw [htables j]; exact (hmirrors.table_lt j hj (hlt j hj')).1, ?_⟩
    rw [hinst' j hj, hsymbols']
    exact (hagree.lt (hpaired j hj (hlt j hj')).2).2
  · rw [htables j, htables j']
    exact hmirrors.table_inj j j' hj (hlt j hj') hk (hlt j' hk')
  · rw [hroot₁, hroot, hburn]

include hlo hp hregular hspans hmirrors hspans' hburn in
/-- What has been relocated is relocated again, and that comes to the same. -/
theorem Relocates.again (h : Relocates p q lo (p.romStart next) below) (hroot' : p'.Rooted kind)
    (hrom : romOf (p.inst root).lines ≠ []) :
    ∃ q', p'.relocate next = (q', []) ∧ Mirrors (Line.Retargets d) [] lo d q q' ∧ q'.Rooted kind ∧
      (q'.inst root).burn = (q.inst root).burn := by
  have hregular' := Mirrors.regularFrom hregular hmirrors
  have hstart := Mirrors.romStart_eq hregular hspans hmirrors hspans' hburn next
  obtain ⟨mid, p₁, p₂, a₁, ram, rom, hlays, hbefore, -⟩ := h.layout
  obtain ⟨mid', q₁, a₁', rom', q₂, below', ram', hlay, hlays', hall, hbefore'⟩ :=
    exists_layouts (p'.romStart next) hspans' (hregular' root (.inl rfl))
      fun j hj hj' => hregular' j (.inr ⟨hj, hj'⟩)
  -- Memory suffices for the layouts as it did the first time.
  obtain ⟨rfl, -⟩ := Mirrors.layouts hp hregular hmirrors hroot' hlays hbefore (by rwa [hstart] at hlays')
    (by rwa [hstart] at hbefore')
  obtain ⟨burnLine, rest, hcons⟩ : ∃ burnLine rest, romOf (p'.inst root).lines = burnLine :: rest := by
    refine List.exists_cons_of_ne_nil fun hnil => hrom ?_
    have hrel := (Mirrors.ram_rom hmirrors).2
    rwa [hnil, List.forall₂_nil_right_iff] at hrel
  obtain ⟨q', hq', h'⟩ := exists_relocates (by omega) hcons hlay hlays' hall hbefore' h.below_nonneg
  rw [hstart] at h'
  obtain ⟨hmirrors', hburn'⟩ := h.mirrors hlo hp hregular hmirrors hburn h' hroot'
  exact ⟨q', hq', hmirrors', h'.rooted hroot', hburn'⟩

end Again

end Pep10.Program
