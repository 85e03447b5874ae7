import Pep10.Proofs.Program.Rom

/-!
# The start of the ROM

The start of the ROM is searched for, down and then up, by trial layouts.  A trial layout ends where
the expansion of the lines ends when it is laid out, so that whether a start fits is monotone, and
the search ends at the highest start that fits.

There is one exception: going down stops at zero even if nothing fits there.  Behind a start that
does not fit there is no room for the lines before the `.BURN`, so the program can only be relocated
if these take no room; then the ROM has stood at zero before, and the first guess fits.
-/

namespace Pep10.Program

/-! ### The search -/

section Search

variable {fits : Int → Bool} {limit start guess : Int} {n : Nat}

/-- Going down does not lead up. -/
lemma lowerStart_le (fits : Int → Bool) (n : Nat) (start : Int) :
    lowerStart fits n start ≤ start := by
  induction n generalizing start with
  | zero => exact Int.le_refl start
  | succ n ih =>
    rw [lowerStart]
    split
    · have := ih (start - 1)
      omega
    · exact Int.le_refl start

/-- Going down ends where the start fits, unless it ends at zero or below. -/
lemma lowerStart_fits (fits : Int → Bool) (h : start ≤ n) :
    lowerStart fits n start ≤ 0 ∨ fits (lowerStart fits n start) = true := by
  induction n generalizing start with
  | zero => exact .inl h
  | succ n ih =>
    rw [lowerStart]
    split
    · exact ih (by push_cast at h; omega)
    next hstop =>
      rcases Int.lt_or_le 0 start with hpos | hneg
      · refine .inr ?_
        simpa [hpos] using hstop
      · exact .inl hneg

/-- Going up stays at the start or ends where it fits. -/
lemma raiseStart_fits (fits : Int → Bool) (n : Nat) (start : Int) :
    raiseStart fits n start = start ∨ fits (raiseStart fits n start) = true := by
  induction n generalizing start with
  | zero => exact .inl rfl
  | succ n ih =>
    rw [raiseStart]
    split
    next hfits =>
      rcases ih (start + 1) with heq | hgood
      · refine .inr ?_
        rwa [heq]
      · exact .inr hgood
    · exact .inl rfl

/-- Going up ends below a start that does not fit, if there are steps enough to reach the limit. -/
lemma not_fits_raiseStart_add_one (hlimit : ∀ a, fits a = true → a ≤ limit) (n : Nat)
    (h : limit ≤ start + n) :
    fits (raiseStart fits n start + 1) = false := by
  induction n generalizing start with
  | zero =>
    rw [raiseStart, Bool.eq_false_iff]
    intro hfits
    have := hlimit _ hfits
    simp only [Int.natCast_zero] at h
    omega
  | succ n ih =>
    rw [raiseStart]
    split
    · exact ih (by push_cast at h; omega)
    next hstop => simpa using hstop

/-- If whatever is below a start that fits fits too, and nothing above the limit fits, then the
search ends at the highest start that fits, or it ends at zero or below without having passed its
guess. -/
theorem searchStart_spec (hmono : ∀ a b, a ≤ b → fits b = true → fits a = true)
    (hlimit : ∀ a, fits a = true → a ≤ limit) :
    (∀ t, fits t = true → t ≤ searchStart fits limit guess) ∧
      (fits (searchStart fits limit guess) = true ∨
        searchStart fits limit guess ≤ 0 ∧ searchStart fits limit guess ≤ guess) := by
  obtain ⟨low, hlow⟩ : ∃ low, low = lowerStart fits guess.toNat guess := ⟨_, rfl⟩
  have hsearch : searchStart fits limit guess = raiseStart fits (limit - low).toNat low := by
    rw [hlow]
    rfl
  rw [hsearch]
  refine ⟨fun t ht => ?_, ?_⟩
  · by_contra hlt
    have hnext : fits (raiseStart fits (limit - low).toNat low + 1) = false :=
      not_fits_raiseStart_add_one hlimit _ (by omega)
    rw [hmono _ t (by omega) ht] at hnext
    cases hnext
  · rcases raiseStart_fits fits (limit - low).toNat low with hstay | hfits
    · rw [hstay, hlow]
      rcases lowerStart_fits fits (Int.self_le_toNat guess) with hzero | hfits
      · exact .inr ⟨hzero, lowerStart_le ..⟩
      · exact .inl hfits
    · exact .inl hfits

end Search

variable {p p' q : Program} {lo mid hi table depth next : Nat} {a b start below : Int} {line : Line}
  {lines lines' rest e : List Line} {childEnd : Int → Nat → Int}

/-! ### Trial layouts -/

lemma linesEnd_plain (h : line.statement.target? = none) (hregular : line.statement.Regular) :
    p.linesEnd childEnd table a (line :: rest) =
      p.linesEnd childEnd table (a + (line.statement.startingAt a).extent) rest := by
  unfold linesEnd
  rw [List.foldl_cons]
  congr 1
  split
  next name args target hst =>
    rw [hst] at h
    cases h
  next => rw [(hregular.startingAt a).size_eq]

lemma linesEnd_call {target : Nat} (h : line.statement.target? = some target) :
    p.linesEnd childEnd table a (line :: rest) =
      p.linesEnd childEnd table (childEnd a target) rest := by
  unfold linesEnd
  rw [List.foldl_cons]
  congr 1
  split
  next name args target' hst =>
    rw [hst] at h
    cases h
    rfl
  next hst =>
    cases hline : line.statement with
    | call name args target' => exact absurd hline (hst name args target')
    | _ =>
      rw [hline] at h
      cases h

/-- A trial layout ends where the expansion of the lines ends when it is laid out. -/
lemma Spans.linesEnd_eq (h : Spans p lo lines hi) (hdepth : hi - lo ≤ depth) (he : Expands p lines e)
    (hlines : ∀ line ∈ lines, line.statement.Regular)
    (hinst : ∀ j, lo ≤ j → j < hi → ∀ line ∈ (p.inst j).lines, line.statement.Regular) :
    p.linesEnd (p.instanceEnd depth) table a lines = layoutEnd a e := by
  induction h generalizing depth table a e with
  | nil =>
    cases he
    rfl
  | plain hline _ ih =>
    rw [List.forall_mem_cons] at hlines
    obtain ⟨e₁, rfl, hrest⟩ := he.of_plain hline
    rw [linesEnd_plain hline hlines.1, layoutEnd]
    exact ih hdepth hrest hlines.2 hinst
  | @call lo mid hi line rest hline hbody hrest ihbody ihrest =>
    have h1 := hbody.le
    have h2 := hrest.le
    rw [List.forall_mem_cons] at hlines
    obtain ⟨body, e₁, rfl, hebody, he₁⟩ := he.of_call hline
    obtain ⟨depth, rfl⟩ : ∃ d, depth = d + 1 := ⟨depth - 1, by omega⟩
    have hcalled : p.instanceEnd (depth + 1) a lo = layoutEnd a body :=
      ihbody (by omega) hebody (hinst lo (Nat.le_refl lo) (by omega))
        fun j hj hj' => hinst j (by omega) (by omega)
    have hzero : (line.statement.startingAt a).extent = 0 :=
      Statement.extent_of_target? (by rwa [Statement.target?_startingAt])
    rw [linesEnd_call hline, hcalled, layoutEnd, hzero, Int.natCast_zero, Int.add_zero,
      layoutEnd_append]
    exact ihrest (by omega) he₁ hlines.2 fun j hj hj' => hinst j (by omega) hj'

/-! ### Lines that take no room -/

namespace LaysBefore

/-- Lines that end at a position start there or before it. -/
lemma start_le (h : LaysBefore lo hi table p b lines p' a lines') : a ≤ b := by
  induction h with
  | nil => exact Int.le_refl _
  | plain _ _ _ hend ih => omega
  | call _ _ _ _ hend _ ih => omega

/-- An instance below the interval has the same expansion before and behind a layout. -/
lemma expands_before {id : Nat} (h : LaysBefore mid hi table p b lines p' a lines') (hid : id < mid)
    (hspans : Spans p' (id + 1) (p'.inst id).lines mid) (he : Expands p (p.inst id).lines e) :
    Expands p' (p'.inst id).lines e := by
  have hsame : ∀ j, j < mid → (p.inst j).lines = (p'.inst j).lines :=
    fun j hj => by rw [h.inst_front hj]
  have hbefore := hspans.congr fun j _ hj => hsame j hj
  rw [← hsame id hid] at hbefore ⊢
  exact hbefore.expands_congr (fun j _ hj => (hsame j hj).symm) he

/-- A line that takes no room wherever it has been moved to takes none at zero. -/
lemma extent_eq_zero {line' : Line} (hregular : line.statement.Regular)
    (hstart : line.startingAt 0 = line) (hmoved : MovedTo a line line')
    (hzero : line'.statement.extent = 0) : line.statement.extent = 0 := by
  by_cases halign : ∃ operand padding, line.statement = .align operand padding
  · obtain ⟨operand, padding, hst⟩ := halign
    obtain ⟨n, hn, rfl⟩ : ∃ n, IsAlignment n ∧ operand = .unsigned n := by rwa [hst] at hregular
    have hpadding := toNat_paddingUp (a := 0) hn
    rw [← Line.padding_of_startingAt hstart hst] at hpadding
    rw [hst]
    change padding.toNat = 0
    simpa using hpadding
  · have hshape : line.statement.shape = line'.statement.shape :=
      congrArg Line.statement hmoved.shape_eq.symm
    have hself : ∀ s : Statement, s.shape = line.statement.shape → s.startingAt 0 = s := by
      refine fun s hs => Statement.startingAt_eq_self fun operand padding heq => halign ⟨operand, ?_⟩
      rw [← Statement.shape_eq_align_iff, ← hs, heq]
      rfl
    rw [← hself line.statement rfl, hregular.extent_startingAt_congr hshape, hself _ hshape.symm, hzero]

/-- Lines that are laid out without room, and that stood one behind the other from zero on before,
took no room there. -/
lemma room_eq_zero (h : LaysBefore lo hi table p b lines p' a lines') (hab : b ≤ a)
    (hsize : hi ≤ p.instances.size) (he : Expands p lines e) (hcont : Contiguous 0 e)
    (hregular : ∀ line ∈ e, line.statement.Regular) : room e = 0 := by
  induction h generalizing e with
  | nil =>
    cases he
    rfl
  | @plain lo hi table p p₁ a b b₁ line line' rest rest' hline hrest hmoved hend ih =>
    have hle := hrest.start_le
    obtain ⟨e₁, rfl, he₁⟩ := he.of_plain hline
    rw [List.forall_mem_cons] at hregular
    have hzero : line.statement.extent = 0 :=
      extent_eq_zero hregular.1 hcont.1 hmoved (by omega)
    have hcont₁ : Contiguous 0 e₁ := by simpa [hzero] using hcont.2
    rw [room_cons, hzero, ih (by omega) hsize he₁ hcont₁ hregular.2]
  | @call lo mid hi table p p₁ p₂ a a₁ b b₁ line line' rest rest' body hline hlt hrest hmoved hend hbody
      ih =>
    have hle := hrest.start_le
    have h1 := hbody.le
    have h2 := hrest.le
    obtain ⟨called, e₁, rfl, hecalled, he₁⟩ := he.of_call hline
    rw [List.forall_mem_cons, List.forall_mem_append] at hregular
    have hcalled : room called = 0 := by
      -- The room that the instance is given is that of its expansion before anything was laid out.
      have hspans := hbody.spans_called
      have hexp : Expands p₁ (p₁.inst lo).lines called :=
        hrest.expands_before (by omega) hspans hecalled
      have hcount := hspans.byteCount_eq (by rw [hrest.reshaped.size_eq]; omega) hexp hregular.2.1
      omega
    have hzero : line.statement.extent = 0 := Statement.extent_of_target? hline
    have hcont₁ : Contiguous 0 e₁ := by
      have := (contiguous_append.1 hcont.2).2
      simpa [hzero, hcalled] using this
    rw [room_cons, hzero, room_append, hcalled, ih (by omega) hsize he₁ hcont₁ hregular.2.2]

end LaysBefore

/-! ### The highest start -/

/-- All lines of the root and of the instances from `lo` on have sizes that do not depend on the
symbols. -/
def RegularFrom (p : Program) (lo : Nat) : Prop :=
  ∀ j, j = root ∨ (lo ≤ j ∧ j < p.instances.size) → ∀ line ∈ (p.inst j).lines, line.statement.Regular

/-- Behind the first pass, the ROM stands where the lines before the `.BURN` end, which is the
address of the `.BURN`. -/
lemma FirstPass.rom_placed {p₀ : Program} {ram rom : List Line} {otherwise : UInt16}
    (h : FirstPass p₀ p next) (hcount : (Burn.ofLines (p.inst root).lines).count = 1)
    (haddress : (p.inst root).burn.address = Linker.burnAddress (p.inst root).lines otherwise)
    (hram : Expands p (ramOf (p.inst root).lines) ram)
    (hrom : Expands p (romOf (p.inst root).lines) rom) :
    Contiguous 0 ram ∧ (p.inst root).burn.address.toNat = room ram ∧ Contiguous (room ram) rom ∧
      next = room ram + room rom := by
  obtain ⟨e, he, hcont, hnext⟩ := h.placed
  have hmax := h.next_le
  have hsplit : e = ram ++ rom := by
    refine he.unique ?_
    have := hram.append hrom
    rwa [ramOf_append_romOf] at this
  rw [hsplit, room_append] at hnext
  rw [hsplit, contiguous_append, Int.zero_add] at hcont
  obtain ⟨line, rest, operand, hlines, hst, hrest, -⟩ := exists_burn_of_count hcount
  have hburn : line.statement.isBurn = true := by rw [hst]; rfl
  rw [hlines] at hrom
  obtain ⟨e₁, rfl, -⟩ := hrom.of_plain (by rw [hst]; rfl)
  have hline : line.address = some (UInt16.ofInt (room ram)) := by
    rw [Line.address_of_startingAt hcont.2.1, if_pos]
    rw [hst]
    simp only [inMemory, Bool.and_eq_true, decide_eq_true_eq]
    exact ⟨rfl, by omega, by omega⟩
  refine ⟨hcont.1, ?_, hcont.2, hnext⟩
  rw [haddress, burnAddress_eq hlines hburn hrest hline]
  have := toNat_ofInt (a := (room ram : Int)) (by omega) (by omega)
  exact_mod_cast this

/-- The ROM of a program that is relocated starts at the highest position from which it fits, and
that is not below zero. -/
theorem Relocates.start_highest {p₀ : Program} {rom : List Line} {otherwise : UInt16}
    (h : Relocates p q p₀.instances.size (p.romStart next) below) (hpass : FirstPass p₀ p next)
    (hcount : (Burn.ofLines (p.inst root).lines).count = 1)
    (haddress : (p.inst root).burn.address = Linker.burnAddress (p.inst root).lines otherwise)
    (hregular : p.RegularFrom p₀.instances.size)
    (hrom : Expands p (romOf (p.inst root).lines) rom) :
    0 ≤ p.romStart next ∧ layoutEnd (p.romStart next) rom ≤ p.romLimit ∧
      ∀ t, layoutEnd t rom ≤ p.romLimit → t ≤ p.romStart next := by
  obtain ⟨mid, p₁, p₂, a₁, ram', rom', hlays, hbefore, -⟩ := h.layout
  have hspans := hlays.spans_before
  have hspansRam := hbefore.spans_before
  have hmid := hspans.le
  have hlo := hspansRam.le
  have hlines : ∀ line ∈ romOf (p.inst root).lines, line.statement.Regular := fun line hline =>
    hregular root (.inl rfl) line (List.dropWhile_sublist _ |>.subset hline)
  have hinst : ∀ j, mid ≤ j → j < p.instances.size → ∀ line ∈ (p.inst j).lines,
      line.statement.Regular := fun j hj hj' => hregular j (.inr ⟨by omega, hj'⟩)
  have hfits : ∀ t, p.romFits t = true ↔ layoutEnd t rom ≤ p.romLimit := by
    intro t
    rw [romFits, decide_eq_true_iff, hspans.linesEnd_eq (by omega) hrom hlines hinst]
  obtain ⟨hmax, hend⟩ : (∀ t, p.romFits t = true → t ≤ p.romStart next) ∧
      (p.romFits (p.romStart next) = true ∨ p.romStart next ≤ 0 ∧
        p.romStart next ≤ p.romLimit - (next - (p.inst root).burn.address.toNat)) := by
    refine searchStart_spec (fun a b hab hb => ?_) fun a ha => ?_
    · have hmono := layoutEnd_mono (hspans.forall_mem_expansion hrom hlines hinst) hab
      exact (hfits a).2 (Int.le_trans hmono ((hfits b).1 hb))
    · exact Int.le_trans le_layoutEnd ((hfits a).1 ha)
  have hbelow := h.below_nonneg
  have hle := hbefore.start_le
  refine ⟨by omega, ?_, fun t ht => hmax t ((hfits t).2 ht)⟩
  rcases hend with hgood | ⟨hzero, hguess⟩
  · exact (hfits _).1 hgood
  · -- The start is zero, so that the lines before the `.BURN` take no room.
    have hstart : p.romStart next = 0 := by omega
    obtain ⟨ram, hram₁⟩ := hspansRam.exists_expands
    have hsame : ∀ j, p₀.instances.size ≤ j → j < mid → (p.inst j).lines = (p₁.inst j).lines :=
      fun j _ hj => by rw [hlays.reshaped.inst_eq j (.inl hj)]
    have hram : Expands p (ramOf (p.inst root).lines) ram := hspansRam.expands_congr hsame hram₁
    obtain ⟨hcontRam, haddr, hcontRom, hnext⟩ := hpass.rom_placed hcount haddress hram hrom
    have hregularRam : ∀ line ∈ ram, line.statement.Regular := by
      refine (hspansRam.congr hsame).forall_mem_expansion hram (fun line hline => ?_) fun j hj hj' => ?_
      · exact hregular root (.inl rfl) line (List.takeWhile_sublist _ |>.subset hline)
      · exact hregular j (.inr ⟨hj, by omega⟩)
    have hroom : room ram = 0 := hbefore.room_eq_zero (by omega)
      (by rw [hlays.reshaped.size_eq]; omega) hram₁ hcontRam hregularRam
    rw [hroom] at haddr hcontRom hnext
    rw [hstart, show (0 : Int) = (0 : Nat) from rfl, hcontRom.layoutEnd_eq]
    omega

end Pep10.Program
