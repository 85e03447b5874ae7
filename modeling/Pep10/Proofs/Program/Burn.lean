import Mathlib.Data.List.TakeWhile
import Mathlib.Tactic.Common
import Pep10.Proofs.Line.Layout
import Pep10.Program.Assembly
import Pep10.Program.Linking

/-!
# The `.BURN` of an operating system

An operating system has exactly one `.BURN`.  It splits the lines of the root into those that stay
in RAM and those of the ROM.  What is known of the `.BURN` while the root is assembled and linked is
told here in terms of this split.
-/

namespace Pep10

variable {line : Line} {lines before after : List Line} {operand : Operand} {burn : Burn}

lemma Statement.isBurn_iff {s : Statement} :
    s.isBurn = true ↔ ∃ operand, s = .directive .burn operand := by
  unfold isBurn
  split
  next operand => simp
  next h =>
    constructor
    · intro hf
      cases hf
    · rintro ⟨operand, rfl⟩
      exact absurd rfl (h operand)

namespace Burn

/-- What is known of the `.BURN` directives after one more line. -/
def step (burn : Burn) (line : Line) : Burn :=
  match line.statement with
  | .directive .burn operand => { burn with count := burn.count + 1, argument := operand.constant }
  | _ => burn

lemma ofLines_eq_foldl (lines : List Line) : ofLines lines = lines.foldl step {} := rfl

lemma step_of_burn (h : line.statement = .directive .burn operand) :
    burn.step line = { burn with count := burn.count + 1, argument := operand.constant } := by
  rw [step, h]

lemma step_of_not_burn (h : line.statement.isBurn = false) : burn.step line = burn := by
  unfold step
  split
  next operand hst =>
    rw [hst] at h
    cases h
  next => rfl

/-- Every `.BURN` is counted. -/
lemma count_foldl_step (lines : List Line) (burn : Burn) :
    (lines.foldl step burn).count =
      burn.count + lines.countP fun line => line.statement.isBurn := by
  induction lines generalizing burn with
  | nil => rfl
  | cons line lines ih =>
    rw [List.foldl_cons, ih, List.countP_cons]
    cases hline : line.statement.isBurn with
    | false => rw [step_of_not_burn hline]; rfl
    | true =>
      obtain ⟨operand, hst⟩ := Statement.isBurn_iff.1 hline
      rw [step_of_burn hst]
      simp only [if_true]
      omega

/-- The `.BURN` directives can be told from the shapes of the lines. -/
lemma ofLines_of_shapes {lines' : List Line} (h : lines'.map Line.shape = lines.map Line.shape) :
    ofLines lines' = ofLines lines := by
  have hshape : ∀ (burn : Burn) (line : Line), burn.step line.shape = burn.step line := by
    intro burn line
    cases hline : line.statement.isBurn with
    | false =>
      rw [step_of_not_burn hline, step_of_not_burn (by rwa [Line.statement_shape,
        Statement.isBurn_shape])]
    | true =>
      obtain ⟨operand, hst⟩ := Statement.isBurn_iff.1 hline
      rw [step_of_burn hst, step_of_burn (by rw [Line.statement_shape, hst]; rfl)]
  have hfold : ∀ lines : List Line, ofLines lines = (lines.map Line.shape).foldl step {} := by
    intro lines
    rw [ofLines_eq_foldl, List.foldl_map]
    simp only [hshape]
  rw [hfold, h, ← hfold]

/-- Lines without a `.BURN` add nothing. -/
lemma foldl_step_of_not_burn (h : ∀ line ∈ lines, line.statement.isBurn = false) :
    lines.foldl step burn = burn := by
  induction lines with
  | nil => rfl
  | cons line lines ih =>
    rw [List.forall_mem_cons] at h
    rw [List.foldl_cons, step_of_not_burn h.1, ih h.2]

end Burn

/-! ### RAM and ROM -/

/-- The lines from the `.BURN` on. -/
def romOf (lines : List Line) : List Line := lines.dropWhile fun line => !line.statement.isBurn

/-- The lines before the `.BURN`. -/
def ramOf (lines : List Line) : List Line := lines.takeWhile fun line => !line.statement.isBurn

lemma ramOf_append_romOf (lines : List Line) : ramOf lines ++ romOf lines = lines :=
  List.takeWhile_append_dropWhile

lemma not_isBurn_of_mem_ramOf (h : line ∈ ramOf lines) : line.statement.isBurn = false := by
  simpa using List.mem_takeWhile_imp h

/-- Where the ROM starts can be told from the shapes of the lines. -/
lemma map_shape_romOf (lines : List Line) :
    (romOf lines).map Line.shape = romOf (lines.map Line.shape) := by
  have hburn : (fun line : Line => !line.statement.isBurn) ∘ Line.shape =
      fun line => !line.statement.isBurn := by
    funext line
    simp
  rw [romOf, romOf, List.dropWhile_map, hburn]

/-- Lines that have the shapes of RAM and ROM are RAM and ROM. -/
lemma romOf_append_of_shapes {ram rom : List Line}
    (hram : ram.map Line.shape = (ramOf lines).map Line.shape)
    (hrom : rom.map Line.shape = (romOf lines).map Line.shape) : romOf (ram ++ rom) = rom := by
  have hshapes : (romOf (ram ++ rom)).map Line.shape = rom.map Line.shape := by
    rw [map_shape_romOf, List.map_append, hram, hrom, ← List.map_append, ramOf_append_romOf,
      ← map_shape_romOf]
  have hlength : (romOf (ram ++ rom)).length = rom.length := by
    simpa using congrArg List.length hshapes
  exact (List.suffix_of_suffix_length_le (List.dropWhile_suffix _) (List.suffix_append ram rom)
    (Nat.le_of_eq hlength)).eq_of_length hlength

lemma ramOf_append_of_shapes {ram rom : List Line}
    (hram : ram.map Line.shape = (ramOf lines).map Line.shape)
    (hrom : rom.map Line.shape = (romOf lines).map Line.shape) : ramOf (ram ++ rom) = ram := by
  have happend := ramOf_append_romOf (ram ++ rom)
  rw [romOf_append_of_shapes hram hrom] at happend
  exact List.append_cancel_right happend

/-- If there is one `.BURN`, then the ROM starts with it, there is no other, and it is the one that
has been noticed. -/
lemma exists_burn_of_count (h : (Burn.ofLines lines).count = 1) :
    ∃ line rest operand, romOf lines = line :: rest ∧
      line.statement = .directive .burn operand ∧
      (∀ other ∈ rest, other.statement.isBurn = false) ∧
      (Burn.ofLines lines).argument = operand.constant := by
  have happend := ramOf_append_romOf lines
  have hram : ∀ line ∈ ramOf lines, line.statement.isBurn = false :=
    fun line hline => not_isBurn_of_mem_ramOf hline
  have hburn : Burn.ofLines lines = (romOf lines).foldl Burn.step {} := by
    conv_lhs => rw [Burn.ofLines_eq_foldl, ← happend, List.foldl_append]
    rw [Burn.foldl_step_of_not_burn hram]
  rw [hburn] at h ⊢
  cases hrom : romOf lines with
  | nil =>
    rw [hrom] at h
    cases h
  | cons line rest =>
    have hline : line.statement.isBurn = true := by
      have := List.head?_dropWhile_not (fun line : Line => !line.statement.isBurn) lines
      rw [show lines.dropWhile _ = _ from hrom] at this
      simpa using this
    obtain ⟨operand, hst⟩ := Statement.isBurn_iff.1 hline
    rw [hrom, List.foldl_cons, Burn.step_of_burn hst] at h
    have hrest : ∀ other ∈ rest, other.statement.isBurn = false := by
      rw [Burn.count_foldl_step] at h
      have hzero : rest.countP (fun line => line.statement.isBurn) = 0 := by
        simp only at h
        omega
      simpa using hzero
    refine ⟨line, rest, operand, rfl, hst, hrest, ?_⟩
    rw [List.foldl_cons, Burn.step_of_burn hst, Burn.foldl_step_of_not_burn hrest]

/-- Lines without a `.BURN` do not change the address that is known. -/
lemma burnAddress_of_not_burn (h : ∀ line ∈ lines, line.statement.isBurn = false) (w : UInt16) :
    Linker.burnAddress lines w = w := by
  induction lines with
  | nil => rfl
  | cons line lines ih =>
    rw [List.forall_mem_cons] at h
    have hline : Linker.burnAddress (line :: lines) w = Linker.burnAddress lines w := by
      rw [Linker.burnAddress, List.foldl_cons, h.1]
      rfl
    rw [hline, ih h.2]

/-- The address that is kept is that of the one `.BURN`. -/
lemma burnAddress_eq {rest : List Line} {w : UInt16} (hrom : romOf lines = line :: rest)
    (hline : line.statement.isBurn = true) (hrest : ∀ other ∈ rest, other.statement.isBurn = false)
    (haddress : line.address = some w) (otherwise : UInt16) :
    Linker.burnAddress lines otherwise = w := by
  have hram : Linker.burnAddress (ramOf lines) otherwise = otherwise :=
    burnAddress_of_not_burn (fun line hline => not_isBurn_of_mem_ramOf hline) otherwise
  have hlast := burnAddress_of_not_burn hrest w
  unfold Linker.burnAddress at hram hlast ⊢
  rw [← ramOf_append_romOf lines, hrom, List.foldl_append, hram, List.foldl_cons, hline, if_pos rfl,
    haddress, Option.getD_some, hlast]

end Pep10
