import Pep10.Proofs.Program.Copies

/-!
# The `.BURN` lines of an operating system

The root of a linked operating system has exactly one `.BURN` line.  The `.BURN` lines in the
expansion are those of the root and of all copies of macros.  So there is exactly one in the
expansion if and only if no macro that is called, directly or not, has one; that is not checked.
-/

namespace Pep10.Program

variable {q : Program} {lib : MacroLibrary} {text : String}
  {exports : Option (List ExportedSymbol)} {options : Options} {lo : Nat}

/-- The number of `.BURN` lines among some lines. -/
def burnCount (lines : List Line) : Nat := lines.countP fun line => line.statement.isBurn

lemma count_ofLines (lines : List Line) : (Burn.ofLines lines).count = burnCount lines := by
  rw [Burn.ofLines_eq_foldl, Burn.count_foldl_step, burnCount]
  exact Nat.zero_add _

/-- The `.BURN` lines of an expansion that belong to the root are those of the root. -/
lemma Spans.burnCount_own (h : Spans q lo (q.inst root).lines q.instances.size) (hlo : root < lo) :
    ((q.sites root).countP fun site => site.owner == root && site.line.statement.isBurn) =
      burnCount (q.inst root).lines := by
  obtain ⟨depth, hdepth, hsites⟩ := h.sites_eq hlo
  have hothers : ((List.range' lo (q.instances.size - lo)).map fun id =>
      (q.inst id).lines.countP fun line => id == root && line.statement.isBurn).sum = 0 := by
    rw [List.sum_eq_zero_iff_forall_eq_nat]
    intro n hn
    obtain ⟨id, hid, rfl⟩ := List.mem_map.1 hn
    have hne : (id == root) = false := by
      rw [List.mem_range'_1] at hid
      exact beq_false_of_ne (by omega)
    simp [hne]
  rw [hsites, h.countP_sites hdepth fun owner line => owner == root && line.statement.isBurn, hothers]
  rfl

end Pep10.Program
