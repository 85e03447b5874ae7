import Pep10.Proofs.Line.Ending
import Pep10.Proofs.Program.Assembly

/-!
# The calls that an instance makes

What an instance calls is told by its source lines up to the first one that ends the module, as they
are read with the arguments of the instance in place.  This does not depend on whether the instance
is assembled; once it is, its lines tell the same (`Assembling.invokes`).
-/

namespace Pep10.Program

variable {p : Program} {lib : MacroLibrary} {text : String} {kind : ModuleKind} {number a b b' n : Nat}
  {sources : List String} {lines : List Line} {line : Line} {s : Progress} {pending : List Nat}

/-- The line `n` of the instance `a`, which stands before the end of the module, is read as a call
of the instance `b`. -/
def InvokesOn (p : Program) (lib : MacroLibrary) (a n b : Nat) : Prop :=
  ∃ source line, (p.sourceOf a)[n]? = some source ∧
    (∀ i < n, ∀ earlier, (p.sourceOf a)[i]? = some earlier → endsModule earlier = false) ∧
    ReadsLine p lib n source line ∧ line.statement.target? = some b

/-- A line of the instance `a` calls the instance `b`. -/
def Invokes (p : Program) (lib : MacroLibrary) (a b : Nat) : Prop := ∃ n, p.InvokesOn lib a n b

/-- The instance that is called on the line `n` of the instance `a`, if the line is read with the
given library. -/
def callOn? (p : Program) (lib : MacroLibrary) (a n : Nat) : Option Nat :=
  if ((p.sourceOf a).take n).any endsModule then none
  else
    (p.sourceOf a)[n]?.bind fun source =>
      match (Reader.line (p.readContext lib) n (tokenize source)).outcome with
      | .ok line => line.statement.target?
      | .error _ => none

/-- A call that is found by reading the line is one. -/
lemma invokesOn_of_callOn? (h : p.callOn? lib a n = some b) : p.InvokesOn lib a n b := by
  unfold callOn? at h
  split at h
  · cases h
  next hbefore =>
    obtain ⟨source, hsource, hread⟩ := Option.bind_eq_some_iff.1 h
    rcases hline : Reader.line (p.readContext lib) n (tokenize source) with ⟨marks, e | line⟩
    · rw [hline] at hread
      cases hread
    · rw [hline] at hread
      refine ⟨source, line, hsource, fun i hi earlier hearlier => ?_, ⟨lib, marks, .refl lib, hline⟩, hread⟩
      rw [List.any_eq_true] at hbefore
      rw [← Bool.not_eq_true]
      intro hends
      have htake : ((p.sourceOf a).take n)[i]? = some earlier := by rw [List.getElem?_take_of_lt hi, hearlier]
      exact hbefore ⟨earlier, List.mem_of_getElem? htake, hends⟩

/-- There are no calls from the end of the module on. -/
lemma InvokesOn.lt_of_endsModule (h : p.InvokesOn lib a n b) {i : Nat} {source : String}
    (hsource : (p.sourceOf a)[i]? = some source) (hends : endsModule source = true) : n < i := by
  obtain ⟨source', line, hsource', hbefore, ⟨lib', marks, -, hread⟩, htarget⟩ := h
  rcases Nat.lt_trichotomy n i with hlt | rfl | hgt
  · exact hlt
  · obtain rfl : source = source' := Option.some.inj (hsource.symm.trans hsource')
    rw [(Reader.endsModule_iff hread).1 hends] at htarget
    cases htarget
  · rw [hbefore i hgt source hsource] at hends
    cases hends

/-- A line that has been read stands before the end of the module. -/
lemma ReadsLines.exists_source_before (h : ReadsLines p lib number sources lines) (hline : line ∈ lines) :
    ∃ i source, sources[i]? = some source ∧ ReadsLine p lib (number + i) source line ∧
      ∀ j < i, ∀ earlier, sources[j]? = some earlier → endsModule earlier = false := by
  induction h with
  | last hread _ =>
    obtain rfl := List.mem_singleton.1 hline
    exact ⟨0, _, rfl, hread, nofun⟩
  | @cons number source rest first lines hread hend _ ih =>
    rcases List.mem_cons.1 hline with rfl | hline
    · exact ⟨0, _, rfl, hread, nofun⟩
    · obtain ⟨i, source', hsource', hread', hbefore⟩ := ih hline
      refine ⟨i + 1, source', hsource', ?_, fun j hj earlier hearlier => ?_⟩
      · rwa [show ∀ n, n + (i + 1) = n + 1 + i by omega]
      · cases j with
        | zero =>
          obtain rfl : source = earlier := Option.some.inj hearlier
          obtain ⟨lib', marks, -, hread⟩ := hread
          rw [← Bool.not_eq_true, Reader.endsModule_iff hread]
          exact hend
        | succ j => exact hbefore j (Nat.lt_of_succ_lt_succ hj) earlier hearlier

/-- The lines of an assembled instance call what its source lines do. -/
lemma Assembling.invokes (h : Assembling p lib s pending) (hp : Collected text kind lib p)
    (hcall : b ∈ s.program.callsOf a) : a < p.instances.size ∧ p.Invokes lib a b := by
  obtain ⟨line, hline, htarget⟩ := List.mem_filterMap.1 hcall
  have ha : a < p.instances.size := by
    by_contra hge
    rw [inst, Array.getD_eq_getD_getElem?, Array.getElem?_eq_none (by rw [h.size_eq]; omega)] at hline
    cases hline
  cases hdone : (s.program.inst a).assembled with
  | false =>
    rw [(h.fresh a ha hdone).1, (hp.fresh_lines ha).2.1] at hline
    cases hline
  | true =>
    obtain ⟨n, source, hsource, hread, hbefore⟩ := (h.done a ha hdone).reads.exists_source_before hline
    rw [Nat.zero_add] at hread
    exact ⟨ha, n, source, line, hsource, hbefore, hread, htarget⟩

section Searched

variable (hp : Collected text kind lib p) (hsearched : ∀ j < p.modules.size, Searched lib p j)
  (ha : a < p.instances.size)

include hp hsearched ha

/-- A call leads to an instance of an included module. -/
lemma Invokes.target (h : p.Invokes lib a b) :
    b < p.instances.size ∧ ((p.inst a).moduleId, (p.inst b).moduleId) ∈ p.includes.edges := by
  obtain ⟨n, source, line, hsource, -, hread, htarget⟩ := h
  obtain ⟨raw, token, rest, call, found, child, recorded, hcall, -⟩ :=
    hread.call hp hsearched ha hsource htarget
  obtain ⟨hlt, -, hedge⟩ := hcall.target hp
  exact ⟨hlt, hedge⟩

/-- A line on which something is called has a record. -/
lemma InvokesOn.exists_recorded (h : p.InvokesOn lib a n b) :
    ∃ recorded, (p.module (p.inst a).moduleId).callAt? n = some recorded := by
  obtain ⟨source, line, hsource, -, hread, htarget⟩ := h
  obtain ⟨raw, token, rest, call, found, child, recorded, hcall, -⟩ :=
    hread.call hp hsearched ha hsource htarget
  exact ⟨recorded, hcall.isFound.callAt_eq⟩

/-- A line calls one instance. -/
lemma InvokesOn.unique (h : p.InvokesOn lib a n b) (h' : p.InvokesOn lib a n b') : b = b' := by
  obtain ⟨source, line, hsource, -, hread, htarget⟩ := h
  obtain ⟨source', line', hsource', -, hread', htarget'⟩ := h'
  obtain ⟨raw, token, rest, call, found, child, recorded, hcall, -⟩ :=
    hread.call hp hsearched ha hsource htarget
  obtain ⟨raw', token', rest', call', found', child', recorded', hcall', -⟩ :=
    hread'.call hp hsearched ha hsource' htarget'
  obtain rfl : raw = raw' := Option.some.inj (hcall.raw_eq.symm.trans hcall'.raw_eq)
  obtain rfl : call = call' :=
    Option.some.inj (Except.ok.inj (hcall.ofLine_eq.symm.trans hcall'.ofLine_eq))
  obtain rfl : found = found' := Option.some.inj (hcall.isFound.get_eq.symm.trans hcall'.isFound.get_eq)
  obtain rfl : child = child' := Option.some.inj (hcall.isFound.named.symm.trans hcall'.isFound.named)
  obtain rfl : rest = rest' := IsCall.rest_unique hcall.isCall hcall'.isCall
  exact Option.some.inj (hcall.instance_eq.symm.trans hcall'.instance_eq)

end Searched

end Pep10.Program
