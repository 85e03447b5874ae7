import Pep10.Proofs.Line.CallFree

/-!
# Lines that end a module

Whether a source line is the `.END` of its module can be told from the line alone: it is read in the
same way in all programs (`endsModule_iff`).
-/

namespace Pep10

/-- Whether a source line ends the module that it stands in. -/
def endsModule (source : String) : Bool :=
  match (Reader.line ⟨false, {}, fun _ _ => none⟩ 0 (tokenize source)).outcome with
  | .ok line => line.statement == .endMark
  | .error _ => false

namespace Reader

variable {ctx ctx' : ReadContext} {token : Token} {tokens rest : List Token} {marks : List Mark}
  {label : Option String} {s : Statement} {name source : String} {number number' : Nat}
  {l : Line}

lemma ne_endMark_of_operandDirective {d : Directive}
    (h : operandDirective ctx label d tokens = ⟨marks, .ok (s, rest)⟩) : s ≠ .endMark := by
  have hsystem : systemSymbol ctx label d tokens = ⟨marks, .ok (s, rest)⟩ → s ≠ .endMark := by
    intro h
    unfold systemSymbol at h
    split at h
    · cases h
    · split at h
      · cases h
      · obtain ⟨_, ⟨token, rest₁⟩, _, -, hthen, -⟩ := Reading.bind_eq_ok.1 h
        dsimp only at hthen
        split at hthen
        · cases hthen
        · obtain ⟨_, operand, _, -, hthen, -⟩ := Reading.bind_eq_ok.1 hthen
          obtain ⟨_, _, _, -, hthen, -⟩ := Reading.bind_eq_ok.1 hthen
          obtain ⟨_, _, _, -, hpure, -⟩ := Reading.bind_eq_ok.1 hthen
          obtain ⟨-, heq⟩ := Reading.pure_eq_ok.1 hpure
          cases heq
          nofun
  unfold operandDirective at h
  split at h
  · exact hsystem h
  · exact hsystem h
  · exact hsystem h
  · split at h
    · cases h
    · obtain ⟨_, ⟨token, rest₁⟩, _, -, hthen, -⟩ := Reading.bind_eq_ok.1 h
      obtain ⟨_, operand, _, -, hpure, -⟩ := Reading.bind_eq_ok.1 hthen
      obtain ⟨-, heq⟩ := Reading.pure_eq_ok.1 hpure
      cases heq
      nofun

/-- The end of a module is read in the same way in all programs. -/
lemma statement_endMark (h : statement ctx label token tokens = ⟨marks, .ok (s, rest)⟩)
    (hend : s = .endMark) : statement ctx' label token tokens = ⟨marks, .ok (s, rest)⟩ := by
  unfold statement at h ⊢
  split at h
  · exact h
  · unfold directive at h ⊢
    split at h
    next hname =>
      rw [if_pos hname]
      exact h
    next hname =>
      rw [if_neg hname]
      split at h
      next halign =>
        rw [if_pos halign]
        exact h
      next halign =>
        split at h
        · exact absurd hend (ne_endMark_of_operandDirective h)
        · obtain ⟨_, _, _, -, hfail, -⟩ := Reading.bind_eq_ok.1 h
          cases hfail
  · obtain ⟨-, m, target, -, -, rfl⟩ := call_eq_ok h
    cases hend
  · cases h
  · cases h

/-- A line that ends a module does so in all programs. -/
lemma line_endMark (h : line ctx number tokens = ⟨marks, .ok l⟩) (hend : l.statement = .endMark) :
    line ctx' number' tokens = ⟨marks, .ok { l with number := number' }⟩ :=
  line_of_statement (P := fun s => s = .endMark) statement_endMark h hend

/-- A line that can be read ends its module exactly if `endsModule` tells so. -/
theorem endsModule_iff (h : line ctx number (tokenize source) = ⟨marks, .ok l⟩) :
    endsModule source = true ↔ l.statement = .endMark := by
  unfold endsModule
  constructor
  · intro hends
    generalize hread : line ⟨false, {}, fun _ _ => none⟩ 0 (tokenize source) = reading at hends
    obtain ⟨marks₀, _ | line₀⟩ := reading
    · cases hends
    · have hend : line₀.statement = .endMark := by simpa using hends
      rw [line_endMark hread hend] at h
      cases h
      exact hend
  · intro hend
    rw [line_endMark h hend]
    simpa using hend

end Reader

end Pep10
