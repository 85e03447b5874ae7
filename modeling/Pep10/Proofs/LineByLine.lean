import Pep10.Proofs.Line.Stream
import Pep10.Proofs.Program.AssemblyFailure

/-!
# One line for each source line

The lines of an instance that has been assembled are read from its source lines one by one: each has
the number of its source line, takes the tokens of that source line and no others, and the last one,
and it alone, ends the module (`ReadsEach`).

If every source line can be read and none of them ends the module, then the end is missing, and this
is reported behind the last source line (`readLines_eq_missingEnd_iff`).  It is reported in no other
case, because reading a single line never runs out of tokens.
-/

namespace Pep10

/-- A line is read from exactly these tokens: from a stream that begins with them, whatever follows,
and not from fewer of them. -/
structure Reader.Takes (ctx : ReadContext) (number : Nat) (tokens : List Token) (line : Line) : Prop where
  append : ∀ more, (Reader.line ctx number (tokens ++ more)).outcome = .ok line
  shorter : ∀ front, front <+: tokens → front ≠ tokens →
    ∀ other, (Reader.line ctx number front).outcome ≠ .ok other

/-- A line is read, and it does not end the module. -/
def Reading.GoesOn (r : Reading Line) : Prop := ∃ line, r.outcome = .ok line ∧ line.statement ≠ .endMark

namespace Program

variable {p : Program} {lib : MacroLibrary} {number n id : Nat} {sources : List String} {lines : List Line}
  {draft : Draft} {s : Progress}

/-! ### Lines that have been read -/

/-- The lines have been read from the source lines, one from each, up to the one that ends the
module. -/
structure ReadsEach (p : Program) (lib : MacroLibrary) (sources : List String) (lines : List Line) :
    Prop where
  number_eq : ∀ (i : Nat) (line : Line), lines[i]? = some line → line.number = i
  takes : ∀ (i : Nat) (line : Line), lines[i]? = some line → ∃ source lib', sources[i]? = some source ∧
    lib.Extends lib' ∧ Reader.Takes (p.readContext lib') i (tokenize source) line
  exists_last : ∃ (before : List Line) (last : Line), lines = before ++ [last] ∧
    (∀ line ∈ before, line.statement ≠ .endMark) ∧ last.statement = .endMark

lemma ReadsLines.readsEach (h : ReadsLines p lib 0 sources lines) : p.ReadsEach lib sources lines where
  number_eq i line hline := by
    obtain ⟨source, -, hread⟩ := h.exists_source_at hline
    rw [hread.number_eq, Nat.zero_add]
  takes i line hline := by
    obtain ⟨source, hsource, lib', marks, hlib, hread⟩ := h.exists_source_at hline
    rw [Nat.zero_add] at hread
    refine ⟨source, lib', hsource, hlib, fun more => ?_, fun front hfront hne other => ?_⟩
    · rw [Reader.line_append, hread]
    · exact Reader.not_reads_of_prefix hfront hne
  exists_last := h.exists_last

/-! ### Lines that do not end the module -/

/-- The readings of all source lines, each from the stream of tokens that begins with its own, and
with what the lines before it have left. -/
def readings (p : Program) : Nat → List String → Draft → List (Reading Line)
  | _, [], _ => []
  | number, source :: rest, draft =>
    let reading := Reader.line (p.readContext draft.library) number ((source :: rest).flatMap tokenize)
    reading :: p.readings (number + 1) rest (reading.marks.foldl Draft.enter draft)

/-- The end is missing if all lines are read and none of them ends the module, and it is missed
behind the last of them. -/
theorem readLines_eq_missingEnd_iff :
    (p.readLines number sources draft).2 = .error (n, .missingEnd) ↔
      (∀ r ∈ p.readings number sources draft, r.GoesOn) ∧ n = number + sources.length := by
  induction sources generalizing number draft with
  | nil => simp [readLines, readings, eq_comm]
  | cons source rest ih =>
    have hstream : (source :: rest).flatMap tokenize = tokenize source ++ rest.flatMap tokenize :=
      List.flatMap_cons
    have hnever := Reader.line_ne_missingEnd (p.readContext draft.library) number source
    rw [readLines, readings, hstream, Reader.line_append]
    rcases hr : Reader.line (p.readContext draft.library) number (tokenize source) with ⟨marks, outcome⟩
    rw [hr] at hnever
    rw [List.forall_mem_cons]
    cases outcome with
    | error e =>
      -- A line that cannot be read has an error of its own.
      constructor
      · intro h
        cases h
        exact absurd rfl hnever
      · rintro ⟨⟨⟨line, hline, -⟩, -⟩, -⟩
        cases hline
    | ok line =>
      dsimp only
      by_cases hend : line.statement = .endMark
      · rw [if_pos (by simpa using hend)]
        constructor
        · intro h
          cases h
        · rintro ⟨⟨⟨line', hline, hgoes⟩, -⟩, -⟩
          cases hline
          exact absurd hend hgoes
      · have hgoes : Reading.GoesOn ⟨marks, .ok line⟩ := ⟨line, rfl, hend⟩
        have hlength : number + (source :: rest).length = number + 1 + rest.length := by
          rw [List.length_cons]
          omega
        rw [if_neg (by simpa using hend), hlength, and_iff_right hgoes, ← ih]
        rcases p.readLines (number + 1) rest (marks.foldl Draft.enter draft) with ⟨draft', e | lines⟩
        · rfl
        · constructor
          · intro h
            cases h
          · intro h
            cases h

/-- The readings of the source lines of an instance that has its turn. -/
def Progress.readings (s : Progress) (id : Nat) : List (Reading Line) :=
  s.program.readings 0 (s.program.sourceOf id) (s.draftFor id)

/-- An instance fails because its end is missing if all its source lines are read and none of them
ends it. -/
lemma missingEnd_iff (hs : s.failure = none) :
    (∃ r, (s.assembleInstance id).failure = some r ∧ r.diagnostic = .ofLine .missingEnd) ↔
      ∀ r ∈ s.readings id, r.GoesOn := by
  constructor
  · rintro ⟨r, hfailure, hdiagnostic⟩
    have hfails : (s.assembleInstance id).failure ≠ none := by
      rw [hfailure]
      nofun
    obtain ⟨draft, line, e, hread⟩ := readLines_of_assembleInstance hs hfails
    obtain ⟨-, -, hreport⟩ := assembleInstance_of_error hread
    obtain rfl := Option.some.inj (hfailure.symm.trans hreport)
    cases hdiagnostic
    exact (readLines_eq_missingEnd_iff.1 (congrArg Prod.snd hread)).1
  · intro hgoes
    have hread := readLines_eq_missingEnd_iff.2 ⟨hgoes, rfl⟩
    exact ⟨_, (assembleInstance_of_error (Prod.ext rfl hread)).2.2, rfl⟩

/-- The missing end is logged and reported behind the last source line. -/
lemma assembleInstance_of_goesOn (h : ∀ r ∈ s.readings id, r.GoesOn) :
    (s.assembleInstance id).program.log =
        s.program.log.add id (s.program.sourceOf id).length (.ofLine .missingEnd) ∧
      (s.assembleInstance id).failure =
        some ⟨(s.assembleInstance id).program.rootLineOf id (s.program.sourceOf id).length,
          .ofLine .missingEnd⟩ := by
  have hread := readLines_eq_missingEnd_iff.2 ⟨h, (Nat.zero_add _).symm⟩
  obtain ⟨hprogram, -, hfailure⟩ := assembleInstance_of_error (Prod.ext rfl hread)
  refine ⟨?_, hfailure⟩
  rw [hprogram]
  rfl

/-! ### The assembly as a whole -/

/-- A state of the assembly of a program that has begun with the given library. -/
structure Continues (p : Program) (lib : MacroLibrary) (s : Progress) : Prop where
  modules_eq : s.program.modules = p.modules
  size_eq : s.program.instances.size = p.instances.size
  inst_eq : ∀ id, (s.program.inst id).moduleId = (p.inst id).moduleId ∧
    (s.program.inst id).args = (p.inst id).args
  library : lib.Extends s.library
  done : ∀ id, (s.program.inst id).assembled = true → (p.inst id).assembled = true ∨
    ReadsLines p lib 0 (p.sourceOf id) (s.program.inst id).lines

namespace Continues

lemma start (p : Program) (lib : MacroLibrary) : Continues p lib { program := p, library := lib } where
  modules_eq := rfl
  size_eq := rfl
  inst_eq _ := ⟨rfl, rfl⟩
  library := .refl _
  done _ hdone := .inl hdone

lemma sourceOf_eq (h : Continues p lib s) (id : Nat) : s.program.sourceOf id = p.sourceOf id := by
  rw [sourceOf, sourceOf, (h.inst_eq id).1, (h.inst_eq id).2, Program.module, h.modules_eq]
  rfl

lemma readContext_eq (h : Continues p lib s) (lib' : MacroLibrary) :
    s.program.readContext lib' = p.readContext lib' :=
  readContext_congr h.modules_eq h.size_eq h.inst_eq lib'

/-- An instance that is assembled gets lines that have been read from its source lines. -/
lemma assembleInstance (h : Continues p lib s) (hs : s.failure = none) (id : Nat) :
    Continues p lib (s.assembleInstance id) := by
  have hlibrary : lib.Extends
      (s.program.readLines 0 (s.program.sourceOf id) (s.draftFor id)).1.library :=
    h.library.trans (extends_readLines ..)
  by_cases hfailure : (s.assembleInstance id).failure = none
  · obtain ⟨draft, lines, hread, heq⟩ := assembleInstance_eq hfailure
    change s.program.readLines 0 (s.program.sourceOf id) (s.draftFor id) = _ at hread
    rw [hread] at hlibrary
    rw [h.sourceOf_eq] at hread
    have hreads := (readLines_eq_ok h.library hread).1.congr h.readContext_eq
    rw [heq]
    have hcases := fun j => inst_modifyInstance_cases
      (s.program.modifyTable (s.program.inst id).table fun _ => draft.table) id j fun i =>
        { i with lines, burn := Burn.ofLines lines, assembled := true }
    refine ⟨h.modules_eq, size_modifyInstance.trans h.size_eq, fun j => ?_, hlibrary, fun j => ?_⟩
    · rcases hcases j with hj | ⟨-, hj⟩
      · rw [hj]
        exact h.inst_eq j
      · rw [hj]
        exact h.inst_eq j
    · rcases hcases j with hj | ⟨rfl, hj⟩
      · rw [hj]
        exact h.done j
      · rw [hj]
        exact fun _ => .inr hreads
  · obtain ⟨draft, line, e, hread⟩ := readLines_of_assembleInstance hs hfailure
    obtain ⟨hprogram, hlib, -⟩ := assembleInstance_of_error hread
    rw [hread, ← hlib] at hlibrary
    refine ⟨?_, ?_, ?_, hlibrary, ?_⟩ <;> rw [hprogram]
    · exact h.modules_eq
    · exact h.size_eq
    · exact h.inst_eq
    · exact h.done

end Continues

/-- At the end of an assembly every instance that has been assembled has got lines from its source
lines, and a failure is that of one instance. -/
lemma continues_assemble (p : Program) (lib : MacroLibrary) :
    (∀ id, ((p.assemble lib).1.inst id).assembled = true → (p.inst id).assembled = true ∨
      ReadsLines p lib 0 (p.sourceOf id) ((p.assemble lib).1.inst id).lines) ∧
    ∀ r ∈ (p.assemble lib).2.2, ∃ s id, Continues p lib s ∧ s.failure = none ∧
      (s.assembleInstance id).failure = some r ∧ (p.assemble lib).1 = (s.assembleInstance id).program := by
  have hrun := Progress.run_induction
    (P := fun s => Continues p lib s ∧ ∀ r, s.failure = some r → ∃ s₁ id, Continues p lib s₁ ∧
      s₁.failure = none ∧ (s₁.assembleInstance id).failure = some r ∧
        s.program = (s₁.assembleInstance id).program)
    (fun s id hnone _ hs => ⟨hs.1.assembleInstance hnone id,
      fun r hr => ⟨s, id, hs.1, hnone, hr, rfl⟩⟩)
    (fun s hs => ⟨{ hs.1 with }, hs.2⟩)
    (p.instances.size + 1) [root] ⟨.start p lib, nofun⟩
  refine ⟨hrun.1.done, fun r hr => ?_⟩
  exact hrun.2 r (Option.mem_toList.1 hr)

/-- The lines of every instance that an assembly has assembled have been read from its source lines
one by one.  When an instance has its turn, its end is reported to be missing if and only if every
source line is read and none of them ends the module; and then this is logged and reported on the
line whose number is that of the source lines.  What an assembly reports is what one of the
instances has failed with. -/
theorem assemble_line_by_line (p : Program) (lib : MacroLibrary) :
    (∀ id, (p.inst id).assembled = false → ((p.assemble lib).1.inst id).assembled = true →
      p.ReadsEach lib (p.sourceOf id) ((p.assemble lib).1.inst id).lines) ∧
    (∀ (s : Progress) (id : Nat), s.failure = none →
      let s' := s.assembleInstance id
      let number := (s.program.sourceOf id).length
      ((∃ r, s'.failure = some r ∧ r.diagnostic = .ofLine .missingEnd) ↔ ∀ r ∈ s.readings id, r.GoesOn) ∧
      ((∀ r ∈ s.readings id, r.GoesOn) →
        s'.program.log = s.program.log.add id number (.ofLine .missingEnd) ∧
        s'.failure = some ⟨s'.program.rootLineOf id number, .ofLine .missingEnd⟩)) ∧
    ∀ r ∈ (p.assemble lib).2.2, ∃ (s : Progress) (id : Nat), s.failure = none ∧
      s.program.sourceOf id = p.sourceOf id ∧
      (s.assembleInstance id).failure = some r ∧ (p.assemble lib).1 = (s.assembleInstance id).program := by
  obtain ⟨hdone, hreports⟩ := continues_assemble p lib
  refine ⟨fun id hnew hassembled => ?_, fun s id hs => ⟨missingEnd_iff hs, assembleInstance_of_goesOn⟩, ?_⟩
  · rcases hdone id hassembled with hold | hreads
    · rw [hnew] at hold
      cases hold
    · exact hreads.readsEach
  · intro r hr
    obtain ⟨s, id, hcontinues, hs, hfailure, hprogram⟩ := hreports r hr
    exact ⟨s, id, hs, hcontinues.sourceOf_eq id, hfailure, hprogram⟩

/-- A program with an empty line, a comment and text behind its end. -/
def endedProgram : Program := ofSource "x: LDWA 0x10,i ;load\n\n  ;note\n.END\n:?" .userProgram

/-- The first lines of it, without the end. -/
def endlessProgram : Program := ofSource "x: LDWA 0x10,i ;load\n\n  ;note" .userProgram

/-- The four lines up to the end are read, each from its own tokens; without the end, the line
behind the three lines is reported. -/
theorem assemble_line_by_line_ended :
    ((endedProgram.assemble {}).1.inst root).lines.length = 4 ∧
      endedProgram.ReadsEach {} (endedProgram.sourceOf root) ((endedProgram.assemble {}).1.inst root).lines ∧
      (∀ r ∈ Progress.readings ⟨endlessProgram, {}, [], none⟩ root, r.GoesOn) ∧
      (Progress.assembleInstance ⟨endlessProgram, {}, [], none⟩ root).program.log =
        endlessProgram.log.add root 3 (.ofLine .missingEnd) := by
  obtain ⟨hlines, -, -⟩ := assemble_line_by_line endedProgram {}
  obtain ⟨-, hmissing, -⟩ := assemble_line_by_line endlessProgram {}
  obtain ⟨hiff, hlog⟩ := hmissing ⟨endlessProgram, {}, [], none⟩ root rfl
  have hfails : (Progress.assembleInstance ⟨endlessProgram, {}, [], none⟩ root).failure =
      some ⟨3, .ofLine .missingEnd⟩ := by
    decide +kernel
  have hgoes := hiff.1 ⟨_, hfails, rfl⟩
  exact ⟨by decide +kernel, hlines root (by decide +kernel) (by decide +kernel), hgoes, (hlog hgoes).1⟩

end Program

end Pep10
