import Pep10.Proofs.Line.Restoring
import Pep10.Proofs.Program.CallFree

/-!
# Programs that are written and assembled again

A program whose root calls no macro can be written from the lines that it has been assembled to.
The text is assembled again, with the same library, to the same lines and the same symbols, and
leaves the library in the same state: nothing that matters is lost in the lines, and everything in
them can be written.
-/

namespace Pep10

namespace Program

variable {p p₁ q : Program} {lib lib' : MacroLibrary} {text : String} {kind : ModuleKind}
  {number id : Nat} {sources : List String} {lines : List Line} {draft draft' : Draft} {s : Progress}

/-- The lines of the root as source text. -/
def rootSource (p : Program) : String := Text.ofLines ((p.inst root).lines.map Line.source)

/-- Lines that have been read are read again from their own text, from the same state and to the
same state.  No call is found in this text. -/
lemma readLines_source (hsystem : q.isSystem = p.isSystem)
    (hnewline : ∀ source ∈ sources, '\n' ∉ source.toList)
    (h : p.readLines number sources draft = (draft', .ok lines))
    (htarget : ∀ line ∈ lines, line.statement.target? = none) :
    q.readLines number (lines.map Line.source) draft = (draft', .ok lines) ∧
      ∀ line ∈ lines, line.Written ∧ MacroCall.ofLine? line.source = .ok none := by
  induction sources generalizing number draft lines with
  | nil => cases h
  | cons source rest ih =>
    rw [List.forall_mem_cons] at hnewline
    rcases hread : Reader.line (p.readContext draft.library) number (tokenize source) with ⟨marks, outcome⟩
    cases outcome with
    | error e =>
      simp only [readLines, hread] at h
      cases h
    | ok line =>
      -- The line itself, once it is known that it is no call.
      have hline (htarget : line.statement.target? = none) :
          (line.Written ∧ MacroCall.ofLine? line.source = .ok none) ∧
            Reader.line (q.readContext draft.library) number (tokenize line.source) = ⟨marks, .ok line⟩ := by
        have hctx : (q.readContext draft.library).isSystem = (p.readContext draft.library).isSystem ∧
            (q.readContext draft.library).library = (p.readContext draft.library).library := ⟨hsystem, rfl⟩
        obtain ⟨hwritten, hback⟩ := Reader.line_restored hctx hnewline.1 hread htarget
        rw [← hwritten.tokenize_source] at hback
        exact ⟨⟨hwritten, ofLine?_of_line hback htarget⟩, hback⟩
      simp only [readLines, hread] at h
      split at h
      next hend =>
        cases h
        obtain ⟨hwritten, hback⟩ := hline (htarget line List.mem_cons_self)
        refine ⟨?_, List.forall_mem_singleton.2 hwritten⟩
        simp only [List.map_singleton, readLines, hback, hend, if_true]
      next hend =>
        split at h
        · cases h
        next draft₁ lines' hrest =>
          cases h
          rw [List.forall_mem_cons] at htarget
          obtain ⟨hwritten, hback⟩ := hline htarget.1
          obtain ⟨hreads, hall⟩ := ih hnewline.2 hrest htarget.2
          refine ⟨?_, List.forall_mem_cons.2 ⟨hwritten, hall⟩⟩
          simp only [List.map_cons, readLines, hback, hreads]
          rw [if_neg hend]

/-! ### What has been assembled is not touched again -/

lemma inst_run (h : (s.program.inst id).assembled = true) (n : Nat) (ids : List Nat) :
    (Progress.run n ids s).program.inst id = s.program.inst id := by
  refine Progress.run_induction (P := fun s' => s'.program.inst id = s.program.inst id)
    (fun s' j _ hnew heq => ?_) (fun _ heq => heq) n ids rfl
  have hne : id ≠ j := by
    rintro rfl
    rw [heq, h] at hnew
    cases hnew
  rw [← heq]
  unfold Progress.assembleInstance
  dsimp only
  rcases s'.program.readLines 0 (s'.program.sourceOf j)
    ⟨s'.program.symbols.table (s'.program.inst j).table, s'.library⟩ with ⟨draft, _ | lines⟩
  · rfl
  · exact inst_modifyInstance_ne hne

/-- The root is assembled first, from an empty table and the library that is given.  If it calls
nothing, nothing else is assembled. -/
lemma exists_readLines (hfind : (ofSource text kind).findIncludes lib = (p₁, []))
    (hassemble : p₁.assemble lib = (p, lib', []))
    (htarget : ∀ line ∈ (p.inst root).lines, line.statement.target? = none) :
    ∃ draft, p₁.readLines 0 (Text.lines text) ⟨{}, lib⟩ = (draft, .ok (p.inst root).lines) ∧
      lib' = draft.library ∧ p.symbols.table root = draft.table := by
  obtain ⟨hp, -⟩ := (collected_ofSource text kind lib).findIncludes rfl hfind
  obtain ⟨htable, -, -, hfresh⟩ := hp.fresh_lines hp.root_lt
  simp only [assemble, Prod.mk.injEq, Option.toList_eq_nil_iff] at hassemble
  obtain ⟨rfl, rfl, hfail⟩ := hassemble
  let s₀ : Progress := { program := p₁, library := lib }
  have hrun : Progress.run (p₁.instances.size + 1) [root] s₀ =
      if (s₀.assembleInstance root).called.isEmpty then s₀.assembleInstance root
      else Progress.run p₁.instances.size (s₀.assembleInstance root).called (s₀.assembleInstance root) := by
    have hvisit : s₀.visit root = s₀.assembleInstance root := if_neg (by simp [s₀, hfresh])
    rw [Progress.run, ← hvisit]
    rfl
  have hfail₁ : (s₀.assembleInstance root).failure = none := by
    rw [hrun] at hfail
    split at hfail
    · exact hfail
    · exact failure_eq_none_of_run hfail
  obtain ⟨draft, lines, hread, heq⟩ := assembleInstance_eq hfail₁
  have hroot : (s₀.assembleInstance root).program.inst root =
      { p₁.inst root with lines, burn := Burn.ofLines lines, assembled := true } := by
    rw [heq]
    exact inst_modifyInstance_self hp.root_lt
  have hlines : ((Progress.run (p₁.instances.size + 1) [root] s₀).program.inst root).lines = lines := by
    rw [hrun]
    split
    · rw [hroot]
    · rw [inst_run (by rw [hroot]), hroot]
  rw [hlines] at htarget
  have hcalled : (s₀.assembleInstance root).called.isEmpty = true := by
    rw [heq, List.isEmpty_iff]
    exact List.filterMap_eq_nil_iff.2 htarget
  rw [if_pos hcalled, heq] at hrun
  refine ⟨draft, ?_, by rw [hrun], ?_⟩
  · rw [hlines, ← hread, hp.sourceOf_root]
    exact congrArg (fun table => p₁.readLines 0 (Text.lines text) ⟨table, lib⟩) (hp.tables _).symm
  · rw [hrun]
    show (p₁.symbols.modify (p₁.inst root).table fun _ => draft.table).table root = draft.table
    rw [htable]
    exact SymbolStore.table_modify_self (hp.sizes ▸ hp.root_lt)

/-- The text of lines that can be written splits into these lines. -/
lemma lines_rootSource (h : ∀ line ∈ (p.inst root).lines, line.Written) :
    Text.lines p.rootSource = (p.inst root).lines.map Line.source := by
  refine Text.lines_ofLines_of_clean ?_
  rw [List.forall_mem_map]
  exact fun line hline => ⟨(h line hline).newline_not_mem_source, (h line hline).clean_source⟩

/-- A program that calls no macro is assembled again from its own lines, as a module of the same
kind and with the same library.  No call is found in their text.  The lines are the same ones, with
the same numbers; the table holds the same symbols in the same places, so that each name stands for
the symbol it stood for; and the library ends in the same state. -/
theorem assemble_rootSource (hfind : (ofSource text kind).findIncludes lib = (p₁, []))
    (hassemble : p₁.assemble lib = (p, lib', []))
    (htarget : ∀ line ∈ (p.inst root).lines, line.statement.target? = none) :
    (ofSource p.rootSource kind).findIncludes lib = (ofSource p.rootSource kind, []) ∧
      ∃ q, (ofSource p.rootSource kind).assemble lib = (q, lib', []) ∧
        (q.inst root).lines = (p.inst root).lines ∧ q.symbols.table root = p.symbols.table root := by
  obtain ⟨hp, -⟩ := (collected_ofSource text kind lib).findIncludes rfl hfind
  obtain ⟨draft, hread, rfl, htable⟩ := exists_readLines hfind hassemble htarget
  have hsystem : (ofSource p.rootSource kind).isSystem = p₁.isSystem := by
    have hkind : ((ofSource p.rootSource kind).module root).kind = (p₁.module root).kind :=
      hp.root_kind.symm
    rw [isSystem, isSystem, hkind]
  have hnewline : ∀ source ∈ Text.lines text, '\n' ∉ source.toList := fun _ => Text.newline_not_mem_lines
  obtain ⟨hback, hwritten⟩ := readLines_source hsystem hnewline hread htarget
  have hlines := lines_rootSource fun line hline => (hwritten line hline).1
  rw [← hlines] at hback
  obtain ⟨q, hagain, hsame, htable', -⟩ := assemble_of_readLines hback htarget
  refine ⟨findIncludes_of_ofLine? ?_, q, hagain, hsame, htable'.trans htable.symm⟩
  rw [hlines, List.forall_mem_map]
  exact fun line hline => (hwritten line hline).2

/-- An operating system with a label that fills its column, an entry in the library, and blanks,
letters and numerals that are not kept as they stand. -/
def monitorSource : String :=
  "mainLoop:ldwa -1 , SFX;a\n\nx:.ASCII \"é\\\";\"  \n.scall GETC\n.byte 0xA\n.END"

/-- The lines of the operating system, in columns. -/
def monitorSourceWritten : String :=
  "mainLoop:LDWA    -1,sfx      ;a\n\nx:       .ASCII  \"é\\\";\"\n" ++
    "         .SCALL  GETC\n         .BYTE   0x0A\n         .END\n"

/-- The operating system is assembled again from its lines, and enters its macro again. -/
theorem assemble_rootSource_monitor :
    ∃ p₁ p lib', (ofSource monitorSource .operatingSystem).findIncludes ⟨[]⟩ = (p₁, []) ∧
      p₁.assemble ⟨[]⟩ = (p, lib', []) ∧
      (∀ line ∈ (p.inst root).lines, line.statement.target? = none) ∧
      lib'.macros.map Macro.name = ["GETC"] ∧ p.rootSource = monitorSourceWritten ∧
      ∃ q, (ofSource monitorSourceWritten .operatingSystem).assemble ⟨[]⟩ = (q, lib', []) ∧
        (q.inst root).lines = (p.inst root).lines ∧ q.symbols.table root = p.symbols.table root := by
  obtain ⟨f, hf⟩ : ∃ f, f = (ofSource monitorSource .operatingSystem).findIncludes ⟨[]⟩ := ⟨_, rfl⟩
  obtain ⟨a, ha⟩ : ∃ a, a = f.1.assemble ⟨[]⟩ := ⟨_, rfl⟩
  obtain ⟨hfind, hassemble, htarget, hnames, hsource⟩ : f.2 = [] ∧ a.2.2 = [] ∧
      (∀ line ∈ (a.1.inst root).lines, line.statement.target? = none) ∧
      a.2.1.macros.map Macro.name = ["GETC"] ∧ a.1.rootSource = monitorSourceWritten := by
    rw [ha, hf, ofSource_of_chars monitorSource rfl]
    decide +kernel
  have hfind' : (ofSource monitorSource .operatingSystem).findIncludes ⟨[]⟩ = (f.1, []) := by
    rw [← hf, ← hfind]
  have hassemble' : f.1.assemble ⟨[]⟩ = (a.1, a.2.1, []) := by
    rw [← ha, ← hassemble]
  obtain ⟨-, hagain⟩ := assemble_rootSource hfind' hassemble' htarget
  rw [hsource] at hagain
  exact ⟨f.1, a.1, a.2.1, hfind', hassemble', htarget, hnames, hsource, hagain⟩

end Program

end Pep10
