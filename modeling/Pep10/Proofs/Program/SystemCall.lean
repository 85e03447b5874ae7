import Pep10.Proofs.Line.CallFree
import Pep10.Proofs.Program.Reading
import Pep10.Proofs.Symbol.Relabeling
import Pep10.Proofs.Text.Split

/-!
# The macro of a system call

The body of the macro that makes a system call is fixed but for the name: it loads the value of the
symbol of that name and traps.  Whatever arguments it is called with, it is read as lines without
labels, the first of which has the symbol as its operand (`Macro.Makes.reads`).
-/

namespace Pep10

namespace SystemCall

/-- The source line that loads the value of the symbol. -/
def loadSource (name : String) : String := "LDWT " ++ name ++ ", i"

/-- The source line that traps. -/
def trapSource : SystemCall → String
  | unary => "USCALL"
  | nonunary => "SCALL $1, $2"

end SystemCall

open SystemCall (loadSource)

variable {m : Macro} {call : SystemCall} {name : String}

/-- The text of the macro is a header and three lines. -/
lemma SystemCall.toList_text (call : SystemCall) (name : String) :
    ∃ header : List Char, (call.text name).toList =
      '@' :: (name.toList ++ header ++ '\n' :: (Text.ofLines [loadSource name, call.trapSource, ".END"]).toList) ∧
      '\n' ∉ header := by
  cases call with
  | unary => exact ⟨" 0".toList, by simp [SystemCall.text, Text.ofLines, loadSource, trapSource], by decide⟩
  | nonunary => exact ⟨" 2".toList, by simp [SystemCall.text, Text.ofLines, loadSource, trapSource], by decide⟩

lemma toList_loadSource (name : String) :
    (loadSource name).toList = "LDWT".toList ++ [' '] ++ name.toList ++ ", i".toList := by
  simp [loadSource]

lemma newline_not_mem_loadSource (h : Text.isIdentifier name.toList = true) :
    '\n' ∉ (loadSource name).toList := by
  have hname := Text.newline_not_mem_of_isNameRest (Text.isNameRest_of_mem h)
  simp [toList_loadSource, hname]

/-- The lines of the body. -/
lemma Macro.Makes.lines_body (h : m.Makes call) :
    Text.lines m.body = [loadSource m.name, call.trapSource, ".END"] := by
  obtain ⟨htext, hname⟩ := h
  obtain ⟨header, hlist, hheader⟩ := call.toList_text m.name
  have hclean : ∀ line ∈ [loadSource m.name, call.trapSource, ".END"],
      '\n' ∉ line.toList ∧ Text.Clean line.toList := by
    simp only [List.forall_mem_cons]
    refine ⟨⟨newline_not_mem_loadSource hname, ?_⟩, ?_, by decide, nofun⟩
    · rw [toList_loadSource]
      exact Text.Clean.append (by decide) (by decide)
    · cases call <;> decide
  have hfirst : ∀ c ∈ '@' :: (m.name.toList ++ header), (c != '\n') = true := by
    have hname' := Text.newline_not_mem_of_isNameRest (Text.isNameRest_of_mem hname)
    intro c hc
    rw [bne_iff_ne]
    rintro rfl
    simp [hname', hheader] at hc
  rw [Macro.body, Text.afterFirstLine, htext, hlist, ← List.cons_append, List.dropWhile_append_of_pos hfirst,
    List.dropWhile_cons_of_neg (by decide), List.drop_succ_cons, List.drop_zero, String.ofList_toList]
  exact Text.lines_ofLines_of_clean hclean

/-! ### Reading the body -/

variable {ctx : ReadContext} {number : Nat} {marks : List Mark} {l : Line}

lemma tokenize_loadSource (h : Text.isIdentifier name.toList = true) :
    tokenize (loadSource name) =
      [⟨.identifier, "LDWT"⟩, ⟨.identifier, name⟩, ⟨.mode, "i"⟩, Token.lineEnd] := by
  have hmode : Lexer.scanLine ", i".toList = .ok [⟨.mode, "i"⟩, Token.lineEnd] := by decide +kernel
  apply Lexer.tokenize_of_scanLine
  rw [toList_loadSource, List.append_assoc, List.append_assoc,
    (Lexer.spells_identifier (by decide)).scanLine (by rfl), Lexer.scanLine_blanks (List.forall_mem_singleton.2 rfl),
    (Lexer.spells_identifier h).scanLine (by decide), hmode]
  rfl

/-- The first line of the body loads the value of the symbol. -/
lemma statement_of_loadSource (h : Text.isIdentifier name.toList = true)
    (hread : Reader.line ctx number (tokenize (loadSource name)) = ⟨marks, .ok l⟩) :
    l.statement = .nonunary .ldwt .immediate (.symbol name) := by
  rw [tokenize_loadSource h] at hread
  obtain ⟨m₁, ⟨token, rest⟩, m₂, hnext, hthen, -⟩ := Reading.bind_eq_ok.1 hread
  cases (Reader.next_eq_ok hnext).1
  obtain ⟨s, rest, hstatement, rfl⟩ := Reader.lineFrom_eq_ok hthen
  change Reader.instruction "LDWT" _ = _ at hstatement
  have hldwt : Mnemonic.ofName? "LDWT" = some .ldwt := by decide
  rw [Reader.instruction, hldwt] at hstatement
  obtain ⟨m₃, ⟨token, rest'⟩, m₄, hnext, hthen, -⟩ := Reading.bind_eq_ok.1 hstatement
  cases (Reader.next_eq_ok hnext).1
  obtain ⟨m₅, operand, m₆, hoperand, hthen, -⟩ := Reading.bind_eq_ok.1 hthen
  obtain ⟨rfl, -⟩ := Reader.useSymbol_eq_ok hoperand
  obtain ⟨m₇, ⟨mode, rest''⟩, m₈, hmode, hpure, -⟩ := Reading.bind_eq_ok.1 hthen
  have himmediate : Reader.instructionMode .ldwt [⟨.mode, "i"⟩, Token.lineEnd] =
      ⟨[], .ok (.immediate, [Token.lineEnd])⟩ := by rfl
  rw [himmediate] at hmode
  cases hmode
  cases hpure
  rfl

/-- Text without a dollar sign stays what it is. -/
lemma Placeholder.substitute_of_not_mem {args : List String} {line : String} (h : '$' ∉ line.toList) :
    Placeholder.substitute args line = line := by
  have hexpand : Placeholder.expand args (line.toList ++ []) = line.toList ++ Placeholder.expand args [] :=
    Placeholder.expand_append h
  rw [List.append_nil, Placeholder.expand, List.append_nil] at hexpand
  rw [Placeholder.substitute, hexpand, String.ofList_toList]

lemma substitute_loadSource (h : Text.isIdentifier name.toList = true) (args : List String) :
    Placeholder.substitute args (loadSource name) = loadSource name := by
  refine Placeholder.substitute_of_not_mem fun hmem => ?_
  have hname : '$' ∉ name.toList := fun hmem => absurd (Text.isNameRest_of_mem h _ hmem) (by decide)
  simp [toList_loadSource, hname] at hmem

/-- No line of the body begins with a label, whatever the arguments are. -/
lemma Macro.Makes.not_labelled (h : m.Makes call) (args : List String) {source : String}
    (hsource : source ∈ (Text.lines m.body).map (Placeholder.substitute args)) :
    source.toList.head?.any Text.isBlank = false ∧
      (source.toList.dropWhile Text.isNameRest).head? ≠ some ':' := by
  rw [h.lines_body] at hsource
  simp only [List.map_cons, List.map_nil, List.mem_cons, List.not_mem_nil, or_false,
    substitute_loadSource h.2] at hsource
  rcases hsource with rfl | rfl | rfl
  · rw [toList_loadSource]
    exact ⟨rfl, fun h => by cases h⟩
  · cases call with
    | unary =>
      rw [Placeholder.substitute_of_not_mem (by decide)]
      decide
    | nonunary =>
      have hsplit : SystemCall.nonunary.trapSource.toList = "SCALL ".toList ++ "$1, $2".toList := by decide
      rw [Placeholder.substitute, String.toList_ofList, hsplit, Placeholder.expand_append (by decide)]
      exact ⟨rfl, fun h => by cases h⟩
  · rw [Placeholder.substitute_of_not_mem (by decide)]
    decide

/-- Whatever the arguments are, the body is read as lines without labels, the first of which loads
the value of the symbol. -/
theorem Macro.Makes.reads {p : Program} {lib : MacroLibrary} {args : List String} {lines : List Line}
    (h : m.Makes call)
    (hreads : p.ReadsLines lib 0 ((Text.lines m.body).map (Placeholder.substitute args)) lines) :
    (∃ first rest, lines = first :: rest ∧
        first.statement = .nonunary .ldwt .immediate (.symbol m.name)) ∧
      ∀ line ∈ lines, line.label = none := by
  constructor
  · obtain ⟨rest, hsources⟩ : ∃ rest, (Text.lines m.body).map (Placeholder.substitute args) =
        loadSource m.name :: rest := by
      rw [h.lines_body, List.map_cons, substitute_loadSource h.2]
      exact ⟨_, rfl⟩
    rw [hsources] at hreads
    cases hreads with
    | last hline _ =>
      obtain ⟨_, _, -, hread⟩ := hline
      exact ⟨_, _, rfl, statement_of_loadSource h.2 hread⟩
    | cons hline _ _ =>
      obtain ⟨_, _, -, hread⟩ := hline
      exact ⟨_, _, rfl, statement_of_loadSource h.2 hread⟩
  · intro line hline
    obtain ⟨n, source, hsource, _, _, -, hread⟩ := hreads.exists_source hline
    obtain ⟨hblank, hcolon⟩ := h.not_labelled args (List.mem_of_getElem? hsource)
    exact label_eq_none_of_line hread hblank hcolon

/-- The same holds of all lines that have the shapes of what was read. -/
lemma Macro.Makes.reads_shapes {p : Program} {lib : MacroLibrary} {args : List String}
    {read lines : List Line} (h : m.Makes call)
    (hreads : p.ReadsLines lib 0 ((Text.lines m.body).map (Placeholder.substitute args)) read)
    (hshapes : lines.map Line.shape = read.map Line.shape) :
    (∃ first rest, lines = first :: rest ∧
        first.statement = .nonunary .ldwt .immediate (.symbol m.name)) ∧
      ∀ line ∈ lines, line.label = none := by
  obtain ⟨⟨before, others, rfl, hload⟩, hlabels⟩ := h.reads hreads
  constructor
  · obtain ⟨first, rest, hlines, hfirst, -⟩ := List.map_eq_cons_iff.1 hshapes
    have hshape : first.statement.shape = before.statement.shape := congrArg Line.statement hfirst
    rw [hload] at hshape
    refine ⟨first, rest, hlines, ?_⟩
    cases hst : first.statement with
    | nonunary => rwa [hst] at hshape
    | _ =>
      rw [hst] at hshape
      cases hshape
  · intro line hline
    obtain ⟨before, hbefore, hshape⟩ := exists_shape_eq hshapes hline
    rw [← Line.label_of_shape hshape, hlabels before hbefore]

end Pep10
