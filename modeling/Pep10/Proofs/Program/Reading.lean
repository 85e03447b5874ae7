import Pep10.Proofs.Line.Reader
import Pep10.Proofs.Program.Inclusion
import Pep10.Proofs.Symbol.Publication
import Pep10.Proofs.Text.Quoted
import Pep10.Program.Assembly

/-!
# The lines that are read from a source text

`ReadsLines` relates source lines to the lines that are read from them, up to and including the one
that ends the module.  While lines are read, the library of macros grows by the system calls that
they offer, and what was in it stays; and the symbol table comes to record the marks of the lines.

Every call among the lines leads to an instance of a module that the module at hand includes,
because the search for included modules has found the call before.
-/

namespace Pep10

/-! ### Growing libraries -/

/-- The name in the header of a macro is an identifier. -/
lemma Macro.isIdentifier_of_header? {text name : String} {arity : Nat}
    (h : Macro.header? text = some (name, arity)) : Text.isIdentifier name.toList = true := by
  unfold Macro.header? at h
  split at h
  · unfold Macro.headerOfWords at h
    split at h
    · split at h
      next hwords =>
        cases h
        simp only [Bool.and_eq_true] at hwords
        rw [String.toList_ofList]
        exact hwords.1.1
      · cases h
    · cases h
  · cases h

namespace MacroLibrary

/-- A library that holds more macros behind those of another one. -/
def Extends (lib lib' : MacroLibrary) : Prop := ∃ more, lib'.macros = lib.macros ++ more

variable {lib lib' lib'' : MacroLibrary}

lemma Extends.refl (lib : MacroLibrary) : lib.Extends lib := ⟨[], (List.append_nil _).symm⟩

lemma Extends.trans (h : lib.Extends lib') (h' : lib'.Extends lib'') : lib.Extends lib'' := by
  obtain ⟨more, hmore⟩ := h
  obtain ⟨more', hmore'⟩ := h'
  exact ⟨more ++ more', by rw [hmore', hmore, List.append_assoc]⟩

/-- A macro that is found stays what it is. -/
lemma Extends.get? (h : lib.Extends lib') {name : String} {m : Macro} (hm : lib.get? name = some m) :
    lib'.get? name = some m := by
  obtain ⟨more, hmore⟩ := h
  unfold MacroLibrary.get? at hm ⊢
  rw [hmore, List.find?_append, hm]
  rfl

/-- A macro is registered behind the others, with the name and the number of arguments that its
header gives up to case. -/
lemma register?_eq_some {mk : MacroKind} {name text : String}
    (h : lib.register? mk name text = some lib') :
    ∃ declared arity, Macro.header? text = some (declared, arity) ∧
      Text.sameName declared name = true ∧ lib'.macros = lib.macros ++ [⟨name, arity, mk, text⟩] := by
  unfold register? at h
  split at h
  · cases h
  · split at h
    · cases h
    next declared arity hheader =>
      split at h
      next hsame =>
        cases h
        exact ⟨declared, arity, hheader, hsame, rfl⟩
      · cases h

lemma extends_register? {mk : MacroKind} {name text : String}
    (h : lib.register? mk name text = some lib') : lib.Extends lib' := by
  obtain ⟨_, _, -, -, hmacros⟩ := register?_eq_some h
  exact ⟨_, hmacros⟩

end MacroLibrary

lemma Draft.extends_enter (d : Draft) (mark : Mark) : d.library.Extends (d.enter mark).library := by
  cases mark with
  | offer call name =>
    change d.library.Extends ((d.library.registerCall? call name).getD d.library)
    cases h : d.library.registerCall? call name with
    | none => exact .refl _
    | some lib => exact MacroLibrary.extends_register? h
  | _ => exact .refl _

lemma Draft.extends_foldl_enter (d : Draft) (marks : List Mark) :
    d.library.Extends (marks.foldl Draft.enter d).library := by
  induction marks generalizing d with
  | nil => exact .refl _
  | cons mark marks ih => exact (d.extends_enter mark).trans (ih _)

/-- The macro makes the given system call, and its name is an identifier. -/
def Macro.Makes (m : Macro) (call : SystemCall) : Prop :=
  m.text = call.text m.name ∧ Text.isIdentifier m.name.toList = true

/-- The macro makes the system call that a statement offers. -/
def Statement.Offers (s : Statement) (m : Macro) : Prop :=
  ∃ call, s.offered? = some (call, m.name) ∧ m.Makes call

lemma Statement.Offers.of_shape {s s' : Statement} {m : Macro} (h : s.Offers m)
    (hshape : s'.shape = s.shape) : s'.Offers m := by
  obtain ⟨call, hcall, hmakes⟩ := h
  exact ⟨call, by rwa [Statement.offered?_of_shape hshape], hmakes⟩

/-- A mark lets the library grow if it offers a system call. -/
lemma Draft.mem_enter {d : Draft} {mark : Mark} {m : Macro} (hm : m ∈ (d.enter mark).library.macros) :
    m ∈ d.library.macros ∨ ∃ call, mark = .offer call m.name ∧ m.Makes call := by
  cases mark with
  | offer call name =>
    change m ∈ ((d.library.registerCall? call name).getD d.library).macros at hm
    cases hlib : d.library.registerCall? call name with
    | none =>
      rw [hlib] at hm
      exact .inl hm
    | some lib =>
      obtain ⟨declared, arity, hheader, hsame, hmacros⟩ := MacroLibrary.register?_eq_some hlib
      rw [hlib, Option.getD_some, hmacros, List.mem_append, List.mem_singleton] at hm
      rcases hm with hm | rfl
      · exact .inl hm
      · refine .inr ⟨call, rfl, rfl, ?_⟩
        rw [← Text.isIdentifier_congr (Text.caseEq_of_map_eq (Text.sameName_iff.1 hsame))]
        exact Macro.isIdentifier_of_header? hheader
  | _ => exact .inl hm

lemma Draft.mem_foldl_enter {d : Draft} {marks : List Mark} {m : Macro}
    (hm : m ∈ (marks.foldl Draft.enter d).library.macros) :
    m ∈ d.library.macros ∨ ∃ call, .offer call m.name ∈ marks ∧ m.Makes call := by
  induction marks generalizing d with
  | nil => exact .inl hm
  | cons mark marks ih =>
    rcases ih hm with hm | ⟨call, hmem, hmakes⟩
    · rcases Draft.mem_enter hm with hm | ⟨call, rfl, hmakes⟩
      · exact .inl hm
      · exact .inr ⟨call, List.mem_cons_self, hmakes⟩
    · exact .inr ⟨call, List.mem_cons_of_mem _ hmem, hmakes⟩

/-- When lines have been read, a macro of the library was there before or is offered by one of
them. -/
lemma Draft.mem_of_lines {d : Draft} {lines : List Line} {m : Macro}
    (hm : m ∈ ((lines.flatMap Line.marks).foldl Draft.enter d).library.macros) :
    m ∈ d.library.macros ∨ ∃ line ∈ lines, line.statement.Offers m := by
  rcases Draft.mem_foldl_enter hm with hm | ⟨call, hmem, hmakes⟩
  · exact .inl hm
  · obtain ⟨line, hline, hmem⟩ := List.mem_flatMap.1 hmem
    exact .inr ⟨line, hline, call, Line.offer_mem_marks.1 hmem, hmakes⟩

namespace Program

variable {p : Program} {lib : MacroLibrary} {text : String} {kind : ModuleKind} {number : Nat}
  {sources : List String} {lines : List Line} {line : Line}

/-! ### Reading -/

/-- A source line is read as a line, with a library that extends the given one. -/
def ReadsLine (p : Program) (lib : MacroLibrary) (number : Nat) (source : String) (line : Line) :
    Prop :=
  ∃ lib' marks, lib.Extends lib' ∧
    Reader.line (p.readContext lib') number (tokenize source) = ⟨marks, .ok line⟩

/-- Source lines from a number on are read as the given lines, the last of which ends the module. -/
inductive ReadsLines (p : Program) (lib : MacroLibrary) : Nat → List String → List Line → Prop
  | last {number : Nat} {source : String} {rest : List String} {line : Line}
      (hline : ReadsLine p lib number source line) (hend : line.statement = .endMark) :
      ReadsLines p lib number (source :: rest) [line]
  | cons {number : Nat} {source : String} {rest : List String} {line : Line} {lines : List Line}
      (hline : ReadsLine p lib number source line) (hend : line.statement ≠ .endMark)
      (hrest : ReadsLines p lib (number + 1) rest lines) :
      ReadsLines p lib number (source :: rest) (line :: lines)

/-- What can be said of a line by itself when it has been read. -/
lemma ReadsLine.yields {source : String} (h : ReadsLine p lib number source line) :
    ∃ lib', Reader.Yields (p.readContext lib') number line.marks line := by
  obtain ⟨lib', marks, -, hline⟩ := h
  have hy := Reader.line_yields hline
  exact ⟨lib', by rw [← hy.marks_eq]; exact hy⟩

/-- A line has the number that it is read with. -/
lemma ReadsLine.number_eq {source : String} (h : ReadsLine p lib number source line) :
    line.number = number := by
  obtain ⟨lib', hy⟩ := h.yields
  exact hy.number_eq

/-- Every line has been read from the source line at its place. -/
lemma ReadsLines.exists_source_at (h : ReadsLines p lib number sources lines) {i : Nat}
    (hline : lines[i]? = some line) :
    ∃ source, sources[i]? = some source ∧ ReadsLine p lib (number + i) source line := by
  induction h generalizing i with
  | last hread _ =>
    cases i with
    | zero =>
      cases hline
      exact ⟨_, rfl, hread⟩
    | succ i => cases hline
  | cons hread _ _ ih =>
    cases i with
    | zero =>
      cases hline
      exact ⟨_, rfl, hread⟩
    | succ i =>
      obtain ⟨source, hsource, hread'⟩ := ih hline
      refine ⟨source, hsource, ?_⟩
      rwa [show ∀ n, n + (i + 1) = n + 1 + i by omega]

lemma ReadsLines.exists_source (h : ReadsLines p lib number sources lines) (hline : line ∈ lines) :
    ∃ i source, sources[i]? = some source ∧ ReadsLine p lib (number + i) source line := by
  obtain ⟨i, hi⟩ := List.mem_iff_getElem?.1 hline
  exact ⟨i, h.exists_source_at hi⟩

/-- Lines that have been read end with the line that ends the module, and only there. -/
lemma ReadsLines.exists_last (h : ReadsLines p lib number sources lines) :
    ∃ (before : List Line) (last : Line), lines = before ++ [last] ∧
      (∀ line ∈ before, line.statement ≠ .endMark) ∧ last.statement = .endMark := by
  induction h with
  | @last _ _ _ line _ hend => exact ⟨[], line, rfl, List.forall_mem_nil _, hend⟩
  | @cons _ _ _ line _ _ hend _ ih =>
    obtain ⟨before, last, rfl, hbefore, hlast⟩ := ih
    exact ⟨line :: before, last, rfl, List.forall_mem_cons.2 ⟨hend, hbefore⟩, hlast⟩

/-- Reading source lines leaves the marks of the lines behind when it succeeds. -/
lemma readLines_eq_ok {draft draft' : Draft} (hlib : lib.Extends draft.library)
    (h : p.readLines number sources draft = (draft', .ok lines)) :
    ReadsLines p lib number sources lines ∧ draft' = (lines.flatMap Line.marks).foldl Draft.enter draft := by
  induction sources generalizing number draft lines with
  | nil => cases h
  | cons source rest ih =>
    rw [readLines] at h
    rcases hr : Reader.line (p.readContext draft.library) number (tokenize source)
      with ⟨marks, outcome⟩
    rw [hr] at h
    have hlib' : lib.Extends (marks.foldl Draft.enter draft).library :=
      hlib.trans (draft.extends_foldl_enter marks)
    cases outcome with
    | error e => cases h
    | ok line =>
      have hread : ReadsLine p lib number source line := ⟨draft.library, marks, hlib, hr⟩
      have hmarks : marks = line.marks := (Reader.line_yields hr).marks_eq
      dsimp only at h
      split at h
      next hend =>
        cases h
        refine ⟨.last hread (by simpa using hend), ?_⟩
        rw [hmarks, List.flatMap_singleton]
      next hend =>
        split at h
        · cases h
        next draft₂ lines₂ hrest =>
          cases h
          obtain ⟨hreads, hdraft⟩ := ih hlib' hrest
          refine ⟨.cons hread (by simpa using hend) hreads, ?_⟩
          rw [hdraft, hmarks, List.flatMap_cons, List.foldl_append]

/-- Reading source lines lets the library grow, also if it fails. -/
lemma extends_readLines (p : Program) (number : Nat) (sources : List String) (draft : Draft) :
    draft.library.Extends (p.readLines number sources draft).1.library := by
  induction sources generalizing number draft with
  | nil => exact .refl _
  | cons source rest ih =>
    rw [readLines]
    rcases Reader.line (p.readContext draft.library) number (tokenize source) with ⟨marks, outcome⟩
    have hmarks := draft.extends_foldl_enter marks
    cases outcome with
    | error e => exact hmarks
    | ok line =>
      dsimp only
      split
      · exact hmarks
      · have hrest := ih (number + 1) (marks.foldl Draft.enter draft)
        split
        next heq =>
          rw [heq] at hrest
          exact hmarks.trans hrest
        next heq =>
          rw [heq] at hrest
          exact hmarks.trans hrest

/-- What the lines of an instance are read with. -/
def Progress.draftFor (s : Progress) (id : Nat) : Draft :=
  ⟨s.program.symbols.table (s.program.inst id).table, s.library⟩

/-! ### Calls -/

/-- A call on a line of an instance, as the search has found it in the text of the module and as it
is read with the arguments in place. -/
structure ReadsCall (lib : MacroLibrary) (p : Program) (id number : Nat) (raw : String)
    (token : Token) (rest : List Token) (call : MacroCall) (found : Macro)
    (child recorded target : Nat) : Prop where
  raw_eq : (p.module (p.inst id).moduleId).lines[number]? = some raw
  ofLine_eq : MacroCall.ofLine? raw = .ok (some call)
  isFound : IsFound lib p (p.inst id).moduleId number call found child recorded
  isCall : IsCall token rest (tokenize (Placeholder.substitute (p.inst id).args raw))
  instance_eq : p.instance? child (Reader.argumentsOf rest) = some target

/-- A call that is read on a line of an instance has been found by the search. -/
lemma ReadsLine.call (h : Collected text kind lib p)
    (hsearched : ∀ j < p.modules.size, Searched lib p j) {id target : Nat}
    (hid : id < p.instances.size) {source : String} (hsource : (p.sourceOf id)[number]? = some source)
    (hread : ReadsLine p lib number source line) (htarget : line.statement.target? = some target) :
    ∃ raw token rest call found child recorded,
      ReadsCall lib p id number raw token rest call found child recorded target ∧
      line.statement = .call found.name (Reader.argumentsOf rest) target := by
  obtain ⟨lib', marks, hlib, hline⟩ := hread
  obtain ⟨token, rest, m, hkind, htokens, hget, hinst, hstatement⟩ := Reader.line_target hline htarget
  rw [sourceOf, List.getElem?_map] at hsource
  obtain ⟨raw, hraw, rfl⟩ := Option.map_eq_some_iff.1 hsource
  obtain ⟨o, ho, hfinds⟩ := hsearched _ (h.owner_lt id hid) number raw hraw
  -- The call has been found before its placeholders were replaced.
  obtain ⟨tail, -, -, -, rfl, -⟩ := MacroCall.ofLine?_of_isCall
    (fun arg harg => (h.isArgument id hid arg harg).hides_at) ⟨hkind, htokens⟩ ho
  obtain ⟨found, child, recorded, hfound⟩ := hfinds _ rfl
  have hlib' : lib'.get? token.text = some found := hlib.get? hfound.get_eq
  change lib'.get? token.text = some m at hget
  obtain rfl : found = m := Option.some.inj (hlib'.symm.trans hget)
  change p.instanceNamed? found.name (Reader.argumentsOf rest) = some target at hinst
  rw [instanceNamed?, hfound.named] at hinst
  exact ⟨raw, token, rest, _, found, child, recorded,
    ⟨hraw, ho, hfound, ⟨hkind, htokens⟩, hinst⟩, hstatement⟩

/-- A call on a line of an instance leads to an instance of an included module, and never to the
root. -/
lemma ReadsCall.target (h : Collected text kind lib p) {id : Nat} {raw : String} {token : Token}
    {rest : List Token} {call : MacroCall} {found : Macro} {child recorded target : Nat}
    (hcall : ReadsCall lib p id number raw token rest call found child recorded target) :
    target < p.instances.size ∧ target ≠ root ∧
      ((p.inst id).moduleId, (p.inst target).moduleId) ∈ p.includes.edges := by
  have hsame : Text.sameName found.name call.name = true := by
    simpa using List.find?_some hcall.isFound.get_eq
  obtain ⟨hlt, howner⟩ := instance?_eq_some hcall.instance_eq
  refine ⟨hlt, fun hroot => ?_, by rw [howner]; exact hcall.isFound.edge⟩
  rw [(h.owner_root target hlt).2 hroot] at howner
  have hrootName := (moduleNamed?_eq_some_iff.1 hcall.isFound.named).2.1
  rw [← howner, h.root_name,
    sameName_rootName (MacroCall.isIdentifier_name hcall.ofLine_eq) hsame] at hrootName
  cases hrootName

end Program

end Pep10
