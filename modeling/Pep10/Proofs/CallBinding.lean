import Pep10.Proofs.Macro.Arguments
import Pep10.Proofs.Program.Assembly

/-!
# The instances that calls are bound to

A macro call is looked at twice.  The search for included modules takes the texts between commas for
the arguments and records an instance for the line; the reader takes the tokens for the arguments
and binds the line to the first instance that has these, up to case.  The line is bound to the
recorded instance exactly if the two lists agree up to case, and in particular if each text between
commas is a single token (`call_bound_as_recorded`).  A list that is not separated by commas is
bound to the instance that some other line has brought about (`call_bound_elsewhere`).
-/

namespace Pep10.Program

variable {p q : Program} {lib lib' : MacroLibrary} {text : String} {kind : ModuleKind} {id : Nat}

/-- Two lists of arguments lead to the same instance exactly if they agree up to case. -/
lemma instance?_eq_iff {m recorded target : Nat} {args args' : List String}
    (hrecorded : p.instance? m args = some recorded) (htarget : p.instance? m args' = some target) :
    target = recorded ↔ Text.sameNames args args' = true := by
  constructor
  · rintro rfl
    exact Text.sameNames_trans (Text.sameNames_symm (sameNames_of_instance?_eq_some hrecorded))
      (sameNames_of_instance?_eq_some htarget)
  · intro hsame
    have heq : p.instance? m args = p.instance? m args' := by
      simp only [instance?, Text.sameNames_congr hsame]
    rw [hrecorded, htarget, Option.some.injEq] at heq
    exact heq.symm

/-- Every call of an assembled program has been found by the search. -/
lemma exists_readsCall (hfind : (ofSource text kind).findIncludes lib = (p, []))
    (hassemble : p.assemble lib = (q, lib', [])) (hid : id < q.instances.size) {line : Line}
    (hline : line ∈ (q.inst id).lines) {name : String} {args : List String} {target : Nat}
    (hcall : line.statement = .call name args target) :
    Collected text kind lib p ∧ id < p.instances.size ∧ q.modules = p.modules ∧
      (∀ id, (q.inst id).moduleId = (p.inst id).moduleId ∧ (q.inst id).args = (p.inst id).args) ∧
      ∃ raw token rest call found child recorded,
        ReadsCall lib p id line.number raw token rest call found child recorded target ∧
        args = Reader.argumentsOf rest := by
  obtain ⟨hp, hsearched, -, s, rfl, -, h⟩ := assembling_of_assemble hfind hassemble
  rw [h.size_eq] at hid
  refine ⟨hp, hid, h.modules_eq, fun id => ⟨(h.inst_eq id).1, (h.inst_eq id).2.1⟩, ?_⟩
  cases hdone : (s.program.inst id).assembled with
  | false =>
    rw [(h.fresh id hid hdone).1, (hp.fresh_lines hid).2.1] at hline
    cases hline
  | true =>
    obtain ⟨n, source, hsource, hread⟩ := (h.done id hid hdone).reads.exists_source hline
    rw [Nat.zero_add] at hread
    have htarget : line.statement.target? = some target := by rw [hcall]; rfl
    obtain ⟨raw, token, rest, call, found, child, recorded, hreads, hstatement⟩ :=
      hread.call hp hsearched hid hsource htarget
    rw [hcall, Statement.call.injEq] at hstatement
    rw [hread.number_eq]
    exact ⟨raw, token, rest, call, found, child, recorded, hreads, hstatement.2.1⟩

/-- Every call of an assembled program stands on a line for which the search has recorded an
instance with the arguments between commas.  The line is bound to that instance exactly if these
arguments agree up to case with the tokens of the line, and so they do if each of them is a single
token. -/
theorem call_bound_as_recorded (hfind : (ofSource text kind).findIncludes lib = (p, []))
    (hassemble : p.assemble lib = (q, lib', [])) (hid : id < q.instances.size) {line : Line}
    (hline : line ∈ (q.inst id).lines) {name : String} {args : List String} {target : Nat}
    (hcall : line.statement = .call name args target) :
    ∃ raw call recorded,
      (q.module (q.inst id).moduleId).lines[line.number]? = some raw ∧
      MacroCall.ofLine? raw = .ok (some call) ∧
      (q.module (q.inst id).moduleId).callAt? line.number = some recorded ∧
      Text.sameNames (q.inst recorded).args call.args = true ∧
      (target = recorded ↔ Text.sameNames call.args args = true) ∧
      ((∀ arg ∈ call.args, IsSingle arg) → args = call.args ∧ target = recorded) := by
  obtain ⟨hp, hid', hmodules, hinst, raw, token, rest, call, found, child, recorded, hreads, rfl⟩ :=
    exists_readsCall hfind hassemble hid hline hcall
  have hmodule : q.module (q.inst id).moduleId = p.module (p.inst id).moduleId := by
    rw [(hinst id).1, Program.module, Program.module, hmodules]
  have hfound := hreads.isFound
  have hiff := instance?_eq_iff hfound.instance_eq hreads.instance_eq
  refine ⟨raw, call, recorded, ?_, hreads.ofLine_eq, ?_, ?_, hiff, fun hsingle => ?_⟩
  · rw [hmodule]
    exact hreads.raw_eq
  · rw [hmodule]
    exact hfound.callAt_eq
  · rw [(hinst recorded).2]
    exact sameNames_of_instance?_eq_some hfound.instance_eq
  · have hargs : Reader.argumentsOf rest = call.args :=
      MacroCall.argumentsOf_eq (fun arg harg => (hp.isArgument id hid' arg harg).hides_at)
        hreads.isCall hreads.ofLine_eq hfound.no_placeholder hsingle
    refine ⟨hargs, hiff.2 ?_⟩
    rw [hargs]
    exact Text.sameNames_refl _

/-- A macro with two arguments, and one that calls it. -/
def listLibrary : MacroLibrary :=
  ⟨[⟨"M", 2, .user, "@M 2\n.BYTE $1\n.ASCII $2\n.END\n"⟩,
    ⟨"OUTER", 0, .user, "@OUTER 0\nx: @m  'a' , \"b,;@\"  ; remark\n.END\n"⟩]⟩

/-- A program that calls a macro directly and through another one. -/
def listSource : String := "@OUTER\n@M 'A', \"B,;@\"\n.END\n"

/-- A call in a macro that is bound to the instance recorded for it, although another line has
brought that instance about. -/
theorem call_bound_as_recorded_list :
    ∃ p q lib', (ofSource listSource .userProgram).findIncludes listLibrary = (p, []) ∧
      p.assemble listLibrary = (q, lib', []) ∧
      ∃ line ∈ (q.inst 1).lines, line.statement = .call "M" ["'a'", "\"b,;@\""] 2 ∧
        (q.module (q.inst 1).moduleId).callAt? line.number = some 2 := by
  obtain ⟨f, hf⟩ : ∃ f, f = (ofSource listSource .userProgram).findIncludes listLibrary := ⟨_, rfl⟩
  obtain ⟨a, ha⟩ : ∃ a, a = f.1.assemble listLibrary := ⟨_, rfl⟩
  obtain ⟨hfind, hassemble, hid, hsource, line, hline, hnumber, hcall⟩ :
      f.2 = [] ∧ a.2.2 = [] ∧ 1 < a.1.instances.size ∧
        (a.1.module (a.1.inst 1).moduleId).lines[0]? = some "x: @m  'a' , \"b,;@\"  ; remark" ∧
        ∃ line ∈ (a.1.inst 1).lines, line.number = 0 ∧
          line.statement = .call "M" ["'a'", "\"b,;@\""] 2 := by
    rw [ha, hf, ofSource_of_chars listSource rfl]
    decide +kernel
  have hfind' : (ofSource listSource .userProgram).findIncludes listLibrary = (f.1, []) := by
    rw [← hf, ← hfind]
  have hassemble' : f.1.assemble listLibrary = (a.1, a.2.1, []) := by
    rw [← ha, ← hassemble]
  obtain ⟨raw, call, recorded, hraw, hofLine, hrecorded, -, -, hsingle⟩ :=
    call_bound_as_recorded hfind' hassemble' hid hline hcall
  refine ⟨f.1, a.1, a.2.1, hfind', hassemble', line, hline, hcall, ?_⟩
  rw [hnumber, hsource] at hraw
  cases hraw
  cases hofLine
  have hargs : ∀ arg ∈ ["'a'", "\"b,;@\""], IsSingle arg := by decide +kernel
  rw [hrecorded, (hsingle hargs).2]

/-- A program with a list that is not separated by commas. -/
def unseparatedSource : String := "@M 1 2,\n@M 1,2\n.END\n"

/-- A macro that stores its two arguments. -/
def storeLibrary : MacroLibrary := ⟨[⟨"M", 2, .user, "@M 2\n.BYTE $1\n.BYTE $2\n.END\n"⟩]⟩

/-- A list of arguments that is not separated by commas is accepted because of the next line, and
bound to the instance of that line: the first line is recorded to lead to instance 1 and bound to
instance 2. -/
theorem call_bound_elsewhere :
    ∃ p q lib', (ofSource unseparatedSource .userProgram).findIncludes storeLibrary = (p, []) ∧
      p.assemble storeLibrary = (q, lib', []) ∧
      ((q.inst root).lines.head?.map fun line => (line.number, line.statement)) =
        some (0, .call "M" ["1", "2"] 2) ∧
      (q.module root).callAt? 0 = some 1 := by
  obtain ⟨f, hf⟩ : ∃ f, f = (ofSource unseparatedSource .userProgram).findIncludes storeLibrary :=
    ⟨_, rfl⟩
  obtain ⟨a, ha⟩ : ∃ a, a = f.1.assemble storeLibrary := ⟨_, rfl⟩
  obtain ⟨hfind, hassemble, hbound⟩ : f.2 = [] ∧ a.2.2 = [] ∧
      ((a.1.inst root).lines.head?.map fun line => (line.number, line.statement)) =
        some (0, .call "M" ["1", "2"] 2) ∧ (a.1.module root).callAt? 0 = some 1 := by
    rw [ha, hf, ofSource_of_chars unseparatedSource rfl]
    decide +kernel
  exact ⟨f.1, a.1, a.2.1, by rw [← hf, ← hfind], by rw [← ha, ← hassemble], hbound⟩

end Pep10.Program
