import Pep10.Proofs.CallTermination
import Pep10.Proofs.Program.Rom
import Pep10.Proofs.Line.Listing

/-!
# The object code in the listing

The listing of a linked program and its object code go through the same lines: both walk down the
calls, to the same depth.  The digits in the code column of the listing are those of the object
code, in order (`codeColumns_listing`).  The ends of macros are not listed and have no code, and the
two lines that enclose a macro have an empty code column.
-/

namespace Pep10.Program

variable {p q : Program} {text : String} {kind : ModuleKind} {lib : MacroLibrary} {depth id index : Nat}
  {exports : Option (List ExportedSymbol)} {options : Options} {rootLine : Option Nat} {line : Line}
  {lines : List Line}

/-- The code of an expansion does not depend on the root line that it comes from. -/
lemma code_sitesFrom (rootLine : Option Nat) :
    (p.sitesFrom depth rootLine id).flatMap p.codeAt = (p.sitesFrom depth none id).flatMap p.codeAt := by
  have hplaces : ∀ sites : List Site, sites.flatMap p.codeAt =
      (sites.map Site.place).flatMap fun place => place.2.code p.symbols (p.inst place.1).table :=
    fun sites => by rw [List.flatMap_map]; rfl
  rw [hplaces, sitesFrom_places depth rootLine none id, ← hplaces]

/-- The code of some lines is that of each line, with the code of the instance that it calls. -/
lemma code_sitesOfLines : (p.sitesOfLines depth rootLine id index lines).flatMap p.codeAt =
    lines.flatMap fun line => line.code p.symbols (p.inst id).table ++
      match line.statement.target? with
      | some target => (p.sitesFrom depth none target).flatMap p.codeAt
      | none => [] := by
  induction lines generalizing index with
  | nil => rfl
  | cons line rest ih =>
    rw [sitesOfLines, List.flatMap_append, List.flatMap_cons, List.flatMap_cons, ih]
    refine congrArg (· ++ _) (congrArg (p.codeAt ⟨id, index, rootLine.getD line.number, line⟩ ++ ·) ?_)
    cases line.statement.target? with
    | none => rfl
    | some target => exact code_sitesFrom _

/-- A blank line shows nothing. -/
lemma shows_newline : Shows "\n" [] := fun _ => rfl

/-- A line is listed with its code, and a call with the code of the instance that it calls. -/
lemma shows_listingIn {listChild : Nat → String} {isRoot : Bool} {codeOfChild : Nat → List UInt8}
    (hsource : '\n' ∉ line.source.toList)
    (hchild : ∀ target, line.statement.target? = some target → Shows (listChild target) (codeOfChild target)) :
    Shows (line.listingIn listChild p.symbols (p.inst id) isRoot)
      (line.code p.symbols (p.inst id).table ++
        match line.statement.target? with
        | some target => codeOfChild target
        | none => []) := by
  have hlisted : Shows (line.listing (line.code p.symbols (p.inst id).table))
      (line.code p.symbols (p.inst id).table ++ []) := by
    rw [List.append_nil]
    exact line.shows_listing _ hsource
  have hnone : line.statement.bytes p.symbols (p.inst id).table = [] →
      line.code p.symbols (p.inst id).table = [] := by
    intro hbytes
    rw [Line.code, hbytes, ite_self]
  rw [Line.listingIn]
  cases hst : line.statement with
  | blank =>
    rw [hnone (by rw [hst]; rfl)]
    exact shows_newline
  | call name args target =>
    rw [hnone (by rw [hst]; rfl)]
    have hcalled := hchild target (by rw [hst]; rfl)
    have hall := ((shows_plainListing hsource).append hcalled).append
      (shows_plainListing (s := ";end macro") (by decide))
    rwa [List.append_nil] at hall
  | endMark =>
    cases isRoot with
    | true => exact hlisted
    | false =>
      rw [hnone (by rw [hst]; rfl)]
      exact .empty
  | _ => exact hlisted

/-- The listing of an instance shows the code of its expansion, if no line of it has a line feed. -/
lemma shows_listInstance (hsource : ∀ j, p.Reaches id j → ∀ line ∈ (p.inst j).lines, '\n' ∉ line.source.toList) :
    Shows (p.listInstance depth id) ((p.sitesFrom depth none id).flatMap p.codeAt) := by
  induction depth generalizing id with
  | zero => exact .empty
  | succ depth ih =>
    rw [sitesFrom_succ, code_sitesOfLines]
    refine Shows.join fun line hline => shows_listingIn (hsource id .refl line hline) fun target ht => ?_
    have hcall : p.Calls id target := List.mem_filterMap.2 ⟨line, hline, ht⟩
    exact ih fun j hj => hsource j (.head hcall hj)

/-- The root and the copies of a linked program have the lines of assembled instances, up to
addresses. -/
lemma Ready.exists_assembled (h : Ready text kind lib p) (hlink : p.link exports options = (q, []))
    (hid : id = root ∨ p.instances.size ≤ id ∧ id < q.instances.size) :
    ∃ t < p.instances.size, (p.inst t).assembled = true ∧
      (q.inst id).lines.map Line.shape = (p.inst t).lines.map Line.shape := by
  obtain ⟨l, lines, hlinks, hfinish⟩ := h.exists_links hlink
  by_cases hkind : kind = .operatingSystem
  · subst hkind
    obtain ⟨-, below, hrelocates⟩ := h.relocates hlinks hfinish
    rw [hrelocates.size_eq] at hid
    obtain ⟨t, ht, hdone, hshapes, -⟩ := h.exists_origin hlinks hid
    exact ⟨t, ht, hdone, (hrelocates.shapes id).1.trans hshapes⟩
  · rw [h.eq_of_finishLink hkind hlinks hfinish] at hid ⊢
    obtain ⟨t, ht, hdone, hshapes, -⟩ := h.exists_origin hlinks hid
    exact ⟨t, ht, hdone, hshapes⟩

/-- The lines of a linked program are copies of lines that have been read, so that their sources are
single lines. -/
lemma Linked.newline_not_mem_source (h : Linked text kind lib exports options q) (hreach : q.Reaches root id)
    (hline : line ∈ (q.inst id).lines) : '\n' ∉ line.source.toList := by
  obtain ⟨p₁, p, lib', hfind, hassemble, hlink⟩ := h
  have hready := ready_of_assemble hfind hassemble
  obtain ⟨t, ht, hdone, hshapes⟩ := hready.exists_assembled hlink
    ((hready.linked hlink).1.mem_of_reaches hreach)
  obtain ⟨read, hread, hshape⟩ := exists_shape_eq hshapes hline
  obtain ⟨n, source, hsource, _, marks, -, hreads⟩ := (hready.reads t ht hdone).exists_source hread
  rw [← Line.source_of_shape hshape]
  exact Reader.newline_not_mem_source (hready.newline_not_mem t ht source (List.mem_of_getElem? hsource)) hreads

/-- In the listing of a linked program, what is not blank in columns 6 to 11 of its lines, in order,
are the digits of the object code. -/
theorem codeColumns_listing (h : Linked text kind lib exports options q) :
    codeColumns q.listing.toList = (q.codeOf root).flatMap Text.byteDigits :=
  (shows_listInstance fun _ hreach _ hline => h.newline_not_mem_source hreach hline).codeColumns_eq

/-- A macro with a text of seven bytes that calls another macro. -/
def textLibrary : MacroLibrary :=
  ⟨[⟨"TEXT", 0, .user, "@TEXT 0\n.ASCII \"seven77\" ;ABCDEF\n\n@ONE 1\n.END\n"⟩,
    ⟨"ONE", 1, .user, "@ONE 1\n.BYTE $1\n.END\n"⟩]⟩

/-- A program whose comments hold digits, one of them behind as many blanks as the code in a
listing. -/
def textCallSource : String := "@TEXT ;123456\n;     FFFFFF\n.END\n"

/-- The text of the macro takes three lines of the listing, and the byte of the inner macro one. -/
theorem codeColumns_listing_text :
    ∃ p, Linked textCallSource .userProgram textLibrary none {} p ∧
      p.codeOf root = [0x73, 0x65, 0x76, 0x65, 0x6E, 0x37, 0x37, 0x01] ∧
      codeColumns p.listing.toList = "736576656E373701".toList := by
  obtain ⟨q, hq⟩ : ∃ q, q = throughPhases textCallSource .userProgram textLibrary none {} := ⟨_, rfl⟩
  obtain ⟨hreports, hcode⟩ : q.2 = [] ∧
      q.1.codeOf root = [0x73, 0x65, 0x76, 0x65, 0x6E, 0x37, 0x37, 0x01] := by
    rw [hq, throughPhases, ofSource_of_chars textCallSource rfl]
    decide +kernel
  have h : Linked textCallSource .userProgram textLibrary none {} q.1 := by
    subst hq
    exact linked_of_throughPhases hreports
  refine ⟨q.1, h, hcode, ?_⟩
  rw [codeColumns_listing h, hcode]
  decide

end Pep10.Program
