import Pep10.Proofs.MemoryImage
import Pep10.Proofs.Program.Publication
import Pep10.Proofs.Program.SystemCall

/-!
# The system calls of an operating system

An operating system offers its system calls as macros, and a user program that is linked against it
finds the symbol of a system call among the exports.  The macro is registered wherever the directive
stands, but the exports are those of the root: a system call that is offered in the body of a macro,
and that the root does not export, cannot be made unless the user program declares the symbol
itself.
-/

namespace Pep10

variable {options : Options} {lib lib' : MacroLibrary} {text source : String} {o : Output} {m : Macro}
  {call : SystemCall} {name : String}

/-- What a program exports: the values of the symbols that the root has been made to export. -/
lemma Output.mem_exports {e : ExportedSymbol} :
    e ∈ o.exports ↔ e.name ∈ (o.program.symbols.table o.program.rootTable).published ∧
      o.program.symbols.value? o.program.rootTable e.name = some e.value := by
  simp only [Output.exports, List.mem_filterMap, SymbolTable.mem_published]
  constructor
  · rintro ⟨s, hs, heq⟩
    split at heq
    next hexported =>
      obtain ⟨v, hv, rfl⟩ := Option.map_eq_some_iff.1 heq
      exact ⟨⟨s, hs, hexported, rfl⟩, hv⟩
    next => cases heq
  · rintro ⟨⟨s, hs, hexported, hname⟩, hv⟩
    refine ⟨s, hs, ?_⟩
    rw [if_pos hexported, hname, hv]
    rfl

namespace Program

variable {p q : Program} {exports : List ExportedSymbol}

/-- Putting commands on lines leaves the statements as they are. -/
lemma Retraced.exists_statement (h : Retraced p q) (j : Nat) (P : Statement → Prop) :
    (∃ line ∈ (q.inst j).lines, P line.statement) ↔ ∃ line ∈ (p.inst j).lines, P line.statement := by
  obtain ⟨lines, hinst, huntraced⟩ := h.inst_eq j
  have hstatements : lines.map Line.statement = (p.inst j).lines.map Line.statement := by
    have hmap := congrArg (List.map Line.statement) huntraced
    rwa [List.map_map, List.map_map] at hmap
  have hexists : ∀ lines : List Line,
      (∃ line ∈ lines, P line.statement) ↔ ∃ s ∈ lines.map Line.statement, P s := by
    simp
  rw [hinst, hexists, hexists, hstatements]

lemma mem_exports_output {e : ExportedSymbol} :
    e ∈ (q.output options).exports ↔ e.name ∈ (q.symbols.table q.rootTable).published ∧
      q.symbols.value? q.rootTable e.name = some e.value := by
  have hretraced := Retraced.annotate q
  have htable : q.annotate.1.rootTable = q.rootTable := hretraced.table_eq root
  rw [Output.mem_exports]
  change e.name ∈ (q.annotate.1.symbols.table q.annotate.1.rootTable).published ∧
    q.annotate.1.symbols.value? q.annotate.1.rootTable e.name = some e.value ↔ _
  rw [hretraced.symbols_eq, htable]

/-- A linked operating system exports the names that the lines of its root export: all of them have
values. -/
lemma Ready.exported_iff {p₁ : Program} (h : Ready text .operatingSystem lib p)
    (hfind : (ofSource text .operatingSystem).findIncludes lib = (p₁, []))
    (hassemble : p₁.assemble lib = (p, lib', [])) (hlink : p.link none options = (q, [])) :
    name ∈ (q.output options).exports.map ExportedSymbol.name ↔
      ∃ line ∈ (q.inst root).lines, line.statement.published? = some name := by
  have hpublished : name ∈ (q.symbols.table q.rootTable).published ↔
      ∃ line ∈ (q.inst root).lines, line.statement.published? = some name :=
    h.mem_published_of_link hlink hfind hassemble
  constructor
  · intro hmem
    obtain ⟨e, he, rfl⟩ := List.mem_map.1 hmem
    exact hpublished.1 (mem_exports_output.1 he).1
  · rintro ⟨line, hline, hname⟩
    obtain ⟨v, hvalue, -⟩ :=
      (h.linked hlink).2.denotes_root hline (Statement.symbol?_of_published? hname)
    exact List.mem_map.2 ⟨⟨name, v⟩, mem_exports_output.2 ⟨hpublished.2 ⟨line, hline, hname⟩, hvalue⟩, rfl⟩

/-- In a linked user program, an expansion of the macro of a system call begins with the load of a
symbol, and its value is exported by the operating system, or the name is not exported and the root
declares it. -/
lemma Linked.systemCall (h : Linked text .userProgram lib (some exports) options q) (hm : m.Makes call)
    {id : Nat} (hid : id ∈ q.reachable root)
    (hbody : (q.module (q.inst id).moduleId).lines = Text.lines m.body) :
    ∃ first rest v, (q.inst id).lines = first :: rest ∧
      first.statement = .nonunary .ldwt .immediate (.symbol m.name) ∧
      q.symbols.value? (q.inst id).table m.name = some v ∧
      (⟨m.name, v⟩ ∈ exports ∨ (∀ e ∈ exports, e.name ≠ m.name) ∧
        ∃ line ∈ (q.inst root).lines, line.label = some m.name) := by
  obtain ⟨p, l, lines, hready, hlinks, rfl⟩ := h.exists_links_user (by decide)
  have hpass := hready.firstPass hlinks
  have hown := (hpass.spans.mem_reachable_iff hready.root_lt).1 hid
  obtain ⟨t, ht, hdone, hshapes, hsource⟩ := hready.exists_origin hlinks hown
  have hreads := hready.reads t ht hdone
  rw [← hsource, sourceOf, hbody] at hreads
  obtain ⟨⟨first, rest, hlines, hfirst⟩, hlabels⟩ := hm.reads_shapes hreads hshapes
  obtain ⟨v, hvalue, hdenotes⟩ := (hready.resolved hlinks).denotes hown
    (hlines ▸ List.mem_cons_self) (hfirst ▸ rfl : first.statement.symbol? = some m.name)
  refine ⟨first, rest, v, hlines, hfirst, hvalue, ?_⟩
  rcases hdenotes with ⟨⟨line, hline, hlabel⟩, -⟩ | ⟨-, ⟨line, hline, hlabel⟩, -⟩ | ⟨-, -, hexported⟩
  · rw [hlabels line hline] at hlabel
    cases hlabel
  · obtain ⟨before, hbefore, hshape⟩ := exists_shape_eq hpass.root_shapes hline
    have hnone := (hready.prepared_root hlinks.single).2 before hbefore m.name
      (by rw [Line.label_of_shape hshape, hlabel])
    exact .inr ⟨exportedValue?_eq_none_iff.1 hnone, line, hline, hlabel⟩
  · exact .inl (mem_of_exportedValue? hexported)

end Program

open Program (root Linked Ready)

/-- Every system call that an operating system has registered when it has been built is offered by a
line of its expansion.  Its name is exported if the root itself offers it, and in general if and
only if a line of the root exports it.  In every user program that is linked against the operating
system, an expansion of the macro begins with the load of a symbol of that name, and the value is
the exported one, or the name is not exported and the root of the user program declares it. -/
theorem systemCall_exported_iff (h : buildSystem options lib source = (lib', .ok o)) (hm : m ∈ lib'.macros)
    (hkind : m.kind = .system) :
    (∃ id ∈ o.program.reachable root, ∃ line ∈ (o.program.inst id).lines, line.statement.Offers m) ∧
      ((∃ line ∈ (o.program.inst root).lines, line.statement.Offers m) →
        m.name ∈ o.exports.map ExportedSymbol.name) ∧
      (m.name ∈ o.exports.map ExportedSymbol.name ↔
        ∃ line ∈ (o.program.inst root).lines, line.statement.published? = some m.name) ∧
      ∀ {text libs options' q}, Linked text .userProgram libs (some o.exports) options' q →
        ∀ id ∈ q.reachable root, (q.module (q.inst id).moduleId).lines = Text.lines m.body →
          ∃ first rest v, (q.inst id).lines = first :: rest ∧
            first.statement = .nonunary .ldwt .immediate (.symbol m.name) ∧
            q.symbols.value? (q.inst id).table m.name = some v ∧
            (⟨m.name, v⟩ ∈ o.exports ∨ m.name ∉ o.exports.map ExportedSymbol.name ∧
              ∃ line ∈ (q.inst root).lines, line.label = some m.name) := by
  obtain ⟨p₁, p, q, hfind, hassemble, hlink, rfl⟩ := build_eq_ok h
  have hready := Program.ready_of_assemble hfind hassemble
  have hretraced := Program.Retraced.annotate q
  obtain ⟨id, hreach, line, hline, hoffers⟩ :
      ∃ id, p.Reaches root id ∧ ∃ line ∈ (p.inst id).lines, line.statement.Offers m := by
    refine (Program.offered_of_assemble hfind hassemble hm).resolve_left fun hold => ?_
    have hother := (List.mem_filter.1 hold).2
    rw [hkind] at hother
    cases hother
  have hexported := (hready.exported_iff hfind hassemble hlink).trans
    (hretraced.exists_statement root (·.published? = some m.name)).symm
  refine ⟨?_, ?_, hexported, ?_⟩
  · obtain ⟨j, hj, hshapes⟩ := hready.exists_copy_of_reaches hlink hreach
    obtain ⟨copied, hcopied, hshape⟩ := exists_shape_eq hshapes.symm hline
    refine ⟨j, ?_, (hretraced.exists_statement j (·.Offers m)).2 ⟨copied, hcopied, ?_⟩⟩
    · exact (Program.SameCalls.of_retraced hretraced).reachable_eq root ▸ hj
    · exact hoffers.of_shape (congrArg Line.statement hshape)
  · rintro ⟨line, hline, call, hcall, -⟩
    exact hexported.2 ⟨line, hline, Statement.published?_of_offered? hcall⟩
  · intro text libs options' q' hlinked id hid hbody
    obtain ⟨call, -, hmakes⟩ := hoffers
    obtain ⟨first, rest, v, hlines, hfirst, hvalue, hexported | ⟨hnone, hroot⟩⟩ :=
      hlinked.systemCall hmakes hid hbody
    · exact ⟨first, rest, v, hlines, hfirst, hvalue, .inl hexported⟩
    · refine ⟨first, rest, v, hlines, hfirst, hvalue, .inr ⟨fun hmem => ?_, hroot⟩⟩
      obtain ⟨e, he, hname⟩ := List.mem_map.1 hmem
      exact hnone e he hname

/-- The macro of a system call. -/
def getMacro : Macro := ⟨"GET", 2, .system, "@GET 2\nLDWT GET, i\nSCALL $1, $2\n.END\n"⟩

/-- A user program that makes the system call. -/
def getSource : String := "@GET 1, i\n.END\n"

/-- The system call that the root offers is exported, and the user program loads the exported
value. -/
theorem systemCall_exported_get :
    ∃ o q first rest,
      buildSystem {} {} ".SCALL GET\n.BURN 0x000F\nGET: SRET\n.END\n" = (⟨[getMacro]⟩, .ok o) ∧
        o.exports = [⟨"GET", 15⟩] ∧
        Linked getSource .userProgram ⟨[getMacro]⟩ (some o.exports) {} q ∧ 2 ∈ q.reachable root ∧
        (q.inst 2).lines = first :: rest ∧
        first.statement = .nonunary .ldwt .immediate (.symbol "GET") ∧
        q.symbols.value? (q.inst 2).table "GET" = some 15 := by
  obtain ⟨b, hb⟩ : ∃ b, b = buildSystem {} {} ".SCALL GET\n.BURN 0x000F\nGET: SRET\n.END\n" := ⟨_, rfl⟩
  obtain ⟨hlib, hexports⟩ : b.1 = ⟨[getMacro]⟩ ∧
      b.2.toOption.map Output.exports = some [⟨"GET", 15⟩] := by
    rw [hb]
    decide +kernel
  obtain ⟨lib', log | o⟩ := b
  · cases hexports
  cases hlib
  have hexports : o.exports = [⟨"GET", 15⟩] := Option.some.inj hexports
  obtain ⟨t, ht⟩ : ∃ t, t = Program.throughPhases getSource .userProgram ⟨[getMacro]⟩
    (some [⟨"GET", 15⟩]) {} := ⟨_, rfl⟩
  obtain ⟨hreports, hreachable, hbody⟩ : t.2 = [] ∧ 2 ∈ t.1.reachable root ∧
      (t.1.module (t.1.inst 2).moduleId).lines = Text.lines getMacro.body := by
    rw [ht, Program.throughPhases, Program.ofSource_of_chars getSource rfl]
    decide +kernel
  have hlinked := Program.linked_of_throughPhases (ht ▸ hreports)
  rw [← ht, ← hexports] at hlinked
  obtain ⟨-, -, -, hcalls⟩ := systemCall_exported_iff hb.symm List.mem_cons_self rfl
  obtain ⟨first, rest, v, hlines, hfirst, hvalue, hmem | ⟨hnone, -⟩⟩ :=
    hcalls hlinked 2 hreachable hbody
  · rw [hexports] at hmem
    cases List.mem_singleton.1 hmem
    exact ⟨o, t.1, first, rest, hb.symm, hexports, hlinked, hreachable, hlines, hfirst, hvalue⟩
  · rw [hexports] at hnone
    exact absurd List.mem_cons_self hnone

/-- A macro that offers the system call. -/
def offerMacro : Macro := ⟨"OFFER", 0, .user, "@OFFER 0\n.SCALL GET\n.END\n"⟩

/-- A system call that is offered in the body of a macro is registered but not exported, and a user
program that makes it cannot be built. -/
theorem systemCall_not_exported :
    ∃ lib' o, buildSystem {} ⟨[offerMacro]⟩ "@OFFER\n.BURN 0x000F\nGET: SRET\n.END\n" = (lib', .ok o) ∧
      getMacro ∈ lib'.macros ∧ o.exports = [] ∧
      ∃ log, buildUser {} lib' getSource (some o) = (lib', .error log) := by
  obtain ⟨b, hb⟩ : ∃ b, b = buildSystem {} ⟨[offerMacro]⟩ "@OFFER\n.BURN 0x000F\nGET: SRET\n.END\n" :=
    ⟨_, rfl⟩
  obtain ⟨hlib, hexports⟩ : b.1 = ⟨[offerMacro, getMacro]⟩ ∧
      b.2.toOption.map Output.exports = some [] := by
    rw [hb]
    decide +kernel
  obtain ⟨lib', log | o⟩ := b
  · cases hexports
  cases hlib
  have hexports : o.exports = [] := Option.some.inj hexports
  refine ⟨_, o, hb.symm, List.mem_cons_of_mem _ List.mem_cons_self, hexports, ?_⟩
  rw [buildUser, Option.map_some, hexports]
  obtain ⟨u, hu⟩ : ∃ u, u = build {} ⟨[offerMacro, getMacro]⟩ .userProgram getSource (some []) := ⟨_, rfl⟩
  obtain ⟨hsame, hfails⟩ : u.1 = ⟨[offerMacro, getMacro]⟩ ∧ u.2.toOption.isNone := by
    rw [hu, build, Program.ofSource_of_chars getSource rfl]
    decide +kernel
  obtain ⟨_, log | o'⟩ := u
  · cases hsame
    exact ⟨log, hu.symm⟩
  · cases hfails

end Pep10
