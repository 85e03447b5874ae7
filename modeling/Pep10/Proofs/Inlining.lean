import Pep10.Proofs.Program.Inlining

/-!
# Macro expansion is inlining

A linked user program whose macros declare no symbols can be written without calls: the text in
which every call is replaced by the lines that it stands for goes through all phases as well, and
has the same object code.
-/

namespace Pep10

/-! ### Values -/

section Code

variable {line : Line} {v v' : UInt16}

/-- A line with an address gives one value to its label. -/
lemma Line.Gives.unique (h : line.Gives v) (h' : line.Gives v') {a : UInt16} (ha : line.address = some a) :
    v = v' := by
  cases hst : line.statement.isEquate with
  | true =>
    obtain ⟨operand, hoperand⟩ := Line.exists_of_isEquate hst
    rw [(Line.gives_of_isEquate hoperand).1 h, (Line.gives_of_isEquate hoperand).1 h']
  | false => rw [(Line.gives_of_not_isEquate hst).1 h a ha, (Line.gives_of_not_isEquate hst).1 h' a ha]

end Code

namespace Program

open Linker (Links)

variable {p q : Program} {lib : MacroLibrary} {text : String} {kind : ModuleKind} {id depth : Nat}
  {exports : Option (List ExportedSymbol)} {options : Options} {l : Linker} {lines : List Line} {site : Site}

/-! ### Where sites come from -/

/-- A site of an instance belongs to an instance that can be reached, and is a line of it. -/
lemma reaches_of_mem_sitesFrom {rootLine : Option Nat} (h : site ∈ p.sitesFrom depth rootLine id) :
    p.Reaches id site.owner ∧ site.line ∈ (p.inst site.owner).lines := by
  induction depth generalizing rootLine id with
  | zero => cases h
  | succ depth ih =>
    rw [sitesFrom, List.mem_flatMap] at h
    obtain ⟨⟨line, index⟩, hline, h⟩ := h
    have hmem : line ∈ (p.inst id).lines := List.fst_mem_of_mem_zipIdx hline
    rcases List.mem_cons.1 h with rfl | h
    · exact ⟨.refl, hmem⟩
    · cases hst : line.statement with
      | call name args target =>
        rw [hst] at h
        obtain ⟨hreach, hsite⟩ := ih h
        exact ⟨.head (List.mem_filterMap.2 ⟨line, hmem, by rw [hst]; rfl⟩) hreach, hsite⟩
      | _ =>
        rw [hst] at h
        cases h

/-- Every instance of an interval is called from its lines, directly or not. -/
lemma Spans.exists_reaches {lo hi j : Nat} (h : Spans p lo lines hi) (hlo : lo ≤ j) (hhi : j < hi) :
    ∃ line ∈ lines, ∃ t, line.statement.target? = some t ∧ p.Reaches t j := by
  induction h with
  | nil => omega
  | plain _ _ ih =>
    obtain ⟨line, hline, hcall⟩ := ih hlo hhi
    exact ⟨line, List.mem_cons_of_mem _ hline, hcall⟩
  | @call lo mid hi first rest hfirst _ _ ihbody ihrest =>
    rcases Nat.lt_or_ge j mid with hmid | hmid
    · refine ⟨first, List.mem_cons_self, lo, hfirst, ?_⟩
      rcases Nat.eq_or_lt_of_le hlo with rfl | hlt
      · exact .refl
      · obtain ⟨line, hline, t, ht, hreach⟩ := ihbody hlt hmid
        exact .head (List.mem_filterMap.2 ⟨line, hline, ht⟩) hreach
    · obtain ⟨line, hline, hcall⟩ := ihrest hmid hhi
      exact ⟨line, List.mem_cons_of_mem _ hline, hcall⟩

/-- The source of a line of a linked user program is read as a line of its shape. -/
lemma Ready.reads_sourceAt (h : Ready text .userProgram lib p)
    (hlinks : Links (Linker.start p exports).program root root (Linker.start p exports)
      (p.inst root).lines l lines) (hreach : (l.store root lines).program.Reaches root id) {line : Line}
    (hline : line ∈ ((l.store root lines).program.inst id).lines) :
    ∃ ctx number marks read, ctx.isSystem = false ∧ read.shape = line.shape ∧
      Reader.line ctx number (tokenize ((l.store root lines).program.sourceAt id line)) =
        ⟨marks, .ok read⟩ := by
  obtain ⟨t, ht, hdone, hshapes, hsource⟩ := h.exists_origin hlinks
    ((h.firstPass hlinks).spans.mem_of_reaches hreach)
  obtain ⟨read, hread, hshape⟩ := exists_shape_eq hshapes hline
  obtain ⟨n, source, hn, lib', marks, -, hreads⟩ := (h.reads t ht hdone).exists_source hread
  have hnumber : line.number = n := by
    have hyields := Reader.line_yields hreads
    rw [← Line.number_shape, ← hshape, Line.number_shape, hyields.number_eq, Nat.zero_add]
  refine ⟨p.readContext lib', 0 + n, marks, read, ?_, hshape, ?_⟩
  · change p.isSystem = false
    rw [isSystem, h.root_kind]
    rfl
  · rw [sourceAt, hsource, hnumber, List.getD_eq_getElem?_getD, hn]
    exact hreads

/-- What is left of a site is read as such. -/
lemma Ready.readsAs (h : Ready text .userProgram lib p)
    (hlinks : Links (Linker.start p exports).program root root (Linker.start p exports)
      (p.inst root).lines l lines) (hsite : site ∈ (l.store root lines).program.sites root)
    {source : String} {line : Line}
    (hleft : (l.store root lines).program.inlined? site = some (source, line)) : ReadsAs source line := by
  obtain ⟨hreach, hline⟩ := reaches_of_mem_sitesFrom hsite
  obtain ⟨ctx, number, marks, read, hsystem, hshape, hread⟩ := h.reads_sourceAt hlinks hreach hline
  have hinlines := (l.store root lines).program.inlines site
  rw [hleft] at hinlines
  cases hinlines with
  | kept htarget _ =>
    have htarget' := Line.target?_of_shape hshape.symm htarget
    exact ⟨read, hshape, htarget', fun ctx' number' hsystem' =>
      ⟨marks, Reader.line_congr hsystem hsystem' hread htarget'⟩⟩
  | @marked _ name _ _ _ hlabel =>
    obtain ⟨hname, hlength⟩ := label_of_line hread (by rw [Line.label_of_shape hshape, hlabel])
    exact ⟨marker site.line.number name, rfl, rfl, fun ctx' number' _ =>
      ⟨[.declare name], line_markerSource hname hlength⟩⟩

/-- What is left of a site holds no line feed. -/
lemma Ready.newline_not_mem_left (h : Ready text .userProgram lib p)
    (hlinks : Links (Linker.start p exports).program root root (Linker.start p exports)
      (p.inst root).lines l lines) (hsite : site ∈ (l.store root lines).program.sites root)
    {source : String} {line : Line}
    (hleft : (l.store root lines).program.inlined? site = some (source, line)) : '\n' ∉ source.toList := by
  obtain ⟨hreach, hline⟩ := reaches_of_mem_sitesFrom hsite
  have hinlines := (l.store root lines).program.inlines site
  rw [hleft] at hinlines
  cases hinlines with
  | kept =>
    obtain ⟨t, ht, -, -, hsource⟩ := h.exists_origin hlinks
      ((h.firstPass hlinks).spans.mem_of_reaches hreach)
    rw [sourceAt, hsource, List.getD_eq_getElem?_getD]
    cases hget : (p.sourceOf t)[site.line.number]? with
    | none => exact List.not_mem_nil
    | some source => exact h.newline_not_mem t ht source (List.mem_of_getElem? hget)
  | @marked _ name _ _ _ hlabel =>
    obtain ⟨ctx, number, marks, read, -, hshape, hread⟩ := h.reads_sourceAt hlinks hreach hline
    obtain ⟨hname, -⟩ := label_of_line hread (by rw [Line.label_of_shape hshape, hlabel])
    rw [markerSource, String.toList_append, List.mem_append, not_or]
    exact ⟨Text.newline_not_mem_of_isNameRest (Text.isNameRest_of_mem hname), by decide +kernel⟩

/-- A carriage return at the end of a line is blank. -/
lemma tokenize_dropReturn (source : String) :
    tokenize (String.ofList (Text.dropReturn source.toList)) = tokenize source := by
  unfold Text.dropReturn
  split
  next hlast =>
    obtain ⟨before, hbefore⟩ := List.getLast?_eq_some_iff.1 hlast
    have hreturn : ∀ c ∈ ['\r'], Text.isBlank c = true := List.forall_mem_singleton.2 rfl
    rw [tokenize, tokenize, String.toList_ofList, hbefore, List.dropLast_concat,
      Text.trim_append_blanks hreturn]
  next => rw [String.ofList_toList]

lemma ReadsAs.dropReturn {source : String} {line : Line} (h : ReadsAs source line) :
    ReadsAs (String.ofList (Text.dropReturn source.toList)) line := by
  rwa [ReadsAs, tokenize_dropReturn]

/-- The text with calls written out is read as what is left of the sites. -/
lemma Ready.reads_inlinedSource (h : Ready text .userProgram lib p)
    (hlinks : Links (Linker.start p exports).program root root (Linker.start p exports)
      (p.inst root).lines l lines) :
    List.Forall₂ ReadsAs (Text.lines (l.store root lines).program.inlinedSource)
      ((l.store root lines).program.inlinedLines ((l.store root lines).program.sites root)) := by
  have hleft : (l.store root lines).program.inlineInstance (l.store root lines).program.instances.size root =
      (((l.store root lines).program.sites root).filterMap (l.store root lines).program.inlined?).map
        Prod.fst := inlineInstance_eq _ none root
  have hnewline : ∀ source ∈ (l.store root lines).program.inlineInstance
      (l.store root lines).program.instances.size root, '\n' ∉ source.toList := by
    rw [hleft]
    intro source hsource
    obtain ⟨⟨_, line⟩, hmem, rfl⟩ := List.mem_map.1 hsource
    obtain ⟨site, hsite, hsome⟩ := List.mem_filterMap.1 hmem
    exact h.newline_not_mem_left hlinks hsite hsome
  rw [inlinedSource, Text.lines_ofLines hnewline, hleft, inlinedLines, List.map_map,
    List.forall₂_map_left_iff, List.forall₂_map_right_iff, List.forall₂_same]
  rintro ⟨source, line⟩ hmem
  obtain ⟨site, hsite, hsome⟩ := List.mem_filterMap.1 hmem
  exact (h.readsAs hlinks hsite hsome).dropReturn

/-! ### The lines of the text -/

/-- Of instances without labels, nothing shows in the labels of an expansion. -/
lemma Spans.labels_sites {lo hi index : Nat} {rootLine : Option Nat} (h : Spans p lo lines hi)
    (hdepth : hi - lo ≤ depth)
    (hnone : ∀ j, lo ≤ j → j < hi → ∀ line ∈ (p.inst j).lines, line.label = none) :
    ((p.sitesOfLines depth rootLine id index lines).map Site.line).filterMap Line.label =
      lines.filterMap Line.label := by
  induction h generalizing depth rootLine id index with
  | nil => rfl
  | plain hline _ ih =>
    rw [sitesOfLines_plain hline, List.map_cons, List.filterMap_cons, ih hdepth hnone, List.filterMap_cons]
  | @call lo mid hi line rest hline hbody hrest _ ihrest =>
    have h1 := hbody.le
    have h2 := hrest.le
    obtain ⟨depth, rfl⟩ : ∃ d, depth = d + 1 := ⟨depth - 1, by omega⟩
    have hempty : ((p.sitesOfLines depth (some (rootLine.getD line.number)) lo 0 (p.inst lo).lines).map
        Site.line).filterMap Line.label = [] := by
      rw [List.filterMap_eq_nil_iff]
      intro inner hinner
      obtain ⟨site, hsite, rfl⟩ := List.mem_map.1 hinner
      rcases hbody.mem_sites (by omega) hsite with ⟨-, hmem⟩ | ⟨hlo, hhi, hmem⟩
      · exact hnone lo (Nat.le_refl _) (by omega) _ hmem
      · exact hnone _ (by omega) (by omega) _ hmem
    rw [sitesOfLines_call hline, List.map_cons, List.filterMap_cons, List.map_append, List.filterMap_append,
      hempty, List.nil_append, ihrest (by omega) fun j hj hj' => hnone j (by omega) hj', List.filterMap_cons]

lemma exists_last_of_shapes {lines' : List Line} (hshapes : lines'.map Line.shape = lines.map Line.shape)
    (h : ∃ (before : List Line) (last : Line), lines = before ++ [last] ∧
      (∀ line ∈ before, line.statement ≠ .endMark) ∧ last.statement = .endMark) :
    ∃ (before : List Line) (last : Line), lines' = before ++ [last] ∧
      (∀ line ∈ before, line.statement ≠ .endMark) ∧ last.statement = .endMark := by
  obtain ⟨before, last, rfl, hbefore, hlast⟩ := h
  rw [List.map_append, List.map_eq_append_iff] at hshapes
  obtain ⟨before', tail, rfl, hb, ht⟩ := hshapes
  obtain ⟨last', rfl, hl⟩ := List.map_eq_singleton_iff.1 ht
  refine ⟨before', last', rfl, ?_, (Line.endMark_iff_of_shape hl).2 hlast⟩
  exact forall_of_shapes (fun hshape hne heq => hne ((Line.endMark_iff_of_shape hshape).2 heq)) hb hbefore

lemma mem_inlinedLines {sites : List Site} {line : Line} : line ∈ p.inlinedLines sites ↔
    ∃ site ∈ sites, ∃ source, p.inlined? site = some (source, line) := by
  simp only [inlinedLines, List.mem_map, List.mem_filterMap, Prod.exists, exists_eq_right]
  constructor
  · rintro ⟨source, site, hsite, hleft⟩
    exact ⟨site, hsite, source, hleft⟩
  · rintro ⟨site, hsite, source, hleft⟩
    exact ⟨source, site, hsite, hleft⟩

/-- The sites of a program whose calls lead upwards end with the last line of the root. -/
lemma Spans.sites_eq_append {lo : Nat} (h : Spans q lo (q.inst root).lines q.instances.size)
    (hlo : root < lo) {before : List Line} {last : Line} (hlines : (q.inst root).lines = before ++ [last])
    (hlast : last.statement.target? = none) :
    ∃ (sites : List Site) (final : Site), q.sites root = sites ++ [final] ∧ final.owner = root ∧
      final.line = last ∧ ∀ site ∈ sites, site.owner = root → site.line ∈ before := by
  obtain ⟨depth, hdepth, hsites⟩ := h.sites_eq hlo
  have hspans := h
  rw [hlines] at hspans
  obtain ⟨mid, hbefore, hafter⟩ := hspans.exists_of_append
  have hmid := hafter.le
  rw [hlines, sitesOfLines_append, sitesOfLines_plain hlast] at hsites
  refine ⟨_, _, hsites, rfl, rfl, fun site hsite howner => ?_⟩
  rcases hbefore.mem_sites (by omega) hsite with ⟨-, hmem⟩ | ⟨hlo', -, -⟩
  · exact hmem
  · omega

section Linked

variable (h : Ready text .userProgram lib p)
  (hlinks : Links (Linker.start p exports).program root root (Linker.start p exports)
    (p.inst root).lines l lines)

include h hlinks

/-- A site belongs to the root or to a copy. -/
lemma Ready.site_cases (hsite : site ∈ (l.store root lines).program.sites root) :
    (l.store root lines).program.Reaches root site.owner ∧
      site.line ∈ ((l.store root lines).program.inst site.owner).lines ∧
      (site.owner = root ∨ (p.instances.size ≤ site.owner ∧
        site.owner < (l.store root lines).program.instances.size)) := by
  obtain ⟨hreach, hline⟩ := reaches_of_mem_sitesFrom hsite
  exact ⟨hreach, hline, (h.firstPass hlinks).spans.mem_of_reaches hreach⟩

/-- What can be said of every line at a site. -/
lemma Ready.site_yields (hsite : site ∈ (l.store root lines).program.sites root) :
    (site.line.label.isSome = true → site.line.statement.isAddressable = true) ∧
      (site.line.statement = .endMark → site.line.label = none) := by
  obtain ⟨hreach, hline, -⟩ := h.site_cases hlinks hsite
  obtain ⟨ctx, number, marks, read, -, hshape, hread⟩ := h.reads_sourceAt hlinks hreach hline
  have hyields := Reader.line_yields hread
  rw [← Line.label_of_shape hshape, ← Line.endMark_iff_of_shape hshape]
  refine ⟨fun hlabel => ?_, hyields.unlabelled⟩
  have hst : read.statement.shape = site.line.statement.shape := congrArg Line.statement hshape
  rw [← Statement.isAddressable_shape, ← hst, Statement.isAddressable_shape]
  exact hyields.addressable hlabel

variable (hnone : ∀ j, p.instances.size ≤ j → j < (l.store root lines).program.instances.size →
  ∀ line ∈ ((l.store root lines).program.inst j).lines, line.label = none)

include hnone

/-- The labels that are left are those of the root. -/
lemma Ready.labels_left :
    ((l.store root lines).program.inlinedLines ((l.store root lines).program.sites root)).filterMap Line.label =
      p.labels root := by
  have hpass := h.firstPass hlinks
  obtain ⟨depth, hdepth, hsites⟩ := hpass.spans.sites_eq h.root_lt
  rw [labels_inlinedLines fun site hsite => (h.site_yields hlinks hsite).2, hsites,
    hpass.spans.labels_sites hdepth hnone, labels_of_shapes hpass.root_shapes]
  rfl

/-- An operand at a site is declared by the root, or exported. -/
lemma Ready.denotes_site (hsite : site ∈ (l.store root lines).program.sites root) {name : String}
    (hname : site.line.statement.symbol? = some name) :
    ∃ v, (l.store root lines).program.symbols.value?
        ((l.store root lines).program.inst site.owner).table name = some v ∧
      (DeclaredAs ((l.store root lines).program.inst root).lines name v ∨
        (Undeclared ((l.store root lines).program.inst root).lines name ∧
          exportedValue? (availableExports .userProgram exports) name = some v)) := by
  have hresolved := h.resolved hlinks
  obtain ⟨-, hline, howner⟩ := h.site_cases hlinks hsite
  rcases howner with howner | ⟨hlo, hhi⟩
  · rw [howner] at hline ⊢
    obtain ⟨v, hv, hdecl | ⟨-, hdecl⟩ | ⟨-, hundecl, hexport⟩⟩ := hresolved.denotes_root hline hname
    · exact ⟨v, hv, .inl hdecl⟩
    · exact ⟨v, hv, .inl hdecl⟩
    · exact ⟨v, hv, .inr ⟨hundecl, hexport⟩⟩
  · obtain ⟨v, hv, ⟨⟨other, hother, hlabel⟩, -⟩ | ⟨-, hdecl⟩ | ⟨-, hundecl, hexport⟩⟩ :=
      hresolved.denotes_copy hlo hhi hline hname
    · rw [hnone _ hlo hhi other hother] at hlabel
      cases hlabel
    · exact ⟨v, hv, .inl hdecl⟩
    · exact ⟨v, hv, .inr ⟨hundecl, hexport⟩⟩

/-- What is left of a linked user program whose macros declare nothing is laid out like a program of
its own. -/
lemma Ready.laidOut {rank : Nat → Nat} (hdescends : p.Descends rank) :
    LaidOut (availableExports .userProgram exports)
      ((l.store root lines).program.inlinedLines ((l.store root lines).program.sites root)) := by
  have hpass := h.firstPass hlinks
  have hlinkable := h.linkable hdescends hlinks
  have hlabels := h.labels_left hlinks hnone
  have hroot : ((l.store root lines).program.inst root).lines.filterMap Line.label = p.labels root :=
    labels_of_shapes hpass.root_shapes
  obtain ⟨e, hexpands, hcont, hnext⟩ := hpass.placed
  rw [hexpands.unique (hpass.expands_sites h.root_lt)] at hcont hnext
  obtain ⟨hcont', hroom⟩ := contiguous_inlinedLines (p := (l.store root lines).program) hcont
  refine ⟨?_, hcont', ?_, ?_, ?_, ?_, ?_⟩
  · obtain ⟨before, last, hlines, hbefore, hlast⟩ := exists_last_of_shapes hpass.root_shapes
      (h.reads root h.root_lt h.root_assembled).exists_last
    obtain ⟨sites, final, hsites, howner, hfinal, hmem⟩ := hpass.spans.sites_eq_append h.root_lt hlines
      (by rw [hlast]; rfl)
    have hleft : (l.store root lines).program.inlined? final =
        some ((l.store root lines).program.sourceAt final.owner final.line, final.line) := by
      rw [inlined?, hfinal, hlast, howner]
      rfl
    refine ⟨(l.store root lines).program.inlinedLines sites, last, ?_, fun line hline hend => ?_, hlast⟩
    · rw [hsites, inlinedLines, List.filterMap_append, List.map_append, List.filterMap_cons_some hleft, hfinal]
      rfl
    · obtain ⟨site, hsite, source, hsome⟩ := mem_inlinedLines.1 hline
      have hinlines := (l.store root lines).program.inlines site
      rw [hsome] at hinlines
      cases hinlines with
      | kept _ hroot => exact hbefore _ (hmem site hsite (hroot hend)) hend
      | marked => cases hend
  · rw [hroom, ← hnext]
    exact hpass.next_le
  · intro line hline
    obtain ⟨site, hsite, source, hsome⟩ := mem_inlinedLines.1 hline
    have hinlines := (l.store root lines).program.inlines site
    rw [hsome] at hinlines
    cases hinlines with
    | kept =>
      obtain ⟨-, hmem, howner⟩ := h.site_cases hlinks hsite
      rw [Linker.size_store] at howner
      exact h.emits_pass hlinks howner _ hmem
    | marked => rfl
  · rw [hlabels]
    exact hlinkable.nodup root .refl
  · intro name hname
    rw [hlabels] at hname
    exact exportedValue?_eq_none_iff.2 fun e he heq => hlinkable.unexported e he (heq ▸ hname)
  · intro line hline name hname
    obtain ⟨site, hsite, source, hsome⟩ := mem_inlinedLines.1 hline
    have hinlines := (l.store root lines).program.inlines site
    rw [hsome] at hinlines
    cases hinlines with
    | kept =>
      obtain ⟨v, -, ⟨hdecl, -⟩ | ⟨-, hexport⟩⟩ := h.denotes_site hlinks hnone hsite hname
      · rw [hlabels, ← hroot]
        exact .inl (List.mem_filterMap.2 hdecl)
      · exact .inr ⟨v, hexport⟩
    | marked => cases hname

omit hnone in
/-- A labelled site leaves a line with its label, which gives the label the same value. -/
lemma Ready.exists_left (hsite : site ∈ (l.store root lines).program.sites root) {name : String}
    (hlabel : site.line.label = some name) :
    ∃ line ∈ (l.store root lines).program.inlinedLines ((l.store root lines).program.sites root),
      line.label = some name ∧ line.statement.isAddressable = true ∧
        ∀ v, site.line.Gives v → line.Gives v := by
  obtain ⟨haddressable, hend⟩ := h.site_yields hlinks hsite
  have hinlines := (l.store root lines).program.inlines site
  rcases hleft : (l.store root lines).program.inlined? site with _ | ⟨source, line⟩
  · rw [hleft] at hinlines
    cases hinlines with
    | call _ hnone => rw [hlabel] at hnone; cases hnone
    | endMark hmark _ => rw [hlabel] at hend; cases hend hmark
  · refine ⟨line, mem_inlinedLines.2 ⟨site, hsite, source, hleft⟩, ?_⟩
    rw [hleft] at hinlines
    cases hinlines with
    | kept => exact ⟨hlabel, haddressable (by rw [hlabel]; rfl), fun v hv => hv⟩
    | @marked _ other _ _ hcall hother =>
      obtain rfl : other = name := Option.some.inj (hother.symm.trans hlabel)
      refine ⟨rfl, rfl, fun v hv => ?_⟩
      rwa [Line.gives_of_not_isEquate (by rw [hcall]; rfl)] at hv

/-- An operand at a site has the value that it denotes among the lines that are left. -/
lemma Ready.value_left {rank : Nat → Nat} (hdescends : p.Descends rank)
    (hsite : site ∈ (l.store root lines).program.sites root) {name : String}
    (hname : site.line.statement.symbol? = some name) {v : UInt16}
    (hdenotes : Denotes
      ((l.store root lines).program.inlinedLines ((l.store root lines).program.sites root))
      ((l.store root lines).program.inlinedLines ((l.store root lines).program.sites root))
      (availableExports .userProgram exports) name v) :
    (l.store root lines).program.symbols.value?
      ((l.store root lines).program.inst site.owner).table name = some v := by
  have hpass := h.firstPass hlinks
  have hlaid := h.laidOut hlinks hnone hdescends
  obtain ⟨w, hw, hcase⟩ := h.denotes_site hlinks hnone hsite hname
  obtain rfl : w = v := by
    rcases hcase with ⟨⟨other, hother, hlabel⟩, hgives⟩ | ⟨hundecl, hexport⟩
    · obtain ⟨site', hsite', rfl⟩ := List.mem_map.1 ((hpass.expands_sites h.root_lt).mem hother)
      obtain ⟨line, hline, hlabel', haddressable, hsame⟩ := h.exists_left hlinks hsite' hlabel
      obtain ⟨a, ha⟩ := hlaid.contiguous.exists_address (Int.le_refl 0) (by have := hlaid.room_le; omega)
        hline haddressable
      have hv : line.Gives v := by
        rcases hdenotes with hdecl | ⟨hundecl, -⟩ | ⟨hundecl, -⟩
        · exact hdecl.2 line hline hlabel'
        · exact absurd hlabel' (hundecl line hline)
        · exact absurd hlabel' (hundecl line hline)
      exact (hsame w (hgives _ hother hlabel)).unique hv ha
    · have hnot : ¬∃ line ∈ (l.store root lines).program.inlinedLines
          ((l.store root lines).program.sites root), line.label = some name := by
        rintro ⟨line, hline, hlabel⟩
        have hmem : name ∈ p.labels root := by
          rw [← h.labels_left hlinks hnone]
          exact List.mem_filterMap.2 ⟨line, hline, hlabel⟩
        rw [labels, ← labels_of_shapes hpass.root_shapes] at hmem
        obtain ⟨other, hother, hlabel'⟩ := List.mem_filterMap.1 hmem
        exact hundecl other hother hlabel'
      rcases hdenotes with hdecl | ⟨-, hdecl⟩ | ⟨-, -, hexport'⟩
      · exact absurd hdecl.1 hnot
      · exact absurd hdecl.1 hnot
      · exact Option.some.inj (hexport.symm.trans hexport')
  exact hw

end Linked

/-- The code of the lines that are left is that of the sites, if operands have the same values. -/
lemma code_inlinedLines {sites : List Site} {s : SymbolStore} {table : Nat}
    (h : ∀ site ∈ sites, ∀ source, q.inlined? site = some (source, site.line) →
      ∀ name, site.line.statement.symbol? = some name →
        s.value? table name = q.symbols.value? (q.inst site.owner).table name) :
    (q.inlinedLines sites).flatMap (Line.code s table) = sites.flatMap q.codeAt := by
  induction sites with
  | nil => rfl
  | cons site sites ih =>
    rw [List.forall_mem_cons] at h
    have hinlines := q.inlines site
    rw [List.flatMap_cons]
    rcases hleft : q.inlined? site with _ | ⟨source, line⟩
    · have hcode : q.codeAt site = [] := by
        rw [hleft] at hinlines
        cases hinlines with
        | call hcall => simp [codeAt, Line.code, hcall, Statement.bytes]
        | endMark hend => simp [codeAt, Line.code, hend, Statement.bytes]
      rw [inlinedLines_cons_none hleft, ih h.2, hcode, List.nil_append]
    · have hcode : line.code s table = q.codeAt site := by
        have hvalues := h.1 source
        rw [hleft] at hinlines hvalues
        cases hinlines with
        | kept => exact Line.code_congr (hvalues rfl)
        | marked hcall =>
          simp [codeAt, Line.code, hcall, Statement.bytes, marker, Operand.value, Operand.constant]
      rw [inlinedLines_cons_some hleft, List.flatMap_cons, hcode, ih h.2]

/-! ### The result -/

/-- A user program that goes through all phases, and whose macros declare no symbols where they are
expanded, can be written without calls: the text in which calls are replaced by the lines that they
stand for goes through all phases against the same exports, and has the same object code. -/
theorem Linked.codeOf_inlinedSource (h : Linked text .userProgram lib exports options q)
    (hlabels : ∀ id, q.Reaches root id → id ≠ root → ∀ line ∈ (q.inst id).lines, line.label = none) :
    ∃ q', Linked q.inlinedSource .userProgram lib exports options q' ∧ q'.codeOf root = q.codeOf root := by
  obtain ⟨p₁, p, lib', hfind, hassemble, hlink⟩ := h
  have hready := ready_of_assemble hfind hassemble
  obtain ⟨rank, hdescends⟩ := descends_of_assemble hfind hassemble
  obtain ⟨l₀, hpass₀, -⟩ := link_eq_nil hlink
  obtain ⟨l, lines, hlinks, -⟩ := hready.links hpass₀
  obtain rfl : q = (l.store root lines).program := by
    rw [hready.link_eq options hlinks] at hlink
    exact (Prod.mk.inj hlink).1.symm
  have hpass := hready.firstPass hlinks
  have hnone : ∀ j, p.instances.size ≤ j → j < (l.store root lines).program.instances.size →
      ∀ line ∈ ((l.store root lines).program.inst j).lines, line.label = none := by
    intro j hlo hhi
    obtain ⟨line, hline, t, ht, hreach⟩ := hpass.spans.exists_reaches hlo hhi
    exact hlabels j (.of_line hline ht hreach) (Nat.ne_of_gt (Nat.lt_of_lt_of_le hready.root_lt hlo))
  have hlaid := hready.laidOut hlinks hnone hdescends
  obtain ⟨q', hlinked, hcode, hvalues⟩ := hlaid.linked (hready.reads_inlinedSource hlinks) lib options
  refine ⟨q', hlinked, ?_⟩
  rw [hcode, codeOf]
  refine code_inlinedLines fun site hsite source hleft name hname => ?_
  obtain ⟨v, hv, hdenotes⟩ := hvalues _ (mem_inlinedLines.2 ⟨site, hsite, source, hleft⟩) name hname
  rw [hv, hready.value_left hlinks hnone hdescends hsite hname hdenotes]

/-- Macros without labels, one of which calls the other. -/
def layerLibrary : MacroLibrary :=
  ⟨[⟨"INNER", 1, .user, "@INNER 1\nLDWA $1,i\n.ALIGN 2\n.END\n"⟩,
    ⟨"OUTER", 0, .user, "@OUTER 0\n@INNER k\n  ; remark\n.BYTE 1\n.END\n"⟩]⟩

/-- A program with a labelled call, whose label and an exported symbol are arguments elsewhere. -/
def layerSource : String := "k: .EQUATE 5\nx: @OUTER\n@INNER x\n@INNER port\n.END\n"

/-- The program with its calls written out. -/
def layerSourceInlined : String :=
  "k: .EQUATE 5\nx: .BLOCK 0\nLDWA k,i\n.ALIGN 2\n  ; remark\n.BYTE 1\n" ++
    "LDWA x,i\n.ALIGN 2\nLDWA port,i\n.ALIGN 2\n.END\n"

/-- The text and the object code of a program with its calls written out. -/
theorem codeOf_inlinedSource_layer :
    ∃ q, Linked layerSource .userProgram layerLibrary (some [⟨"port", 0x100⟩]) {} q ∧
      q.inlinedSource = layerSourceInlined ∧
      q.codeOf root = [64, 0, 5, 0, 1, 64, 0, 0, 64, 1, 0, 0] ∧
      ∃ q', Linked q.inlinedSource .userProgram layerLibrary (some [⟨"port", 0x100⟩]) {} q' ∧
        q'.codeOf root = q.codeOf root := by
  obtain ⟨q, hq⟩ : ∃ q, q = throughPhases layerSource .userProgram layerLibrary (some [⟨"port", 0x100⟩]) {} :=
    ⟨_, rfl⟩
  obtain ⟨hreports, htext, hcode, hlabels⟩ : q.2 = [] ∧
      q.1.inlinedSource = layerSourceInlined ∧
      q.1.codeOf root = [64, 0, 5, 0, 1, 64, 0, 0, 64, 1, 0, 0] ∧
      ∀ id < q.1.instances.size, id ≠ root → ∀ line ∈ (q.1.inst id).lines, line.label = none := by
    rw [hq, throughPhases, ofSource_of_chars layerSource rfl]
    decide +kernel
  have h : Linked layerSource .userProgram layerLibrary (some [⟨"port", 0x100⟩]) {} q.1 := by
    subst hq
    exact linked_of_throughPhases hreports
  refine ⟨q.1, h, htext, hcode, h.codeOf_inlinedSource fun id _ hid line hline => ?_⟩
  rcases Nat.lt_or_ge id q.1.instances.size with hlt | hge
  · exact hlabels id hlt hid line hline
  · rw [lines_of_size_le hge] at hline
    cases hline

end Program

end Pep10
