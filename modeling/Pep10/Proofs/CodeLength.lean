import Pep10.Proofs.MemoryImage
import Pep10.Proofs.Program.CallFree
import Pep10.Proofs.Text.Quoted

/-!
# The length of object code

A program has two lengths: the number of bytes that are emitted, and the sum of the sizes of its
lines, from which the addresses and the bounds are found.  A size is kept in a word, while a text
can be of any length.  So the size of a line is the number of its bytes up to multiples of
`0x10000`, and the two lengths of a user program agree exactly if none of its texts is longer than
`0xFFFF` bytes.  Nothing else bounds the texts: a program that consists of one text is built
whatever its length is (`exists_build_textSource`).
-/

namespace Pep10

namespace Statement

variable {s : Statement} {symbols : SymbolStore} {table : Nat}

/-- Only a text can have more bytes than a word can count. -/
lemma exists_text_of_hasWordSize (h : s.hasWordSize = false) :
    ∃ text, s = directive .ascii (.string text) ∧ 0xFFFF < (Text.unquote text).length := by
  unfold hasWordSize at h
  split at h
  next text => exact ⟨text, rfl, by simpa using h⟩
  · cases h

/-- The size of a statement is the number of its bytes, kept in a word. -/
lemma toNat_size (s : Statement) (symbols : SymbolStore) (table : Nat) :
    (s.size symbols table).toNat = (s.bytes symbols table).length % 0x10000 := by
  cases h : s.hasWordSize with
  | true =>
    have hlt := (s.size symbols table).toNat_lt
    rw [length_bytes h, Nat.mod_eq_of_lt hlt]
  | false =>
    obtain ⟨text, rfl, -⟩ := exists_text_of_hasWordSize h
    exact UInt16.toNat_ofNat'

lemma hasWordSize_iff : s.hasWordSize = true ↔ (s.bytes symbols table).length ≤ 0xFFFF := by
  constructor
  · intro h
    have hlt := (s.size symbols table).toNat_lt
    rw [length_bytes h]
    omega
  · intro h
    by_contra hlong
    obtain ⟨text, rfl, hlength⟩ := exists_text_of_hasWordSize (Bool.eq_false_iff.2 hlong)
    exact Nat.not_le.2 hlength h

end Statement

namespace Program

variable {p p' q : Program} {lib : MacroLibrary} {source : String} {sites : List Site} {site : Site}
  {options : Options} {exports : Option (List ExportedSymbol)}

lemma length_codeAt (hemits : site.line.emits = true) :
    (p.sizeAt site).toNat = (p.codeAt site).length % 0x10000 ∧
      (site.line.statement.hasWordSize = true ↔ (p.codeAt site).length ≤ 0xFFFF) := by
  rw [codeAt, Line.code, if_pos hemits]
  exact ⟨Statement.toNat_size _ _ _, Statement.hasWordSize_iff⟩

/-- Lines that are part of the object code have at least as many bytes as their sizes add up to, and
exactly as many if all their sizes are words. -/
lemma roomAt_le_length (hemits : ∀ site ∈ sites, site.line.emits = true) :
    p.roomAt sites ≤ (sites.flatMap p.codeAt).length ∧
      ((sites.flatMap p.codeAt).length = p.roomAt sites ↔
        ∀ site ∈ sites, site.line.statement.hasWordSize = true) := by
  induction sites with
  | nil => exact ⟨Nat.zero_le _, iff_of_true rfl (List.forall_mem_nil _)⟩
  | cons site sites ih =>
    rw [List.forall_mem_cons] at hemits
    obtain ⟨hsize, hword⟩ := length_codeAt (p := p) hemits.1
    obtain ⟨hle, hiff⟩ := ih hemits.2
    have hroom : p.roomAt (site :: sites) = (p.sizeAt site).toNat + p.roomAt sites := rfl
    rw [List.flatMap_cons, List.length_append, hroom, hsize, List.forall_mem_cons, hword, ← hiff]
    omega

/-! ### The lengths do not depend on commands -/

namespace Retraced

variable (h : Retraced p p')

include h

lemma roomAt_eq (sites : List Site) : p'.roomAt sites = p.roomAt (sites.map Site.untraced) := by
  have hsize : ∀ site, p'.sizeAt site = p.sizeAt site.untraced := by
    intro site
    rw [sizeAt, sizeAt, h.symbols_eq, h.table_eq]
    rfl
  simp only [roomAt, List.foldr_map, hsize]

lemma byteCount_eq (id : Nat) : p'.byteCount id = p.byteCount id := by
  rw [byteCount_eq_roomAt, byteCount_eq_roomAt, h.roomAt_eq, h.sites, ← (Retraced.refl p).roomAt_eq]

lemma codeOf_eq : p'.codeOf root = p.codeOf root := by
  rw [← flatMap_tilesAt, ← flatMap_tilesAt, h.tilesAt_sites]

lemma bounds_eq : p'.bounds = p.bounds := by
  obtain ⟨lines, hinst, hlines⟩ := h.inst_eq root
  have haddress : ∀ lines : List Line,
      lines.findSome? Line.address = (lines.map Line.untraced).findSome? Line.address := by
    intro lines
    rw [List.findSome?_map]
    rfl
  rw [bounds, bounds, h.byteCount_eq, hinst, haddress, hlines, ← haddress]

end Retraced

end Program

/-! ### Built programs -/

variable {options : Options} {lib lib' : MacroLibrary} {source : String} {os : Option Output} {o : Output}

/-- The bounds of a user program that has been built are as far apart as the sizes of its lines add
up to; the size of a line is the number of the bytes that it emits, up to multiples of `0x10000`;
and the object code is as long as the bounds are apart exactly if every `.ASCII` of the program
stands for `0xFFFF` bytes at most. -/
theorem length_code_of_buildUser (h : buildUser options lib source os = (lib', .ok o)) :
    o.bounds.2 - o.bounds.1 = o.program.byteCount Program.root ∧
      (∀ site ∈ o.program.sites Program.root,
        (o.program.sizeAt site).toNat = (o.program.codeAt site).length % 0x10000) ∧
      (o.code.length = o.bounds.2 - o.bounds.1 ↔
        ∀ site ∈ o.program.sites Program.root, site.line.statement.hasWordSize = true) := by
  obtain ⟨p, hlinked, rfl⟩ := linked_of_build h
  have hemits : ∀ site ∈ p.annotate.1.sites Program.root, site.line.emits = true := by
    intro site hsite
    obtain ⟨site', hsite', heq⟩ := exists_untraced_eq ((Program.Retraced.annotate p).sites _) hsite
    have hsame : site'.untraced.line.emits = site.untraced.line.emits := by rw [heq]
    have hemits' := hlinked.emits_of_user (by decide) hsite'
    exact hsame.symm.trans hemits'
  have hbounds : (p.output options).bounds.2 - (p.output options).bounds.1 =
      p.annotate.1.byteCount Program.root := Nat.add_sub_cancel_left _ _
  refine ⟨hbounds, fun site hsite => (Program.length_codeAt (hemits site hsite)).1, ?_⟩
  rw [hbounds]
  exact (Program.roomAt_le_length hemits).2

/-- A program with a text, and with a macro that fills up to an even address. -/
def paddedSource : String := "@EVEN 7\n.ASCII \"é\\n\"\n@EVEN 7\n.BLOCK 2\n.END\n"

/-- The lengths of the program. -/
theorem length_code_of_buildUser_padded :
    ∃ lib' o, buildUser {} Program.evenLibrary paddedSource none = (lib', .ok o) ∧
      o.code = [64, 0, 7, 0, 195, 169, 10, 64, 0, 7, 0, 0] ∧
      o.program.byteCount Program.root = 12 ∧ o.code.length = o.bounds.2 - o.bounds.1 := by
  obtain ⟨r, hr⟩ : ∃ r, r = buildUser {} Program.evenLibrary paddedSource none := ⟨_, rfl⟩
  have hfacts : r.2.toOption.map (fun o => (o.code, o.program.byteCount Program.root,
      (o.program.sites Program.root).all fun site => site.line.statement.hasWordSize)) =
        some ([64, 0, 7, 0, 195, 169, 10, 64, 0, 7, 0, 0], 12, true) := by
    rw [hr, buildUser, build, Program.ofSource_of_chars paddedSource rfl]
    decide +kernel
  obtain ⟨lib', result⟩ := r
  cases result with
  | error log => cases hfacts
  | ok o =>
    simp only [Except.toOption, Option.map_some, Option.some.injEq, Prod.mk.injEq] at hfacts
    obtain ⟨hcode, hcount, hsize⟩ := hfacts
    exact ⟨lib', o, hr.symm, hcode, hcount,
      (length_code_of_buildUser hr.symm).2.2.2 (List.all_eq_true.1 hsize)⟩

/-! ### A program that consists of one text -/

/-- A constant of the given number of characters. -/
def quotedText (n : Nat) : String := String.ofList ('"' :: (List.replicate n 'a' ++ ['"']))

/-- A program that consists of a text. -/
def textSource (n : Nat) : String := Text.ofLines [".ASCII " ++ quotedText n, ".END"]

/-- The lines of the program, where they stand. -/
def textLines (n : Nat) : List Line :=
  [.startingAt 0 { statement := .directive .ascii (.string (quotedText n)), number := 0 },
    .startingAt (n % 0x10000 : Nat) { statement := .endMark, number := 1 }]

lemma toList_quotedText (n : Nat) : (quotedText n).toList = '"' :: (List.replicate n 'a' ++ ['"']) :=
  String.toList_ofList

/-- The letter of the constant, as one of its units. -/
def letterUnit : Text.QuotedUnit '"' := .plain 'a' (by decide) (by decide)

lemma quotedText_eq (n : Nat) : quotedText n = String.ofList (Text.quoted (List.replicate n letterUnit)) := by
  have hunits : (List.replicate n letterUnit).flatMap Text.QuotedUnit.text = List.replicate n 'a' := by
    simp [List.flatMap_replicate, letterUnit, Text.QuotedUnit.text]
  rw [quotedText, Text.quoted, hunits]

lemma length_unquote_quotedText (n : Nat) : (Text.unquote (quotedText n)).length = n := by
  have hbyte : letterUnit.bytes.length = 1 := rfl
  rw [quotedText_eq, Text.unquote_quoted (by decide), List.flatMap_replicate]
  simp [hbyte]

lemma spells_quotedText (n : Nat) :
    Lexer.Spells (quotedText n).toList ⟨.stringConstant, quotedText n⟩ := by
  have hderives : Lexer.Derives ⟨.stringConstant, quotedText n⟩ (quotedText n).toList [] := by
    rw [quotedText_eq, String.toList_ofList]
    exact .stringConstant _
  exact hderives.spells rfl

lemma toList_text (n : Nat) : (".ASCII " ++ quotedText n).toList =
    '.' :: "ASCII".toList ++ ([' '] ++ (quotedText n).toList) := by
  rw [String.toList_append]
  rfl

lemma tokenize_text (n : Nat) :
    tokenize (".ASCII " ++ quotedText n) =
      [⟨.directive, "ASCII"⟩, ⟨.stringConstant, quotedText n⟩, Token.lineEnd] := by
  have hname : Lexer.Spells ('.' :: "ASCII".toList) ⟨.directive, "ASCII"⟩ :=
    Lexer.spells_directive (by decide) (List.all_eq_true.1 (by decide))
  have hblank : ∀ c ∈ [' '], Text.isBlank c = true := List.forall_mem_singleton.2 rfl
  have hend : Lexer.scanLine ((quotedText n).toList ++ []) = _ := (spells_quotedText n).scanLine rfl
  rw [List.append_nil, Lexer.scanLine_nil] at hend
  refine Lexer.tokenize_of_scanLine ?_
  rw [toList_text, hname.scanLine rfl, Lexer.scanLine_blanks hblank, hend]
  rfl

lemma lines_textSource (n : Nat) : Text.lines (textSource n) = [".ASCII " ++ quotedText n, ".END"] := by
  have hlast : '\n' ∉ (quotedText n).toList ∧ Text.Clean (".ASCII " ++ quotedText n).toList := by
    rw [toList_text, quotedText, String.toList_ofList, ← List.append_assoc]
    exact ⟨by simp, .append (toList_quotedText n ▸ (spells_quotedText n).clean) (List.cons_ne_nil _ _)⟩
  refine Text.lines_ofLines_of_clean (List.forall_mem_cons.2 ⟨⟨?_, hlast.2⟩, ?_⟩)
  · rw [toList_text]
    simp [hlast.1]
  · exact List.forall_mem_singleton.2 ⟨by decide, .of_forall (by simp; decide)⟩

namespace Program

lemma reads_textSource (n : Nat) : List.Forall₂ ReadsAs (Text.lines (textSource n)) (textLines n) := by
  have htext : ReadsAs (".ASCII " ++ quotedText n)
      (.startingAt 0 { statement := .directive .ascii (.string (quotedText n)), number := 0 }) := by
    refine ⟨{ statement := .directive .ascii (.string (quotedText n)), number := 0 }, rfl, rfl,
      fun ctx number _ => ⟨[], ?_⟩⟩
    rw [tokenize_text]
    rfl
  have hend : ReadsAs ".END" (.startingAt (n % 0x10000 : Nat) { statement := .endMark, number := 1 }) := by
    have htokens : tokenize ".END" = [⟨.directive, "END"⟩, Token.lineEnd] := by decide +kernel
    refine ⟨{ statement := .endMark, number := 1 }, rfl, rfl, fun ctx number _ => ⟨[], ?_⟩⟩
    rw [htokens]
    rfl
  rw [lines_textSource]
  exact .cons htext (.cons hend .nil)

lemma extent_text (n : Nat) : (Statement.directive .ascii (.string (quotedText n))).extent = n % 0x10000 := by
  rw [Statement.extent, Statement.toNat_size]
  exact congrArg (· % 0x10000) (length_unquote_quotedText n)

lemma laidOut_textLines (exports : List ExportedSymbol) (n : Nat) : LaidOut exports (textLines n) where
  ends := ⟨[_], _, rfl, List.forall_mem_singleton.2 nofun, rfl⟩
  contiguous := by
    refine ⟨rfl, ?_, trivial⟩
    change Line.startingAt (0 + (Statement.extent (.directive .ascii (.string (quotedText n))) : Nat)) _ = _
    rw [extent_text, Int.zero_add]
    rfl
  room_le := by
    change Statement.extent (.directive .ascii (.string (quotedText n))) + 0 ≤ 0xFFFF
    rw [extent_text]
    omega
  emits := List.forall_mem_cons.2 ⟨rfl, List.forall_mem_singleton.2 rfl⟩
  nodup := List.nodup_nil
  unexported := nofun
  resolvable := List.forall_mem_cons.2 ⟨nofun, List.forall_mem_singleton.2 nofun⟩

end Program

/-- A program that has been linked has been built. -/
lemma exists_build_of_linked {kind : ModuleKind} {exports : Option (List ExportedSymbol)} {p : Program}
    (h : Program.Linked source kind lib exports options p) :
    ∃ lib', build options lib kind source exports = (lib', .ok (p.output options)) := by
  obtain ⟨p₁, p₂, lib', hfind, hassemble, hlink⟩ := h
  refine ⟨lib', ?_⟩
  rw [build, hfind]
  simp only [hassemble, hlink]

/-- A program that consists of a text is built whatever the length of the text is.  All of the text
is in the object code, but the bounds are found from a word. -/
lemma exists_build_textSource (options : Options) (lib : MacroLibrary) (os : Option Output) (n : Nat) :
    ∃ lib' o, buildUser options lib (textSource n) os = (lib', .ok o) ∧ o.code.length = n ∧
      o.bounds = (0, n % 0x10000) := by
  obtain ⟨q, hlinked, hsize, hlines, -⟩ :=
    (Program.laidOut_textLines _ n).exists_linked (Program.reads_textSource n) lib options
  obtain ⟨lib', hbuild⟩ := exists_build_of_linked hlinked
  have hretraced := Program.Retraced.annotate q
  refine ⟨lib', _, hbuild, ?_, ?_⟩
  · change (q.annotate.1.codeOf Program.root).length = n
    rw [hretraced.codeOf_eq, Program.codeOf_root hsize, hlines, code_numberedFrom]
    change (Text.unquote (quotedText n) ++ []).length = n
    rw [List.append_nil, length_unquote_quotedText]
  · change q.annotate.1.bounds = (0, n % 0x10000)
    have hcount : q.byteCount Program.root = n % 0x10000 := by
      rw [Program.byteCount_root hsize, hlines]
      exact Program.extent_text n
    rw [hretraced.bounds_eq, Program.bounds, hlines, hcount]
    exact Prod.ext rfl (Nat.zero_add _)

/-- The two lengths of a program with a text of `0x10000` bytes are not the same. -/
theorem length_code_ne_of_long_text :
    ∃ lib' o, buildUser {} ⟨[]⟩ (textSource 0x10000) none = (lib', .ok o) ∧ o.code.length = 0x10000 ∧
      o.bounds.2 - o.bounds.1 = 0 := by
  obtain ⟨lib', o, hbuild, hlength, hbounds⟩ := exists_build_textSource {} ⟨[]⟩ none 0x10000
  refine ⟨lib', o, hbuild, hlength, ?_⟩
  simp [hbounds]

end Pep10
