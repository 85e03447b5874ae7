import Mathlib.Data.Nat.Digits.Defs
import Pep10.Proofs.Line.Restoring
import Pep10.Proofs.Text.Split
import Pep10.Program.Listing

/-!
# The code column of a listing

A listing has the digits of the object code in columns 6 to 11, three bytes to a line.
`codeColumns` reads them off a text: the text is cut at line feeds, and what is not blank in these
columns is put together.  `Shows` says of a piece of text, ended by a line feed, that the digits of
the given bytes are read off it, whatever follows.  Pieces are shown to do so one by one: a line of
a listing, the lines that continue it, and the lines without code.

Nothing is cut at a wrong place, since the source of a line that has been read is a single line
(`Reader.newline_not_mem_source`).
-/

namespace Pep10

/-- What is not blank in columns 6 to 11 of a line. -/
def codeColumn (line : List Char) : List Char :=
  ((line.drop 6).take 6).filter fun c => !Text.isBlank c

/-- What is not blank in columns 6 to 11 of the lines of a text, in order. -/
def codeColumns (text : List Char) : List Char :=
  (Text.fields (· == '\n') text).flatMap codeColumn

/-- The digits of the given bytes stand in the code column of a text that ends a line. -/
def Shows (text : String) (bytes : List UInt8) : Prop :=
  ∀ rest, codeColumns (text.toList ++ rest) = bytes.flatMap Text.byteDigits ++ codeColumns rest

namespace Shows

variable {s s' : String} {bytes bytes' : List UInt8}

lemma empty : Shows "" [] := fun _ => rfl

lemma append (h : Shows s bytes) (h' : Shows s' bytes') : Shows (s ++ s') (bytes ++ bytes') := by
  intro rest
  rw [String.toList_append, List.append_assoc, h, h', List.flatMap_append, List.append_assoc]

lemma codeColumns_eq (h : Shows s bytes) : codeColumns s.toList = bytes.flatMap Text.byteDigits := by
  have hnil : codeColumns [] = [] := rfl
  have hself := h []
  rwa [List.append_nil, hnil, List.append_nil] at hself

/-- Texts that are joined show what they show one after the other. -/
lemma join {α : Type} {f : α → String} {g : α → List UInt8} {l : List α}
    (h : ∀ a ∈ l, Shows (f a) (g a)) : Shows (String.join (l.map f)) (l.flatMap g) := by
  induction l with
  | nil => exact empty
  | cons a l ih =>
    rw [List.forall_mem_cons] at h
    rw [List.map_cons, String.join_cons, List.flatMap_cons]
    exact h.1.append (ih h.2)

end Shows

/-! ### Pieces of a listing -/

section Pieces

variable {s : String} {bytes : List UInt8}

lemma codeColumn_append_blanks {line blanks : List Char} (h : ∀ c ∈ blanks, Text.isBlank c = true) :
    codeColumn (line ++ blanks) = codeColumn line := by
  have hdrop : ∀ c ∈ blanks.drop (6 - line.length), Text.isBlank c = true :=
    fun c hc => h c (List.mem_of_mem_drop hc)
  have hnone : ((blanks.drop (6 - line.length)).take (6 - (line.drop 6).length)).filter
      (fun c => !Text.isBlank c) = [] := by
    refine List.filter_eq_nil_iff.2 fun c hc => ?_
    simp [hdrop c (List.mem_of_mem_take hc)]
  rw [codeColumn, codeColumn, List.drop_append, List.take_append, List.filter_append, hnone,
    List.append_nil]

/-- Blanks at the end of a line do not matter. -/
lemma codeColumn_trimEnd (line : List Char) : codeColumn (Text.trimEnd line) = codeColumn line := by
  have hsplit : Text.trimEnd line ++ (line.reverse.takeWhile Text.isBlank).reverse = line := by
    rw [Text.trimEnd, ← List.reverse_append, List.takeWhile_append_dropWhile, List.reverse_reverse]
  have hblanks : ∀ c ∈ (line.reverse.takeWhile Text.isBlank).reverse, Text.isBlank c = true :=
    fun c hc => List.mem_takeWhile_imp (List.mem_reverse.1 hc)
  rw [← codeColumn_append_blanks hblanks, hsplit]

/-- A line of a listing shows what stands in its code column. -/
lemma shows_listingLine (hnewline : '\n' ∉ s.toList)
    (h : codeColumn s.toList = bytes.flatMap Text.byteDigits) : Shows (listingLine s) bytes := by
  intro rest
  have hfield : ∀ c ∈ Text.trimEnd s.toList, (c == '\n') = false := by
    intro c hc
    rw [beq_eq_false_iff_ne]
    rintro rfl
    exact hnewline ((Text.trimEnd_prefix _).mem hc)
  have htext : (listingLine s).toList ++ rest = Text.trimEnd s.toList ++ '\n' :: rest := by
    simp [listingLine, Text.trimLine]
  rw [htext, codeColumns, Text.fields_append hfield (by decide), List.flatMap_cons, codeColumn_trimEnd, h]
  rfl

lemma isBlank_hexDigit {n : Nat} (h : n < 16) : Text.isBlank (Text.hexDigit n) = false := by
  revert n
  decide

/-- No digit of a byte is blank. -/
lemma isBlank_of_mem_digits {c : Char} (h : c ∈ bytes.flatMap Text.byteDigits) : Text.isBlank c = false := by
  obtain ⟨b, -, hc⟩ := List.mem_flatMap.1 h
  have hb := b.toNat_lt
  rcases List.mem_cons.1 hc with rfl | hc
  · exact isBlank_hexDigit (by omega)
  · rw [List.mem_singleton.1 hc]
    exact isBlank_hexDigit (by omega)

lemma length_digits (bytes : List UInt8) : (bytes.flatMap Text.byteDigits).length = 2 * bytes.length := by
  induction bytes with
  | nil => rfl
  | cons b bytes ih =>
    rw [List.flatMap_cons, List.length_append, ih, List.length_cons]
    change 2 + _ = _
    omega

/-- Digits behind six columns are read off, with blanks behind them up to the end of the code
column. -/
lemma codeColumn_digits {lead rest : List Char} {k : Nat} (hlead : lead.length = 6)
    (hbytes : bytes.length ≤ codeBytes) (hrest : 6 ≤ 2 * bytes.length + k ∨ rest = []) :
    codeColumn (lead ++ (bytes.flatMap Text.byteDigits ++ (List.replicate k ' ' ++ rest))) =
      bytes.flatMap Text.byteDigits := by
  have hlength := length_digits bytes
  have hself : (bytes.flatMap Text.byteDigits).filter (fun c => !Text.isBlank c) =
      bytes.flatMap Text.byteDigits :=
    List.filter_eq_self.2 fun c hc => by simp [isBlank_of_mem_digits hc]
  have hblanks : ((List.replicate k ' ' ++ rest).take (6 - 2 * bytes.length)).filter
      (fun c => !Text.isBlank c) = [] := by
    refine List.filter_eq_nil_iff.2 fun c hc => ?_
    have hmem : c ∈ List.replicate k ' ' := by
      rcases hrest with hk | rfl
      · rw [List.take_append_of_le_length (by rw [List.length_replicate]; omega)] at hc
        exact List.mem_of_mem_take hc
      · rw [List.append_nil] at hc
        exact List.mem_of_mem_take hc
    rw [isBlank_of_mem_replicate c hmem]
    decide
  rw [codeColumn, List.drop_left' hlead, List.take_append, hlength, List.filter_append, hblanks,
    List.append_nil, List.take_of_length_le (by rw [hlength]; simp only [codeBytes] at hbytes; omega), hself]

/-- A line of a listing with digits behind six columns shows the bytes. -/
lemma shows_of_toList (lead rest : List Char) (k : Nat)
    (hs : s.toList = lead ++ (bytes.flatMap Text.byteDigits ++ (List.replicate k ' ' ++ rest)))
    (hlead : lead.length = 6) (hbytes : bytes.length ≤ codeBytes)
    (hrest : 6 ≤ 2 * bytes.length + k ∨ rest = []) (hnewline : '\n' ∉ lead ++ rest) :
    Shows (listingLine s) bytes := by
  rw [List.mem_append, not_or] at hnewline
  refine shows_listingLine ?_ (by rw [hs, codeColumn_digits hlead hbytes hrest])
  have hdigits : '\n' ∉ bytes.flatMap Text.byteDigits := fun hmem =>
    absurd (isBlank_of_mem_digits hmem) (by decide)
  simp [hs, hnewline, hdigits]

/-- The bytes behind the first line are shown. -/
lemma shows_continuation {n : Nat} (h : bytes.length ≤ n) :
    Shows (String.join (continuation n bytes)) bytes := by
  induction n generalizing bytes with
  | zero =>
    obtain rfl := List.eq_nil_of_length_eq_zero (Nat.le_zero.1 h)
    exact .empty
  | succ n ih =>
    cases bytes with
    | nil => exact .empty
    | cons b bytes =>
      have hdrop : ((b :: bytes).drop codeBytes).length ≤ n := by
        simp only [List.length_drop, codeBytes]
        omega
      have hfirst : Shows (listingLine (Text.padRight addressWidth "" ++
          bytesText ((b :: bytes).take codeBytes))) ((b :: bytes).take codeBytes) := by
        refine shows_of_toList (Text.padRight addressWidth "").toList [] 0 ?_ (by decide)
          (List.length_take_le _ _) (.inr rfl) (by decide)
        rw [String.toList_append, bytesText, String.toList_ofList, List.replicate_zero, List.append_nil,
          List.append_nil]
      have hlines : continuation (n + 1) (b :: bytes) =
          listingLine (Text.padRight addressWidth "" ++ bytesText ((b :: bytes).take codeBytes)) ::
            continuation n ((b :: bytes).drop codeBytes) := rfl
      have hall := hfirst.append (ih hdrop)
      rw [List.take_append_drop] at hall
      rw [hlines, String.join_cons]
      exact hall

lemma addressText_cases (line : Line) :
    line.addressText = "" ∨ ∃ address : UInt16, line.addressText = Text.hex 4 address.toNat := by
  unfold Line.addressText
  split
  case h_5 =>
    split
    · exact .inl rfl
    · exact .inr ⟨_, rfl⟩
  case h_6 => exact .inr ⟨_, rfl⟩
  all_goals exact .inl rfl

/-- An address fits its column. -/
lemma length_addressText (line : Line) : line.addressText.toList.length ≤ 4 := by
  rcases addressText_cases line with h | ⟨address, h⟩
  · rw [h]
    exact Nat.zero_le _
  · have hlength := Nat.toDigits_length 16 address.toNat 4 (by decide) address.toNat_lt
    simp only [h, Text.hex, Text.hexDigits, String.toList_ofList, List.length_append, List.length_replicate,
      List.length_map]
    omega

/-- There is no line feed in an address. -/
lemma newline_not_mem_addressText (line : Line) : '\n' ∉ line.addressText.toList := by
  rcases addressText_cases line with h | ⟨address, h⟩
  · rw [h]
    exact List.not_mem_nil
  · intro hmem
    rw [h, Text.hex, String.toList_ofList] at hmem
    exact absurd (Text.isHexDigit_of_mem_hexDigits hmem) (by decide)

/-- A line is listed with its code, however long it is. -/
lemma Line.shows_listing (line : Line) (code : List UInt8) (hsource : '\n' ∉ line.source.toList) :
    Shows (line.listing code) code := by
  have haddress := length_addressText line
  have hfirst : Shows (listingLine (Text.padRight addressWidth line.addressText ++
      Text.padRight codeWidth (bytesText (code.take codeBytes)) ++ line.source)) (code.take codeBytes) := by
    have hdigits := length_digits (code.take codeBytes)
    refine shows_of_toList (Text.padRight addressWidth line.addressText).toList line.source.toList
      (codeWidth - (bytesText (code.take codeBytes)).length) ?_ ?_ (List.length_take_le _ _) (.inl ?_) ?_
    · simp only [String.toList_append, toList_padRight, bytesText, String.toList_ofList, List.append_assoc]
    · simp only [toList_padRight, List.length_append, List.length_replicate, addressWidth] at haddress ⊢
      rw [← String.length_toList]
      omega
    · rw [bytesText, String.length_ofList, hdigits, codeWidth]
      omega
    · simp [toList_padRight, newline_not_mem_addressText line, hsource]
  have hrest : Shows (String.join (continuation code.length (code.drop codeBytes))) (code.drop codeBytes) :=
    shows_continuation (by rw [List.length_drop]; omega)
  have hall := hfirst.append hrest
  rw [List.take_append_drop] at hall
  rw [Line.listing, String.join_cons]
  exact hall

/-- A line without address and code shows no bytes. -/
lemma shows_plainListing (h : '\n' ∉ s.toList) : Shows (plainListing s) [] := by
  refine shows_of_toList (List.replicate 6 ' ') s.toList 7 ?_ (by decide) (by decide)
    (.inl (by decide)) ?_
  · rw [String.toList_append, toList_padRight]
    rfl
  · simp [h]

end Pieces

/-! ### Sources are single lines -/

/-- A character of joined texts is one of the separator or of one of the texts. -/
lemma mem_of_mem_intercalate {c : Char} {sep : List Char} {texts : List (List Char)}
    (h : c ∈ sep.intercalate texts) : c ∈ sep ∨ ∃ text ∈ texts, c ∈ text := by
  induction texts with
  | nil => cases h
  | cons first rest ih =>
    cases rest with
    | nil => exact .inr ⟨first, List.mem_cons_self, by simpa [List.intercalate] using h⟩
    | cons second rest =>
      have hcases : c ∈ first ∨ c ∈ sep ∨ c ∈ sep.intercalate (second :: rest) := by
        simpa [List.intercalate] using h
      rcases hcases with hfirst | hsep | hrest
      · exact .inr ⟨first, List.mem_cons_self, hfirst⟩
      · exact .inl hsep
      · exact (ih hrest).imp_right fun ⟨text, htext, hc⟩ => ⟨text, List.mem_cons_of_mem _ htext, hc⟩

namespace Reader

variable {ctx : ReadContext} {number target : Nat} {label : Option String} {token : Token}
  {tokens rest : List Token} {marks : List Mark} {s : Statement} {l : Line} {text : String}

/-- The comment behind a statement is one of the tokens. -/
lemma comment_mem_of_lineFrom (h : lineFrom ctx number label token tokens = ⟨marks, .ok l⟩)
    (hcomment : l.comment = some text) : ⟨.comment, text⟩ ∈ token :: tokens := by
  obtain ⟨s, rest, hs, rfl⟩ := lineFrom_eq_ok h
  exact (statement_suffix hs).mem (mem_of_takeComment hcomment)

lemma comment_mem_of_line (h : line ctx number tokens = ⟨marks, .ok l⟩)
    (htarget : l.statement.target? = some target) (hcomment : l.comment = some text) :
    ⟨.comment, text⟩ ∈ tokens := by
  obtain ⟨m₁, ⟨token, rest⟩, m₂, hnext, hthen, rfl⟩ := Reading.bind_eq_ok.1 h
  obtain ⟨rfl, rfl⟩ := next_eq_ok hnext
  dsimp only at hthen
  split at hthen
  · obtain ⟨-, rfl⟩ := Reading.pure_eq_ok.1 hthen
    cases htarget
  · obtain ⟨m₃, u, m₄, -, hpure, -⟩ := Reading.bind_eq_ok.1 hthen
    obtain ⟨-, rfl⟩ := Reading.pure_eq_ok.1 hpure
    cases htarget
  next hkind =>
    obtain ⟨second, rest', m, rfl, -, hfrom⟩ := line_label_eq_ok hkind h
    exact List.mem_cons_of_mem _ (comment_mem_of_lineFrom hfrom hcomment)
  · exact comment_mem_of_lineFrom hthen hcomment

/-- The text of a call has no line feed if none of its parts has. -/
lemma newline_not_mem_source_of_call {name : String} {args : List String}
    (hstatement : l.statement = .call name args target) (hlabel : '\n' ∉ l.labelText.toList)
    (hname : '\n' ∉ name.toList) (hargs : ∀ arg ∈ args, '\n' ∉ arg.toList)
    (hcomment : '\n' ∉ (l.comment.getD "").toList) : '\n' ∉ l.source.toList := by
  have hlist : '\n' ∉ [','].intercalate (args.map String.toList) := by
    intro hmem
    rcases mem_of_mem_intercalate hmem with hmem | ⟨_, htext, hmem⟩
    · exact absurd hmem (by decide)
    · obtain ⟨arg, harg, rfl⟩ := List.mem_map.1 htext
      exact hargs arg harg hmem
  have haddressable : l.statement.isAddressable = true := by rw [hstatement]; rfl
  rw [Line.source_of_isAddressable haddressable, Text.trimLine, String.toList_ofList]
  intro hmem
  have hmem := (Text.trimEnd_prefix _).mem hmem
  simp [toList_padRight, hstatement, Statement.operationText, Statement.operandText, Statement.operand?,
    hlabel, hname, hlist, hcomment] at hmem

/-- The source of a line that has been read from a single line is a single line. -/
theorem newline_not_mem_source {source : String} (hnewline : '\n' ∉ source.toList)
    (h : line ctx number (tokenize source) = ⟨marks, .ok l⟩) : '\n' ∉ l.source.toList := by
  cases htarget : l.statement.target? with
  | none => exact (line_restored ⟨rfl, rfl⟩ hnewline h htarget).1.newline_not_mem_source
  | some target =>
    have hproper : ∀ t ∈ tokenize source, Lexer.Proper t := fun t => Lexer.proper_of_mem_tokenize hnewline
    obtain ⟨token, rest, m, hkind, htokens, hget, -, hstatement⟩ := line_target h htarget
    have hmem : ∀ t ∈ rest, t ∈ tokenize source := by
      intro t ht
      rcases htokens with heq | ⟨first, -, heq⟩ <;> rw [heq] <;> simp [ht]
    refine newline_not_mem_source_of_call hstatement ?_ ?_ ?_ ?_
    · unfold Line.labelText
      cases hlabel : l.label with
      | none => exact List.not_mem_nil
      | some name =>
        have hname := Text.newline_not_mem_of_isNameRest (Text.isNameRest_of_mem (label_of_line h hlabel).1)
        simp [hname]
    · have hsame : Text.sameName m.name token.text = true := by simpa using List.find?_some hget
      obtain ⟨name, behind, blanks, htext, -, ⟨-, -, -, hname, -⟩, -⟩ := showsCall_of_isCall ⟨hkind, htokens⟩
      refine Text.newline_not_mem_of_isNameRest (Text.isNameRest_of_mem ?_)
      rw [Text.isIdentifier_congr (Text.caseEq_of_map_eq (Text.sameName_iff.1 hsame)), htext,
        String.toList_ofList]
      exact hname
    · intro arg harg
      obtain ⟨t, ht, rfl⟩ := List.mem_map.1 harg
      have hargument : isArgument t = true := List.mem_takeWhile_imp ht
      exact ((hproper t (hmem t ((List.takeWhile_prefix _).mem ht))).1 hargument).newline_not_mem
    · cases hcomment : l.comment with
      | none => exact List.not_mem_nil
      | some text =>
        exact ((hproper _ (comment_mem_of_line h htarget hcomment)).2 rfl).newline_not_mem

end Reader

/-- The source of a line depends on its shape alone. -/
lemma Line.source_of_shape {line line' : Line} (h : line'.shape = line.shape) : line'.source = line.source := by
  have hshape : ∀ line : Line, line.shape.source = line.source := by
    rintro ⟨statement⟩
    cases statement <;> rfl
  rw [← hshape, h, hshape]

end Pep10
