import Pep10.Proofs.Text.Numeral
import Pep10.Proofs.Text.Quoted
import Pep10.Proofs.Token.Argument

/-!
# Texts that spell a token

A text spells a token if it is scanned as this token wherever a blank, a comma, a semicolon or
nothing follows it.  A line that is put together from spellings, with blanks between them or a mark
that ends the token before it, becomes the tokens that were spelled.  Whatever the lexer has found
as an argument spells itself (`proper_of_mem_tokenize`), and so does every numeral in its normal
form.
-/

namespace Pep10

namespace Lexer

open Text (DecimalNumeral HexNumeral QuotedUnit Sign quoted)

variable {c : Char} {s v w rest tail blanks : List Char} {t : Token} {tokens : List Token} {name : String}

/-! ### Lines with blanks at the end -/

/-- The tokens of a line that may have blanks at its end. -/
def scanLine (s : List Char) : Except (LexicalError × List Char) (List Token) :=
  tokensFrom false (Text.trimEnd s)

lemma scanLine_nil : scanLine [] = .ok [Token.lineEnd] := by
  rw [scanLine, tokensFrom_eq]
  rfl

lemma scanLine_trimEnd (s : List Char) : scanLine (Text.trimEnd s) = scanLine s := by
  rw [scanLine, (Text.clean_trimEnd s).trimEnd_eq, scanLine]

/-- Leading blanks do not matter. -/
lemma scanLine_blanks (h : ∀ c ∈ blanks, Text.isBlank c = true) : scanLine (blanks ++ s) = scanLine s := by
  rw [scanLine, scanLine, Text.trimEnd_blanks_append h]
  split
  next hnil => rw [hnil]
  next => exact tokensFrom_blanks h

lemma scanLine_eq (s : List Char) : scanLine s = tokensFrom false (Text.trim s) := by
  have hblanks : ∀ c ∈ s.takeWhile Text.isBlank, Text.isBlank c = true := fun c hc => List.mem_takeWhile_imp hc
  have hstart : scanLine (s.takeWhile Text.isBlank ++ Text.trimStart s) = scanLine (Text.trimStart s) :=
    scanLine_blanks hblanks
  rw [Text.trimStart, List.takeWhile_append_dropWhile] at hstart
  exact hstart

lemma tokenize_of_scanLine {line : String} (h : scanLine line.toList = .ok tokens) :
    tokenize line = tokens := by
  rw [tokenize, ← scanLine_eq, h]

/-! ### Spellings -/

/-- The text is scanned as the token wherever an argument may end behind it. -/
structure Spells (w : List Char) (t : Token) : Prop where
  clean : Text.Clean w
  scan : ∃ c v, w = c :: v ∧ Text.isBlank c = false ∧
    ∀ tail, tail.head?.all endsArgument = true → scanToken c (v ++ tail) = .ok (t, tail)
  not_call : t.kind ≠ .call

/-- A text without its trailing blanks begins as it did with them. -/
lemma head?_trimEnd {p : Char → Bool} (h : tail.head?.all p = true) : (Text.trimEnd tail).head?.all p = true := by
  obtain ⟨r, hr⟩ := Text.trimEnd_prefix tail
  cases htrim : Text.trimEnd tail with
  | nil => rfl
  | cons c s =>
    rw [← hr, htrim] at h
    exact h

/-- A token that is scanned at the beginning of a line is its first one. -/
lemma scanLine_cons (hc : Text.isBlank c = false) (hcall : t.kind ≠ .call) (hclean : Text.Clean (c :: v))
    (h : scanToken c (v ++ Text.trimEnd tail) = .ok (t, Text.trimEnd tail)) :
    scanLine (c :: v ++ tail) = (scanLine tail).map (t :: ·) := by
  have hstart : Text.trimStart (c :: (v ++ Text.trimEnd tail)) = c :: (v ++ Text.trimEnd tail) :=
    List.dropWhile_cons_of_neg (by simp [hc])
  have hkind : (t.kind == .call) = false := beq_eq_false_iff_ne.2 hcall
  rw [scanLine, hclean.trimEnd_append (List.cons_ne_nil c v), List.cons_append, tokensFrom_eq, hstart]
  simp [h, hkind, scanLine]

lemma Spells.scanLine (h : Spells w t) (htail : tail.head?.all endsArgument = true) :
    scanLine (w ++ tail) = (scanLine tail).map (t :: ·) := by
  obtain ⟨c, v, rfl, hc, hscan⟩ := h.scan
  exact scanLine_cons hc h.not_call h.clean (hscan _ (head?_trimEnd htail))

/-- By itself, a spelling is split into its token. -/
lemma Spells.tokenize_eq (h : Spells w t) : tokenize (String.ofList w) = [t, Token.lineEnd] := by
  have hline : Lexer.scanLine (w ++ []) = (Lexer.scanLine []).map (t :: ·) := h.scanLine rfl
  rw [List.append_nil, scanLine_nil] at hline
  refine tokenize_of_scanLine ?_
  rw [String.toList_ofList, hline]
  rfl

/-! ### Tokens do not end with blanks -/

lemma clean_of_isNameRest (h : ∀ c ∈ s, Text.isNameRest c = true) : Text.Clean s :=
  .of_forall fun c hc => Text.isBlank_of_isNameRest (h c hc)

lemma clean_quoted {quote : Char} (hquote : Text.isBlank quote = false) (units : List (QuotedUnit quote)) :
    Text.Clean (quoted units) :=
  Text.Clean.append (s := quote :: units.flatMap QuotedUnit.text) (.of_forall (by simpa using hquote))
    (List.cons_ne_nil _ _)

/-- No token but a comment ends with a blank. -/
lemma Derives.clean (h : Derives t w rest) (ht : t.kind ≠ .comment) : Text.Clean w := by
  have hname : ∀ {s : List Char}, Text.isIdentifier s = true → Text.Clean s ∧ s ≠ [] := fun h =>
    ⟨clean_of_isNameRest (Text.isNameRest_of_mem h), fun hnil => by rw [hnil] at h; cases h⟩
  cases h with
  | placeholder hne hdigits =>
    exact .append (s := ['$']) (clean_of_isNameRest fun c hc => isNameRest_of_isDigit (hdigits c hc)) hne
  | call h _ => exact .append (s := ['@']) (hname h).1 (hname h).2
  | @mode blanks _ _ mode _ h =>
    refine .append (s := ',' :: blanks) (clean_of_isNameRest (isNameRest_of_modeName h)) fun hnil => ?_
    rw [hnil] at h
    cases mode <;> cases h
  | charConstant u _ => exact clean_quoted (by decide) [u]
  | comment => exact absurd rfl ht
  | hexadecimal n =>
    exact .append (s := ['0', n.mark])
      (clean_of_isNameRest fun c hc => isNameRest_of_isHexDigit (n.isHexDigit_of_mem hc))
      (mt List.map_eq_nil_iff.1 n.digits_ne_nil)
  | decimal n =>
    exact .append (clean_of_isNameRest fun c hc => isNameRest_of_isDigit (n.isDigit_of_mem hc))
      (mt List.map_eq_nil_iff.1 n.digits_ne_nil)
  | directive hhead h =>
    refine .append (s := ['.']) (clean_of_isNameRest h) fun hnil => ?_
    rw [hnil] at hhead
    cases hhead
  | identifier h => exact (hname h).1
  | label _ => exact .append (.of_forall (by simp; decide)) (List.cons_ne_nil _ _)
  | stringConstant units => exact clean_quoted (by decide) units

/-! ### Names and modes -/

/-- A label is spelled with a colon, and anything may follow that. -/
lemma scanLine_label (h : Text.isIdentifier name.toList = true) :
    scanLine (name.toList ++ ':' :: tail) = (scanLine tail).map (⟨.label, name⟩ :: ·) := by
  cases hname : name.toList with
  | nil => rw [hname] at h; cases h
  | cons c v =>
    rw [hname] at h
    have hc := Text.isBlank_of_isNameRest (Text.isNameRest_of_mem h c List.mem_cons_self)
    have hderives : Derives ⟨.label, String.ofList (c :: v)⟩ (c :: v ++ [':']) [] := .label h
    have hclean : Text.Clean (c :: (v ++ [':'])) := hderives.clean (by simp)
    have hscan : scanToken c (v ++ ':' :: Text.trimEnd tail) =
        .ok (nameToken (c :: v) (':' :: Text.trimEnd tail)) := scanToken_identifier h (by simp; decide)
    rw [nameToken, ← hname, String.ofList_toList] at hscan
    have happend : c :: v ++ ':' :: tail = c :: (v ++ [':']) ++ tail := by simp
    rw [happend]
    apply scanLine_cons (t := ⟨.label, name⟩) hc (by simp) hclean
    rw [List.append_assoc]
    exact hscan

/-- The name of a directive is scanned behind its point. -/
lemma scanToken_directive (hhead : s.head?.any Char.isAlpha = true) (hs : ∀ c ∈ s, Text.isNameRest c = true)
    (htail : tail.head?.all endsArgument = true) :
    scanToken '.' (s ++ tail) = .ok (⟨.directive, String.ofList s⟩, tail) := by
  have hdirective : scanToken '.' (s ++ tail) = scanDirective (s ++ tail) := rfl
  have hhead' : (s ++ tail).head?.any Char.isAlpha = true := by
    cases s with
    | nil => cases hhead
    | cons c s => exact hhead
  obtain ⟨htake, hdrop⟩ := takeWhile_run (fun _ h => h) hs htail
  rw [hdirective, scanDirective, if_pos hhead', htake, hdrop]

lemma spells_directive (hc : name.toList.head?.any Char.isAlpha = true)
    (h : ∀ c ∈ name.toList, Text.isNameRest c = true) : Spells ('.' :: name.toList) ⟨.directive, name⟩ where
  clean := by
    have hderives : Derives ⟨.directive, String.ofList name.toList⟩ ('.' :: name.toList) [] := .directive hc h
    exact hderives.clean nofun
  not_call := nofun
  scan := by
    refine ⟨'.', name.toList, rfl, by decide, fun tail htail => ?_⟩
    rw [scanToken_directive hc h htail, String.ofList_toList]

/-- No character that ends an argument goes on with an addressing mode. -/
lemma toLower_of_endsArgument (h : endsArgument c = true) : c.toLower ≠ 'f' ∧ c.toLower ≠ 'x' := by
  have hname := isNameRest_of_endsArgument h
  have hlower : c.toLower = c := by
    apply Text.toLower_of_not_isUpper
    rw [← Bool.not_eq_true]
    intro hupper
    have halpha : c.isAlpha = true := Bool.or_eq_true_iff.2 (.inl hupper)
    simp [Text.isNameRest, Char.isAlphanum, halpha] at hname
  rw [hlower]
  constructor
  · rintro rfl
    revert hname
    decide
  · rintro rfl
    revert hname
    decide

lemma map_toLower_modeName (mode : Mode) : mode.name.toList.map Char.toLower = mode.name.toList := by
  cases mode <;> rfl

/-- The name of a mode, in either case, is taken as a whole. -/
lemma modeLength_append {mode : Mode} (hs : s.map Char.toLower = mode.name.toList)
    (htail : tail.head?.all endsArgument = true) : modeLength (s ++ tail) = some s.length := by
  have hmap : ((s ++ tail).take 3).map Char.toLower = (mode.name.toList ++ tail.map Char.toLower).take 3 := by
    rw [List.map_take, List.map_append, hs]
  have hlength : s.length = mode.name.toList.length := by rw [← hs, List.length_map]
  rw [modeLength, hmap, hlength]
  cases tail with
  | nil => cases mode <;> rfl
  | cons d tail =>
    obtain ⟨hf, hx⟩ := toLower_of_endsArgument (c := d) htail
    cases mode <;> simp [Mode.name, hf, hx]

/-- The name of a mode is scanned behind its comma, with blanks between them. -/
lemma scanToken_mode {mode : Mode} (hblanks : ∀ c ∈ blanks, Text.isBlank c = true)
    (hs : s.map Char.toLower = mode.name.toList) (htail : tail.head?.all endsArgument = true) :
    scanToken ',' (blanks ++ (s ++ tail)) = .ok (⟨.mode, String.ofList s⟩, tail) := by
  have hmode : scanToken ',' (blanks ++ (s ++ tail)) = scanMode (blanks ++ (s ++ tail)) := rfl
  have hstart : Text.trimStart (blanks ++ (s ++ tail)) = s ++ tail := by
    rw [Text.trimStart, List.dropWhile_append_of_pos hblanks]
    cases s with
    | nil => cases mode <;> cases hs
    | cons c s =>
      have hc := Text.isBlank_of_isNameRest (isNameRest_of_modeName hs c List.mem_cons_self)
      exact List.dropWhile_cons_of_neg (by simp [hc])
  rw [hmode, scanMode, hstart, scanModeName, modeLength_append hs htail]
  simp only [List.take_left, List.drop_left]

lemma spells_mode (mode : Mode) : Spells (',' :: mode.name.toList) ⟨.mode, mode.name⟩ where
  clean := by
    have hderives : Derives ⟨.mode, String.ofList mode.name.toList⟩ (',' :: ([] ++ mode.name.toList)) [] :=
      .mode mode (List.forall_mem_nil _) (map_toLower_modeName mode)
    exact hderives.clean nofun
  not_call := nofun
  scan := by
    refine ⟨',', mode.name.toList, rfl, by decide, fun tail htail => ?_⟩
    have hscan : scanToken ',' ([] ++ (mode.name.toList ++ tail)) = _ :=
      scanToken_mode (List.forall_mem_nil _) (map_toLower_modeName mode) htail
    rwa [String.ofList_toList] at hscan

/-! ### Arguments spell themselves -/

/-- What the grammar allows for an argument spells it. -/
theorem Derives.spells (h : Derives t w rest) (ht : Reader.isArgument t = true) : Spells w t where
  clean := h.clean fun hcomment => by
    rw [Reader.isArgument, hcomment] at ht
    cases ht
  scan := by
    obtain ⟨c, v, hw, hc, hscan⟩ := h.scans ht
    simp only [endsArgument, Bool.or_eq_false_iff] at hc
    exact ⟨c, v, hw, hc.1.1, hscan⟩
  not_call := fun hcall => by
    rw [Reader.isArgument, hcall] at ht
    cases ht

/-- The text of an argument is all that stands for it. -/
lemma Derives.toList_text (h : Derives t w rest) (ht : Reader.isArgument t = true) : t.text.toList = w := by
  cases h with
  | charConstant | hexadecimal | decimal | identifier | stringConstant => exact String.toList_ofList
  | _ => cases ht

lemma spells_identifier (h : Text.isIdentifier name.toList = true) :
    Spells name.toList ⟨.identifier, name⟩ := by
  have hderives : Derives ⟨.identifier, String.ofList name.toList⟩ name.toList [] := .identifier h
  rw [String.ofList_toList] at hderives
  exact hderives.spells rfl

/-! ### Numerals -/

lemma isNameRest_of_mem_decimal {n : Nat} : ∀ c ∈ Nat.toDigits 10 n, Text.isNameRest c = true :=
  fun _ hc => isNameRest_of_isDigit (Text.isDigit_of_mem_decimal hc)

lemma spells_signed (sign : Sign) (n : Nat) :
    Spells (sign.text ++ Nat.toDigits 10 n) ⟨.decimal, String.ofList (sign.text ++ Nat.toDigits 10 n)⟩ := by
  obtain ⟨numeral, htext⟩ := DecimalNumeral.exists_text sign (Nat.toDigits_ne_nil (b := 10) (n := n))
    fun _ => Text.isDigit_of_mem_decimal
  have hderives : Derives ⟨.decimal, String.ofList numeral.text⟩ numeral.text [] := .decimal numeral
  rw [← htext]
  exact hderives.spells rfl

lemma spells_decimal (n : Nat) : Spells (Text.decimal n).toList ⟨.decimal, Text.decimal n⟩ := by
  rw [Text.decimal, String.toList_ofList]
  exact spells_signed .absent n

lemma spells_signedDecimal (a : Int) :
    Spells (Text.signedDecimal a).toList ⟨.decimal, Text.signedDecimal a⟩ := by
  unfold Text.signedDecimal
  split
  next =>
    rw [String.toList_ofList]
    exact spells_signed .minus a.natAbs
  next => exact spells_decimal _

lemma toList_hex (width n : Nat) :
    ("0x" ++ Text.hex width n).toList = '0' :: 'x' :: Text.hexDigits width n := by
  simp [Text.hex]

lemma spells_hex (width n : Nat) :
    Spells ("0x" ++ Text.hex width n).toList ⟨.hexadecimal, "0x" ++ Text.hex width n⟩ := by
  obtain ⟨numeral, htext⟩ := HexNumeral.exists_text (.inl rfl) (Text.hexDigits_ne_nil width n)
    fun _ => Text.isHexDigit_of_mem_hexDigits
  have hderives : Derives ⟨.hexadecimal, String.ofList numeral.text⟩ numeral.text [] := .hexadecimal numeral
  rw [htext, ← toList_hex, String.ofList_toList] at hderives
  exact hderives.spells rfl

/-! ### Comments -/

/-- A text that is a comment from its first to its last character. -/
structure IsRemark (text : String) : Prop where
  exists_text : ∃ s, text.toList = ';' :: s
  clean : Text.Clean text.toList
  newline_not_mem : '\n' ∉ text.toList

lemma IsRemark.scanLine {text : String} (h : IsRemark text) :
    scanLine text.toList = .ok [⟨.comment, text⟩, Token.lineEnd] := by
  obtain ⟨s, hs⟩ := h.exists_text
  have hstart : Text.trimStart (';' :: s) = ';' :: s := List.dropWhile_cons_of_neg (by decide)
  have htext : String.ofList (';' :: s) = text := by rw [← hs, String.ofList_toList]
  have hscan : scanToken ';' s = .ok (⟨.comment, text⟩, []) := by
    rw [← htext]
    rfl
  have hnil : tokensFrom false [] = .ok [Token.lineEnd] := by
    rw [tokensFrom_eq]
    rfl
  rw [Lexer.scanLine, h.clean.trimEnd_eq, hs, tokensFrom_eq, hstart]
  simp only [Bool.false_and, Bool.false_eq_true, if_false, hscan]
  exact congrArg (Except.map _) hnil

/-! ### The tokens of a line -/

/-- The text of the token spells it and fits on one line. -/
structure Written (t : Token) : Prop where
  spells : Spells t.text.toList t
  newline_not_mem : '\n' ∉ t.text.toList

/-- What holds of the tokens of a line: arguments and comments could be written again as they
are. -/
def Proper (t : Token) : Prop :=
  (Reader.isArgument t = true → Written t) ∧ (t.kind = .comment → IsRemark t.text)

lemma proper_of_scanToken (hclean : Text.Clean (c :: s)) (hnewline : '\n' ∉ c :: s)
    (h : scanToken c s = .ok (t, rest)) : Proper t := by
  obtain ⟨w, hw, hderives⟩ := exists_derives h
  rw [hw] at hclean hnewline
  constructor
  · intro ht
    have htext := hderives.toList_text ht
    refine ⟨?_, ?_⟩
    · rw [htext]
      exact hderives.spells ht
    · rw [htext]
      exact fun hmem => hnewline (List.mem_append_left rest hmem)
  · intro hkind
    cases hderives with
    | comment text =>
      rw [List.append_nil] at hclean hnewline
      have htoList := String.toList_ofList (l := ';' :: text)
      exact ⟨⟨text, htoList⟩, by rwa [htoList], by rwa [htoList]⟩
    | _ => cases hkind

lemma proper_of_tokensFrom {afterCall : Bool} (h : tokensFrom afterCall s = .ok tokens)
    (hclean : Text.Clean s) (hnewline : '\n' ∉ s) (ht : t ∈ tokens) : Proper t := by
  fun_induction tokensFrom afterCall s generalizing tokens with
  | case1 =>
    cases h
    rw [List.mem_singleton.1 ht]
    exact ⟨fun hargument => absurd hargument (by decide), fun hkind => absurd hkind (by decide)⟩
  | case2 b s c s' hs _ _ ih =>
    have hsuffix : s' <:+ s := (List.suffix_cons c s').trans (hs ▸ List.dropWhile_suffix _)
    exact ih h (hclean.suffix hsuffix) (fun hmem => hnewline (hsuffix.mem hmem)) ht
  | case3 => cases h
  | case4 => cases h
  | case5 b s c s' hs _ _ token rest hscan _ tokens' hrec ih =>
    cases h
    have hsuffix : c :: s' <:+ s := hs ▸ List.dropWhile_suffix _
    rcases List.mem_cons.1 ht with rfl | ht
    · exact proper_of_scanToken (hclean.suffix hsuffix) (fun hmem => hnewline (hsuffix.mem hmem)) hscan
    · obtain ⟨w, hw, -⟩ := exists_derives hscan
      have hrest : rest <:+ s := List.IsSuffix.trans ⟨w, hw.symm⟩ hsuffix
      exact ih hrec (hclean.suffix hrest) (fun hmem => hnewline (hrest.mem hmem)) ht

/-- The arguments and the comments of a line could be written again as they are. -/
theorem proper_of_mem_tokenize {source : String} (hnewline : '\n' ∉ source.toList)
    (ht : t ∈ tokenize source) : Proper t := by
  rw [tokenize] at ht
  split at ht
  next tokens h =>
    exact proper_of_tokensFrom h (Text.clean_trimEnd _)
      (fun hmem => hnewline (Text.mem_of_mem_trim hmem)) ht
  next =>
    rw [List.mem_singleton.1 ht]
    exact ⟨nofun, nofun⟩

end Lexer

end Pep10
