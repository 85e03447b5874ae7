import Pep10.Proofs.Token.Spelling

/-!
# Quoted constants stand for their units

The lexer recognises a quoted constant and `unquote` decodes it, each in its own way.  Both go by
the same units: what the lexer takes one by one between the quotes is what is decoded one by one
(`unquote_of_mem_tokenize`).  So the ways in which decoding could go wrong never matter for a
constant in a line, and a character constant stands for one byte.  Every sequence of bytes is that
of a constant.
-/

namespace Pep10

open Text (QuotedUnit quoted unquote)

namespace Lexer

/-- The lexer takes the texts as units, one by one, from the front of `s` up to `rest`. -/
inductive Takes : List (List Char) → List Char → List Char → Prop
  | nil {s : List Char} : Takes [] s s
  | cons {u s rest : List Char} {units : List (List Char)} (hunit : quotedUnit (u ++ s) = .ok s)
      (hrest : Takes units s rest) : Takes (u :: units) (u ++ s) rest

lemma takes_units {quote : Char} (units : List (QuotedUnit quote)) (rest : List Char) :
    Takes (units.map QuotedUnit.text) (units.flatMap QuotedUnit.text ++ rest) rest := by
  induction units with
  | nil => exact .nil
  | cons u units ih =>
    rw [List.map_cons, List.flatMap_cons, List.append_assoc]
    exact .cons (quotedUnit_text_append u _) ih

end Lexer

/-- The text is a constant with these units between its quotes: the lexer takes just them, whatever
is behind the constant, and decoding gives their bytes. -/
structure HasUnits (text : String) {quote : Char} (units : List (QuotedUnit quote)) : Prop where
  toList_eq : text.toList = quote :: (units.flatMap QuotedUnit.text ++ [quote])
  takes : ∀ rest, Lexer.Takes (units.map QuotedUnit.text)
    (units.flatMap QuotedUnit.text ++ quote :: rest) (quote :: rest)
  unquote_eq : unquote text = units.flatMap QuotedUnit.bytes

lemma hasUnits_quoted {quote : Char} (hquote : quote.val < 0x80) (units : List (QuotedUnit quote)) :
    HasUnits (String.ofList (quoted units)) units where
  toList_eq := String.toList_ofList
  takes rest := Lexer.takes_units units (quote :: rest)
  unquote_eq := Text.unquote_quoted hquote units

lemma hasUnits_of_mem_tokenize {line : String} {t : Token} (ht : t ∈ tokenize line) :
    (t.kind = .stringConstant → ∃ units : List (QuotedUnit '"'), HasUnits t.text units) ∧
      (t.kind = .charConstant → ∃ u : QuotedUnit '\'', HasUnits t.text [u] ∧ u.bytes.length = 1) := by
  constructor
  · intro hkind
    obtain ⟨w, rest, hderives⟩ := Lexer.derives_of_mem_tokenize ht (by simp [hkind]) (by simp [hkind])
    cases hderives with
    | stringConstant units => exact ⟨units, hasUnits_quoted (by decide) units⟩
    | _ => cases hkind
  · intro hkind
    obtain ⟨w, rest, hderives⟩ := Lexer.derives_of_mem_tokenize ht (by simp [hkind]) (by simp [hkind])
    cases hderives with
    | charConstant u hbyte => exact ⟨u, hasUnits_quoted (by decide) [u], hbyte⟩
    | _ => cases hkind

/-- Units between quotes are a string constant. -/
lemma tokenize_quoted (units : List (QuotedUnit '"')) :
    tokenize (String.ofList (quoted units)) =
      [⟨.stringConstant, String.ofList (quoted units)⟩, Token.lineEnd] := by
  have hderives : Lexer.Derives ⟨.stringConstant, String.ofList (quoted units)⟩ (quoted units) [] :=
    .stringConstant units
  exact (hderives.spells rfl).tokenize_eq

/-! ### Constants for bytes -/

/-- A constant with an escape of two hexadecimal digits for each byte. -/
def escaped (bytes : List UInt8) : String :=
  String.ofList ('"' :: (bytes.flatMap (fun b => '\\' :: 'x' :: Text.byteDigits b) ++ ['"']))

lemma exists_units_escaped (bytes : List UInt8) :
    ∃ units : List (QuotedUnit '"'), escaped bytes = String.ofList (quoted units) ∧
      units.flatMap QuotedUnit.bytes = bytes := by
  have hunits : ∃ units : List (QuotedUnit '"'), units.flatMap QuotedUnit.text =
      bytes.flatMap (fun b => '\\' :: 'x' :: Text.byteDigits b) ∧ units.flatMap QuotedUnit.bytes = bytes := by
    induction bytes with
    | nil => exact ⟨[], rfl, rfl⟩
    | cons b bytes ih =>
      obtain ⟨units, htext, hbytes⟩ := ih
      obtain ⟨u, hu, hub⟩ := Text.exists_unit_ofByte '"' b
      refine ⟨u :: units, ?_, ?_⟩
      · rw [List.flatMap_cons, List.flatMap_cons, hu, htext]
      · rw [List.flatMap_cons, hub, hbytes, List.singleton_append]
  obtain ⟨units, htext, hbytes⟩ := hunits
  exact ⟨units, by rw [escaped, quoted, htext], hbytes⟩

/-- In every line, what the lexer takes as the units of a quoted constant is what is decoded, and a
character constant stands for one byte.  The other way round, units between double quotes are a
string constant; so every sequence of bytes is written by a constant with an escape for each
byte. -/
theorem unquote_of_mem_tokenize :
    (∀ (line : String) (t : Token), t ∈ tokenize line →
      (t.kind = .stringConstant → ∃ units : List (QuotedUnit '"'), HasUnits t.text units) ∧
        (t.kind = .charConstant → ∃ u : QuotedUnit '\'', HasUnits t.text [u] ∧ (unquote t.text).length = 1)) ∧
      (∀ units : List (QuotedUnit '"'), tokenize (String.ofList (quoted units)) =
        [⟨.stringConstant, String.ofList (quoted units)⟩, Token.lineEnd]) ∧
      ∀ bytes : List UInt8, tokenize (escaped bytes) = [⟨.stringConstant, escaped bytes⟩, Token.lineEnd] ∧
        unquote (escaped bytes) = bytes := by
  refine ⟨fun line t ht => ⟨(hasUnits_of_mem_tokenize ht).1, fun hkind => ?_⟩, tokenize_quoted, fun bytes => ?_⟩
  · obtain ⟨u, hunit, hbyte⟩ := (hasUnits_of_mem_tokenize ht).2 hkind
    refine ⟨u, hunit, ?_⟩
    rw [hunit.unquote_eq, List.flatMap_singleton, hbyte]
  · obtain ⟨units, htext, hbytes⟩ := exists_units_escaped bytes
    rw [htext]
    exact ⟨tokenize_quoted units, (Text.unquote_quoted (by decide) units).trans hbytes⟩

theorem unquote_of_mem_tokenize_tab :
    ⟨.charConstant, "'\\x7f'"⟩ ∈ tokenize "CPBA '\\x7f',i ; \"" ∧
      ⟨.stringConstant, "\"\\t'€\\\"\""⟩ ∈ tokenize "x: .ASCII \"\\t'€\\\"\"; \"" ∧
      (∃ u : QuotedUnit '\'', HasUnits "'\\x7f'" [u] ∧ (unquote "'\\x7f'").length = 1) ∧
      ∃ units : List (QuotedUnit '"'), HasUnits "\"\\t'€\\\"\"" units := by
  have hchar : ⟨.charConstant, "'\\x7f'"⟩ ∈ tokenize "CPBA '\\x7f',i ; \"" := by decide +kernel
  have hstring : ⟨.stringConstant, "\"\\t'€\\\"\""⟩ ∈ tokenize "x: .ASCII \"\\t'€\\\"\"; \"" := by
    decide +kernel
  exact ⟨hchar, hstring, (unquote_of_mem_tokenize.1 _ _ hchar).2 rfl,
    (unquote_of_mem_tokenize.1 _ _ hstring).1 rfl⟩

end Pep10
