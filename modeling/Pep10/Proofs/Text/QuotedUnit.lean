import Pep10.Proofs.Text.Literal
import Pep10.Proofs.Text.Quoted

/-!
# The units of quoted constants

What stands between the quotes of a constant is a sequence of units.  A unit is a plain character,
which stands for its encoding, or an escape, which stands for one byte; the byte is the one that the
escape is named for, or the one with the two hexadecimal digits.  Decoding a constant that is
written from units gives their bytes, one unit after the other (`unquote_quoted`).
-/

namespace Pep10.Text

/-- The escapes of one letter. -/
inductive Escape where
  | backspace
  | formFeed
  | lineFeed
  | carriageReturn
  | tab
  | verticalTab
  | singleQuote
  | doubleQuote
  | backslash
  deriving DecidableEq, Repr

namespace Escape

/-- The letter behind the backslash. -/
def letter : Escape → Char
  | backspace => 'b'
  | formFeed => 'f'
  | lineFeed => 'n'
  | carriageReturn => 'r'
  | tab => 't'
  | verticalTab => 'v'
  | singleQuote => '\''
  | doubleQuote => '"'
  | backslash => '\\'

/-- The byte that an escape stands for. -/
def byte : Escape → UInt8
  | backspace => 8
  | formFeed => 12
  | lineFeed => 10
  | carriageReturn => 13
  | tab => 9
  | verticalTab => 11
  | singleQuote => 39
  | doubleQuote => 34
  | backslash => 92

end Escape

/-- A unit of a constant between quotes of the given kind. -/
inductive QuotedUnit (quote : Char) where
  | plain (c : Char) (ne_quote : c ≠ quote) (ne_backslash : c ≠ '\\')
  | escape (e : Escape)
  /-- A byte with its two hexadecimal digits, behind a mark of either case. -/
  | hex (upperMark : Bool) (high low : HexDigit)
  deriving DecidableEq, Repr

namespace QuotedUnit

variable {quote : Char}

/-- The text of a unit. -/
def text : QuotedUnit quote → List Char
  | plain c _ _ => [c]
  | escape e => ['\\', e.letter]
  | hex upperMark high low => ['\\', if upperMark then 'X' else 'x', high.char, low.char]

/-- The bytes that a unit stands for. -/
def bytes : QuotedUnit quote → List UInt8
  | plain c _ _ => String.utf8EncodeChar c
  | escape e => [e.byte]
  | hex _ high low => [UInt8.ofNat (16 * high.value + low.value)]

/-- The digits of an escape name a byte. -/
lemma hexByte_char (high low : HexDigit) :
    hexByte [high.char, low.char] = UInt8.ofNat (16 * high.value + low.value) := by
  have hvalue : valueOf 16 [high.char, low.char] = 16 * high.value + low.value := by
    rw [valueOf, List.foldl_cons, List.foldl_cons, List.foldl_nil, high.digitValue_char, low.digitValue_char]
    ring
  have hdigits : [high.char, low.char].all isHexDigit = true := by
    simp [high.isHexDigit_char, low.isHexDigit_char]
  unfold hexByte
  split
  next heq =>
    -- A plus sign is no digit.
    obtain ⟨hplus, -⟩ := List.cons.inj heq
    exact absurd (hplus ▸ high.isHexDigit_char) (by decide)
  next => rw [if_pos hdigits, hvalue]

/-- A unit in front of a text is decoded by itself. -/
lemma decode_text_append (u : QuotedUnit quote) (s : List Char) : decode (u.text ++ s) = u.bytes ++ decode s := by
  cases u with
  | plain c _ hc => exact decode_cons hc
  | escape e =>
    have hbyte : marksHex e.letter = false ∧ escapeByte e.letter = e.byte := by cases e <;> decide
    exact (decode_escape hbyte.1).trans (congrArg (· :: decode s) hbyte.2)
  | hex upperMark high low =>
    have hmark : marksHex (if upperMark then 'X' else 'x') = true := by cases upperMark <;> rfl
    exact (decode_hex hmark).trans (congrArg (· :: decode s) (hexByte_char high low))

lemma decode_flatMap_text (units : List (QuotedUnit quote)) :
    decode (units.flatMap text) = units.flatMap bytes := by
  induction units with
  | nil => rfl
  | cons u units ih => rw [List.flatMap_cons, List.flatMap_cons, decode_text_append, ih]

end QuotedUnit

/-- The text of a constant that is written from units. -/
def quoted {quote : Char} (units : List (QuotedUnit quote)) : List Char :=
  quote :: (units.flatMap QuotedUnit.text ++ [quote])

/-- Units between quotes that are single bytes are decoded to their bytes, and nothing else is. -/
theorem unquote_quoted {quote : Char} (hquote : quote.val < 0x80) (units : List (QuotedUnit quote)) :
    unquote (String.ofList (quoted units)) = units.flatMap QuotedUnit.bytes := by
  have hbetween : betweenQuotes (quoted units) = units.flatMap QuotedUnit.text := by
    simp [betweenQuotes, quoted, hquote]
  rw [unquote, String.toList_ofList, hbetween, QuotedUnit.decode_flatMap_text]

/-- Every byte is that of a unit with its two hexadecimal digits. -/
lemma exists_unit_ofByte (quote : Char) (b : UInt8) :
    ∃ u : QuotedUnit quote, u.text = '\\' :: 'x' :: byteDigits b ∧ u.bytes = [b] := by
  have hdigits : ∀ n < 16, isHexDigit (hexDigit n) = true ∧ digitValue (hexDigit n) = n := by decide
  have hexists : ∀ n < 16, ∃ d : HexDigit, d.char = hexDigit n ∧ d.value = n := by
    intro n hn
    obtain ⟨d, hd⟩ := HexDigit.exists_char (hdigits n hn).1
    exact ⟨d, hd, by rw [← d.digitValue_char, hd, (hdigits n hn).2]⟩
  have hlt := b.toNat_lt
  obtain ⟨high, hhigh, hhighValue⟩ := hexists (b.toNat / 16) (by omega)
  obtain ⟨low, hlow, hlowValue⟩ := hexists (b.toNat % 16) (by omega)
  refine ⟨.hex false high low, ?_, ?_⟩
  · simp [QuotedUnit.text, byteDigits, hhigh, hlow]
  · rw [QuotedUnit.bytes, hhighValue, hlowValue, Nat.div_add_mod, UInt8.ofNat_toNat]

end Pep10.Text
