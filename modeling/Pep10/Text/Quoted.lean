import Pep10.Text.Numeral

/-!
# Quoted constants

Character and string constants keep their source text, quotes included.  The bytes they stand for
are found by dropping the quotes and decoding what lies between: a backslash begins an escape that
stands for one byte, and any other character stands for its UTF-8 encoding.
-/

namespace Pep10.Text

/-- What lies between the quotes: everything but the first and the last character.  Both must be
single bytes, otherwise nothing lies between them. -/
def betweenQuotes (s : List Char) : List Char :=
  match s with
  | [] => []
  | first :: rest =>
    match rest.getLast? with
    | none => []
    | some last => if first.val < 0x80 && last.val < 0x80 then rest.dropLast else []

/-- The byte named by a one-letter escape; a character without a meaning of its own stands for
the low byte of its code point. -/
def escapeByte (c : Char) : UInt8 :=
  match c with
  | 'b' => 8
  | 'f' => 12
  | 'n' => 10
  | 'r' => 13
  | 't' => 9
  | 'v' => 11
  | _ => UInt8.ofNat c.toNat

/-- The byte named by the one or two characters after a hexadecimal escape.  A leading plus sign
is accepted, and what is no numeral stands for zero. -/
def hexByte (digits : List Char) : UInt8 :=
  let magnitude :=
    match digits with
    | '+' :: rest => rest
    | _ => digits
  if magnitude.all isHexDigit then UInt8.ofNat (valueOf 16 magnitude) else 0

/-- The bytes that the text between two quotes stands for. -/
def decode : List Char → List UInt8
  | [] => []
  | ['\\'] => [0x5C]
  | '\\' :: c :: s =>
    if c == 'x' || c == 'X' then
      match s with
      | [] => [hexByte []]
      | [a] => [hexByte [a]]
      | a :: b :: rest => hexByte [a, b] :: decode rest
    else escapeByte c :: decode s
  | c :: s => String.utf8EncodeChar c ++ decode s

/-- The bytes of a quoted constant. -/
def unquote (quoted : String) : List UInt8 := decode (betweenQuotes quoted.toList)

/-- The word that the last two bytes make up, the first of them in the high half. -/
def bigEndian (bytes : List UInt8) : UInt16 :=
  bytes.foldl (fun word b => word <<< 8 ||| b.toUInt16) 0

/-- The value of a quoted constant as a word. -/
def quotedValue (quoted : String) : UInt16 := bigEndian (unquote quoted)

end Pep10.Text
