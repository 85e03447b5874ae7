import Pep10.Text.Ascii

/-!
# Numerals

Reading and writing of numbers in decimal and hexadecimal.  Readers take a list of digits that
has been recognised before; writers give upper-case digits.
-/

namespace Pep10.Text

/-- The value of one digit of either base; other characters count as zero. -/
def digitValue (c : Char) : Nat :=
  if c.isDigit then c.toNat - '0'.toNat
  else if 'a' ≤ c && c ≤ 'f' then c.toNat - 'a'.toNat + 10
  else if 'A' ≤ c && c ≤ 'F' then c.toNat - 'A'.toNat + 10
  else 0

/-- The number that a list of digits denotes in the given base. -/
def valueOf (base : Nat) (digits : List Char) : Nat :=
  digits.foldl (fun n c => n * base + digitValue c) 0

/-- The number that an optionally signed decimal numeral denotes. -/
def signedValue : List Char → Int
  | '-' :: digits => -(valueOf 10 digits : Int)
  | '+' :: digits => valueOf 10 digits
  | digits => valueOf 10 digits

/-- The upper-case hexadecimal digit for a number below sixteen. -/
def hexDigit (n : Nat) : Char :=
  if n < 10 then Char.ofNat ('0'.toNat + n) else Char.ofNat ('A'.toNat + (n - 10))

/-- The hexadecimal digits of a number, at least `width` of them. -/
def hexDigits (width n : Nat) : List Char :=
  let digits := (Nat.toDigits 16 n).map Char.toUpper
  List.replicate (width - digits.length) '0' ++ digits

/-- The two hexadecimal digits of a byte. -/
def byteDigits (b : UInt8) : List Char := [hexDigit (b.toNat / 16), hexDigit (b.toNat % 16)]

/-- The hexadecimal digits of a number as text, at least `width` of them. -/
def hex (width n : Nat) : String := String.ofList (hexDigits width n)

/-- The decimal digits of a number as text. -/
def decimal (n : Nat) : String := String.ofList (Nat.toDigits 10 n)

/-- A number in decimal, with a sign when it is negative. -/
def signedDecimal (n : Int) : String :=
  if n < 0 then String.ofList ('-' :: Nat.toDigits 10 n.natAbs) else decimal n.natAbs

end Pep10.Text
