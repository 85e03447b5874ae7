/-!
# ASCII letters, digits and identifiers

Names are compared without regard to ASCII case; no other character has a case here.  An
identifier starts with a letter or an underscore and goes on with letters, digits and underscores.
-/

namespace Pep10.Text

/-- Two texts that differ at most in the case of ASCII letters. -/
def sameName (a b : String) : Bool :=
  a.toList.map Char.toLower == b.toList.map Char.toLower

/-- Two lists of texts that agree entry by entry up to ASCII case. -/
def sameNames : List String → List String → Bool
  | [], [] => true
  | a :: as, b :: bs => sameName a b && sameNames as bs
  | _, _ => false

/-- The first character of an identifier. -/
def isNameStart (c : Char) : Bool := c.isAlpha || c == '_'

/-- A later character of an identifier. -/
def isNameRest (c : Char) : Bool := c.isAlphanum || c == '_'

/-- Whether a text is an identifier. -/
def isIdentifier : List Char → Bool
  | [] => false
  | c :: s => isNameStart c && s.all isNameRest

/-- Whether a character is a hexadecimal digit of either case. -/
def isHexDigit (c : Char) : Bool :=
  c.isDigit || ('a' ≤ c && c ≤ 'f') || ('A' ≤ c && c ≤ 'F')

end Pep10.Text
