import Pep10.Text.Numeral
import Pep10.Text.Split
import Pep10.Trace.Type

/-!
# Trace tags

Comments carry trace tags: words that begin with a number sign and name a format, an array of a
format, or a declared type.  The words `@params` and `@locals` tell which part of a stack frame the
tags are about.
-/

namespace Pep10.Trace

/-- A well-formed trace tag. -/
inductive Tag where
  | primitive (format : Format)
  | array (format : Format) (length : UInt16)
  | symbol (name : String)
  deriving DecidableEq, Repr

/-- The part of a stack frame that tags are about. -/
inductive FrameHint where
  | params
  | locals
  deriving DecidableEq, Repr

/-- The trace words of a comment. -/
structure Tags where
  tags : List Tag := []
  hint : Option FrameHint := none
  /-- Words that begin like a tag and are none. -/
  malformed : List String := []
  deriving DecidableEq, Repr, Inhabited

/-- Whether a comment has no well-formed tag. -/
def Tags.isEmpty (t : Tags) : Bool := t.tags.isEmpty

/-- Reads the length of an array from the digits before the final letter. -/
def arrayLength? (digits : List Char) : Option UInt16 :=
  if !digits.isEmpty && digits.all Char.isDigit && Text.valueOf 10 digits ≤ 0xFFFF then
    some (UInt16.ofNat (Text.valueOf 10 digits))
  else none

/-- Reads what follows the format in a tag: nothing, or a length and the letter `a`. -/
def Tag.ofFormat? (format : Format) (rest : List Char) : Option Tag :=
  match rest.getLast? with
  | none => some (.primitive format)
  | some c =>
    if c == 'a' || c == 'A' then (arrayLength? rest.dropLast).map (Tag.array format) else none

/-- Reads the text of a tag behind its number sign. -/
def Tag.ofText? : List Char → Option Tag
  | [] => none
  | c :: s =>
    if Text.isNameStart c then
      if s.all Text.isNameRest then some (.symbol (String.ofList (c :: s))) else none
    else
      match s with
      | [] => none
      | d :: rest => (Format.ofName? [c, d]).bind fun format => Tag.ofFormat? format rest

/-- Reads the text of a frame hint behind its at sign. -/
def FrameHint.ofText? (s : List Char) : Option FrameHint :=
  if s.map Char.toLower == "params".toList then some .params
  else if s.map Char.toLower == "locals".toList then some .locals
  else none

/-- Adds one word of a comment. -/
def Tags.addWord (t : Tags) (word : List Char) : Tags :=
  match word with
  | '@' :: s => { t with hint := (FrameHint.ofText? s).or t.hint }
  | '#' :: s =>
    match Tag.ofText? s with
    | some tag => { t with tags := t.tags ++ [tag] }
    | none => { t with malformed := t.malformed ++ [String.ofList word] }
  | _ => t

/-- Whether a character separates the words of a comment. -/
def separatesWords (c : Char) : Bool := Text.isBlank c || c == ',' || c == ';'

/-- The trace words of a comment. -/
def Tags.ofComment (comment : String) : Tags :=
  (Text.fields separatesWords comment.toList).foldl addWord {}

end Pep10.Trace
