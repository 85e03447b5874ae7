import Pep10.Diagnostic.Cause
import Pep10.Macro.Placeholder
import Pep10.Text.Split

/-!
# Macro calls on a source line

Which macro a line calls is found in its raw text, before the line is split into tokens.  An at
sign, a semicolon or a comma counts only outside quoted constants.  The call is the text between
the only at sign and the comment: a name, and behind it the arguments between commas.
-/

namespace Pep10

/-- A macro call: the name and the arguments as they are written. -/
structure MacroCall where
  name : String
  args : List String
  deriving DecidableEq, Repr

namespace MacroCall

/-! ### Quotation -/

/-- Where a scan of a line stands with respect to quoted constants. -/
inductive Quotation where
  | outside
  | inside (quote : Char)
  | escaped (quote : Char)
  deriving DecidableEq, Repr

/-- The state behind the character `c`. -/
def Quotation.next (state : Quotation) (c : Char) : Quotation :=
  match state with
  | outside => if c == '\'' || c == '"' then inside c else outside
  | inside quote =>
    if c == '\\' then escaped quote else if c == quote then outside else inside quote
  | escaped quote => inside quote

/-- Whether the character `c` read in a state stands outside all quoted constants. -/
def Quotation.exposes (state : Quotation) (c : Char) : Bool :=
  state == .outside && c != '\'' && c != '"'

/-- The text before the first exposed `mark`. -/
def beforeMark (mark : Char) (state : Quotation) : List Char → List Char
  | [] => []
  | c :: s =>
    if state.exposes c && c == mark then [] else c :: beforeMark mark (state.next c) s

/-- The fields between the exposed occurrences of `mark`. -/
def fieldsAt (mark : Char) (state : Quotation) : List Char → List (List Char)
  | [] => [[]]
  | c :: s =>
    if state.exposes c && c == mark then [] :: fieldsAt mark .outside s
    else
      match fieldsAt mark (state.next c) s with
      | [] => [[c]]
      | field :: rest => (c :: field) :: rest

/-! ### The call -/

/-- Whether a macro name ends before the character. -/
def endsName (c : Char) : Bool := Text.isBlank c || c == ','

/-- The arguments written behind the name of a macro. -/
def argsOf (s : List Char) : List String :=
  if s.isEmpty then []
  else (fieldsAt ',' .outside s).map fun arg => String.ofList (Text.trim arg)

/-- Checks the name of a called macro. -/
def checkName : List Char → Except IncludeError Unit
  | [] => .error .noIdentifier
  | c :: s =>
    if !Text.isNameStart c then .error .noIdentifier
    else if (c :: s).contains '$' then .error .dollarInName
    else if s.all Text.isNameRest then .ok ()
    else .error .noIdentifier

/-- The call written behind an at sign. -/
def ofText (s : List Char) : Except IncludeError MacroCall :=
  let name := s.takeWhile fun c => !endsName c
  let behind := s.dropWhile fun c => !endsName c
  match checkName name with
  | .error e => .error e
  | .ok () => .ok ⟨String.ofList name, argsOf (Text.trim behind)⟩

/-- The macro call on a source line, if there is one. -/
def ofLine? (line : String) : Except IncludeError (Option MacroCall) :=
  let code := beforeMark ';' .outside line.toList
  match fieldsAt '@' .outside code with
  | [_, text] => (ofText text).map some
  | _ :: _ :: _ => .error .severalCalls
  | _ => .ok none

end MacroCall

end Pep10
