import Pep10.Line.Source
import Pep10.Ordered
import Pep10.Program.Expansion

/-!
# Listings

The listing shows the root module with every macro expanded in place, each line behind its address
and its object code.  The symbol listing shows the symbols that the root declares, and the object
text the object code alone.
-/

namespace Pep10

/-- The width of the column for addresses. -/
def addressWidth : Nat := 6

/-- The width of the column for object code. -/
def codeWidth : Nat := 7

/-- How many bytes of object code fit a line of a listing. -/
def codeBytes : Nat := 3

/-- A line of a listing, without trailing blanks and with a line feed. -/
def listingLine (s : String) : String := Text.trimLine s ++ "\n"

/-- The digits of some bytes. -/
def bytesText (bytes : List UInt8) : String := String.ofList (bytes.flatMap Text.byteDigits)

/-- The text in the column for addresses.  Lines that take no part in memory show none. -/
def Line.addressText (line : Line) : String :=
  match line.statement, line.address with
  | .directive .equate _, _ => ""
  | .directive .publish _, _ => ""
  | .directive .scall _, _ => ""
  | .directive .uscall _, _ => ""
  | .align _ padding, some address => if padding == 0 then "" else Text.hex 4 address.toNat
  | _, some address => Text.hex 4 address.toNat
  | _, none => ""

/-- The bytes behind the first line of a listing, as lines of their own; `n` bounds the number of
bytes. -/
def continuation : Nat → List UInt8 → List String
  | _, [] => []
  | 0, _ => []
  | n + 1, bytes =>
    listingLine (Text.padRight addressWidth "" ++ bytesText (bytes.take codeBytes)) ::
      continuation n (bytes.drop codeBytes)

/-- A line with its address and its code. -/
def Line.listing (line : Line) (code : List UInt8) : String :=
  String.join <|
    listingLine
        (Text.padRight addressWidth line.addressText ++
          Text.padRight codeWidth (bytesText (code.take codeBytes)) ++ line.source) ::
      continuation code.length (code.drop codeBytes)

/-- A line of a listing that shows neither address nor code. -/
def plainListing (s : String) : String :=
  listingLine (Text.padRight (addressWidth + codeWidth) "" ++ s)

/-- The listing of a line, where `listChild` lists called instances. -/
def Line.listingIn (listChild : Nat → String) (symbols : SymbolStore) (i : Instance)
    (isRoot : Bool) (line : Line) : String :=
  match line.statement with
  | .blank => "\n"
  | .call _ _ target =>
    plainListing line.source ++ listChild target ++ plainListing ";end macro"
  | .endMark => if isRoot then line.listing (line.code symbols i.table) else ""
  | _ => line.listing (line.code symbols i.table)

namespace Program

/-- The listing of an instance, down to the given depth.  The end of a macro is not listed. -/
def listInstance (p : Program) : Nat → Nat → String
  | 0, _ => ""
  | depth + 1, id =>
    String.join <|
      (p.inst id).lines.map
        (Line.listingIn (p.listInstance depth) p.symbols (p.inst id) (id == root))

/-- The listing of a program. -/
def listing (p : Program) : String := p.listInstance p.instances.size root

/-- Whether a symbol is shown in the symbol listing: the root declares it, and it is no import. -/
def isListed (s : Symbol) : Bool :=
  s.defined &&
    match s.value with
    | .external _ => false
    | _ => true

/-- The line of a symbol in the symbol listing. -/
def symbolLine (p : Program) (s : Symbol) : String :=
  let value := (p.symbols.value? p.rootTable s.name).getD 0
  Text.padRight labelWidth s.name ++ Text.hex 4 value.toNat ++
    (if s.multiplyDefined then " (multiply defined)" else "") ++ "\n"

/-- The symbols that the root declares, by name. -/
def symbolListing (p : Program) : String :=
  let listed := (p.symbols.table p.rootTable).symbols.filter isListed
  String.join ((Ordered.sort (fun a b => a.name < b.name) listed).map p.symbolLine)

end Program

/-- The digits of bytes, each followed by a blank or, where `column` has reached the end of a line
of `perLine` bytes, by a line feed. -/
def objectDigits (perLine : Nat) : Nat → List UInt8 → List Char
  | _, [] => []
  | column, b :: bytes =>
    let ends := column % perLine == perLine - 1
    Text.byteDigits b ++ (if ends then '\n' else ' ') :: objectDigits perLine (column + 1) bytes

/-- Object code as text: pairs of digits, a number of them to a line, and the mark `zz`. -/
def objectText (bytes : List UInt8) (perLine : Nat) : String :=
  String.ofList (objectDigits (max perLine 1) 0 bytes ++ ['z', 'z'])

end Pep10
