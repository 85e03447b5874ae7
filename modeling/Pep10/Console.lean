import Pep10.Build

/-!
# The command

The command assembles the text on its standard input.  A text with a `.BURN` in it is taken for an
operating system, any other for a user program.
-/

namespace Pep10

/-- Whether a list occurs in another one without a gap. -/
def occursIn (needle : List Char) : List Char → Bool
  | [] => needle.isEmpty
  | c :: s => needle.isPrefixOf (c :: s) || occursIn needle s

/-- Whether a source text is taken for an operating system. -/
def looksLikeSystem (source : String) : Bool :=
  occursIn ".BURN".toList (source.toList.map Char.toUpper)

/-- What the command prints for a source text, and whether it succeeds. -/
def command (source : String) : String × Bool :=
  let result :=
    if looksLikeSystem source then buildSystem {} {} source else buildUser {} {} source none
  match result.2 with
  | .ok o =>
    (o.objectText ++ "\n\n" ++ o.program.listing ++ "\n" ++ o.program.symbolListing, true)
  | .error log => (log.annotate source, false)

end Pep10
