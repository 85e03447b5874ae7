import Pep10.Token.Lexer

/-!
# Token streams

A stream gives the tokens of several lines one after another.  Lines are split into tokens only
when they are needed.  A token that has been matched is kept until it is taken, oldest first.
-/

namespace Pep10

/-- The tokens of several lines. -/
structure TokenStream where
  /-- The lines that have not been looked at. -/
  lines : List String
  /-- Tokens that have not been matched. -/
  backlog : List Token := []
  /-- Tokens that have been matched and not been taken. -/
  matched : List Token := []
  linesRead : Nat := 0
  deriving DecidableEq, Repr

namespace TokenStream

/-- The stream of the given lines. -/
def ofLines (lines : List String) : TokenStream := { lines }

/-- Splits lines until there is a token. -/
def pull (matched : List Token) : List String → Nat → TokenStream
  | [], linesRead => ⟨[], [], matched, linesRead⟩
  | line :: lines, linesRead =>
    match tokenize line with
    | [] => pull matched lines (linesRead + 1)
    | tokens => ⟨lines, tokens, matched, linesRead + 1⟩

/-- Makes sure that there is a token in the backlog, if there are tokens left. -/
def fill (s : TokenStream) : TokenStream :=
  if s.backlog.isEmpty then pull s.matched s.lines s.linesRead else s

/-- Whether there are tokens left. -/
def remains (s : TokenStream) : Bool × TokenStream := (!s.fill.backlog.isEmpty, s.fill)

/-- The next token, which stays where it is. -/
def peek (s : TokenStream) : Option Token × TokenStream := (s.fill.backlog.head?, s.fill)

/-- Whether the next token is of the given kind. -/
def lookahead (s : TokenStream) (kind : Token.Kind) : Bool × TokenStream :=
  (s.fill.backlog.head?.any fun token => token.kind == kind, s.fill)

/-- Matches the next token if it is of the given kind; tells whether it was. -/
def matchKind (s : TokenStream) (kind : Token.Kind) : Bool × TokenStream :=
  let s := s.fill
  match s.backlog with
  | [] => (false, s)
  | token :: rest =>
    if token.kind == kind then
      (true, { s with backlog := rest, matched := s.matched ++ [token] })
    else (false, s)

/-- Matches the next token if it is of one of the given kinds; tells whether it was. -/
def matchOneOf (s : TokenStream) : List Token.Kind → Bool × TokenStream
  | [] => (false, s)
  | kind :: kinds =>
    match s.matchKind kind with
    | (true, s) => (true, s)
    | (false, s) => s.matchOneOf kinds

/-- Takes the oldest token that has been matched. -/
def take (s : TokenStream) : Option Token × TokenStream :=
  match s.matched with
  | [] => (none, s)
  | token :: rest => (some token, { s with matched := rest })

end TokenStream

end Pep10
