/-!
# Tokens

A token is a classified piece of a source line.  Its text leaves out framing that is not part of
the value: the `@` of a macro call, the point of a directive, the colon of a label and the comma
before an addressing mode.  Constants and comments keep their whole text.
-/

namespace Pep10

/-- The ways in which a line can fail to split into tokens. -/
inductive LexicalError where
  | mode
  | charConstant
  | decimal
  | directive
  | hexadecimal
  | stringConstant
  | call
  | placeholder
  | unrecognised
  deriving DecidableEq, Repr

/-- What a lexical error tells the user. -/
def LexicalError.message : LexicalError → String
  | mode => "Malformed addressing mode."
  | charConstant => "Malformed character constant."
  | decimal => "Malformed decimal constant."
  | directive => "Malformed dot command."
  | hexadecimal => "Malformed hex constant."
  | stringConstant => "Malformed string constant."
  | call => "Malformed macro invocation."
  | placeholder => "Malformed macro substitution."
  | unrecognised => "Syntax error."

/-- The kinds of tokens. -/
inductive Token.Kind where
  | mode
  | charConstant
  | comment
  | decimal
  | directive
  | hexadecimal
  | identifier
  | label
  | stringConstant
  | call
  | placeholder
  /-- The end of a well-formed line. -/
  | lineEnd
  /-- A line that does not split into tokens. -/
  | malformed (error : LexicalError)
  deriving DecidableEq, Repr

/-- A classified piece of a source line. -/
structure Token where
  kind : Token.Kind
  text : String
  deriving DecidableEq, Repr

/-- The token that ends every well-formed line. -/
def Token.lineEnd : Token := ⟨.lineEnd, ""⟩

end Pep10
