import Pep10.Text.Numeral
import Pep10.Token.Basic

/-!
# What can go wrong

Each phase of assembly has its own type of causes: finding the macros that a module includes,
reading its lines, linking, and reading trace tags.  The wording of every cause is in its
`message` function and nowhere else.
-/

namespace Pep10

/-- Why the macros that a module includes cannot be found. -/
inductive IncludeError where
  | severalCalls
  | noIdentifier
  | noSuchMacro
  | wrongArity
  | dollarInName
  | badArgument (placeholder : String)
  | circular
  | selfReference
  deriving DecidableEq, Repr

/-- What an inclusion error tells the user. -/
def IncludeError.message : IncludeError → String
  | severalCalls => "Only one macro may be referenced per line."
  | noIdentifier => "A @ must be followed by a string identifier."
  | noSuchMacro => "Referenced macro does not exist."
  | wrongArity => "Macro supplied wrong number of arguments."
  | dollarInName => "Cannot use $ as part of a macro identifier."
  | badArgument placeholder =>
    "Bad argument: " ++ placeholder ++ ". Cannot use $ in macro argument."
  | circular => "Circular macro inclusion detected."
  | selfReference => "Macro definition invokes itself."

/-- Why a source line cannot be read. -/
inductive LineError where
  | lexical (error : LexicalError)
  | invalidMnemonic
  | invalidDirective
  | longSymbol (name : String)
  | nothingAfterLabel
  | unexpectedToken
  | commentExpected
  | placeholder (text : String)
  | operandExpected
  | modeRequired
  | illegalMode
  | hexRange
  | decimalRange
  | unsignedRange
  | byteDecimalRange
  | byteHexRange
  | stringTooLong
  | byteStringLength
  | labelledEnd
  | afterEnd
  | missingEnd
  | equateWithoutLabel
  | equateArgument
  | wordArgument
  | byteArgument
  | blockArgument
  | burnArgument
  | alignArgument
  | asciiArgument
  | symbolArgument (directive : String)
  | unexpectedLabel (directive : String)
  | systemOnly (directive : String)
  | callRegistration
  | noSuchMacro
  | wrongArity
  | missingInstance (name : String)
  deriving DecidableEq, Repr

/-- What an error in a line tells the user. -/
def LineError.message : LineError → String
  | lexical error => error.message
  | invalidMnemonic => "Invalid mnemonic."
  | invalidDirective => "Invalid dot command."
  | longSymbol name => "Symbol " ++ name ++ " cannot have more than eight characters."
  | nothingAfterLabel =>
    "Must have mnemonic, dot command, or macro invocation after symbol definition."
  | unexpectedToken =>
    "Line must start with a symbol definition, mnemonic, dot command, macro invocation, " ++
      "or comment."
  | commentExpected => "Comment expected following instruction."
  | placeholder text => "Unexpected macro substitution " ++ text ++ "."
  | operandExpected => "Operand specifier expected after mnemonic."
  | modeRequired => "Addressing mode required for this instruction."
  | illegalMode => "Illegal addressing mode for this instruction."
  | hexRange => "Hexadecimal constant is out of range (0x0000..0xFFFF)."
  | decimalRange => "Decimal constant is out of range (-32768..65535)."
  | unsignedRange => "Decimal constant is out of range (0..65535)."
  | byteDecimalRange => "Decimal constant is out of byte range (-128..255)."
  | byteHexRange => "Hex constant is out of byte range (0x00..0xFF)."
  | stringTooLong => "String operands must have length at most two."
  | byteStringLength => "Byte string operands must have length one."
  | labelledEnd => ".END directive may not define a symbol."
  | afterEnd => "Only a comment can follow .END."
  | missingEnd => "Missing .END sentinel."
  | equateWithoutLabel => ".EQUATE must have a symbol definition."
  | equateArgument => ".EQUATE requires a dec, hex, or string constant argument."
  | wordArgument => ".WORD requires a char, dec, hex, or string constant argument."
  | byteArgument => ".BYTE requires a char, dec, hex, or string constant argument."
  | blockArgument => ".BLOCK requires a decimal or hex constant argument."
  | burnArgument => ".BURN requires a hex constant argument."
  | alignArgument => ".ALIGN requires a decimal constant 2, 4, or 8."
  | asciiArgument => ".ASCII requires a string constant argument."
  | symbolArgument directive => directive ++ " requires a symbol argument."
  | unexpectedLabel directive => directive ++ " must not have a symbol definition."
  | systemOnly directive => directive ++ " is only allowed in an operating system."
  | callRegistration => "Failed to register system call."
  | noSuchMacro => "Referenced macro does not exist."
  | wrongArity => "Macro supplied wrong number of arguments."
  | missingInstance name =>
    "No preprocessed instance of macro " ++ name ++ " matches its arguments."

/-- Why a program cannot be linked. -/
inductive LinkError where
  | multiplyDefined (name : String)
  | redefinedExport (name : String)
  | undefined (name : String)
  | burnInUserProgram
  | notOneBurn
  | burnNotAtTop
  | exceededMemory
  | missingSymbol (name : String)
  deriving DecidableEq, Repr

/-- What a link error tells the user. -/
def LinkError.message : LinkError → String
  | multiplyDefined name => "Symbol \"" ++ name ++ "\" was previously defined."
  | redefinedExport name =>
    "Attempted to redefine symbol \"" ++ name ++
      "\", which was exported from the operating system."
  | undefined name => "Symbol \"" ++ name ++ "\" is undefined."
  | burnInUserProgram => "Only operating systems may contain a .BURN."
  | notOneBurn => "Operating systems must contain exactly 1 .BURN."
  | burnNotAtTop => ".BURN must have an argument of 0xFFFF."
  | exceededMemory => "Program requires more than 64k bytes of memory."
  | missingSymbol name => "Operating system does not define \"" ++ name ++ "\"."

/-- Why a trace tag cannot be used. -/
inductive TraceError where
  | malformedTag (tag : String)
  | unresolved (name : String)
  | missingTags (mnemonic : String)
  | sizeMismatch (tagged allocated : UInt16)
  deriving DecidableEq, Repr

/-- What a trace error tells the user. -/
def TraceError.message : TraceError → String
  | malformedTag tag => "Malformed trace tag " ++ tag ++ "."
  | unresolved name => "Could not resolve trace tag #" ++ name ++ "."
  | missingTags mnemonic => mnemonic ++ " must carry trace tags once the program uses them."
  | sizeMismatch tagged allocated =>
    "Trace tags total " ++ Text.decimal tagged.toNat ++ " bytes, but the instruction allocates "
      ++ Text.decimal allocated.toNat ++ "."

/-- A cause of any phase. -/
inductive Cause where
  | inclusion (error : IncludeError)
  | line (error : LineError)
  | link (error : LinkError)
  | trace (error : TraceError)
  deriving DecidableEq, Repr

/-- What a cause tells the user. -/
def Cause.message : Cause → String
  | inclusion error => error.message
  | line error => error.message
  | link error => error.message
  | trace error => error.message

end Pep10
