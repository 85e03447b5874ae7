import Pep10.Line.Basic
import Pep10.Line.Reading
import Pep10.Token.Lexer

/-!
# Reading a line

A line is read from its own tokens and from nothing else.  It may begin with a label; then comes an
instruction, a directive or a macro call; a comment may follow, and the line must end there.
-/

namespace Pep10

/-- What reading a line may consult: whether the program is an operating system, the macros that
are known, and the instance that a macro call expands to. -/
structure ReadContext where
  isSystem : Bool
  library : MacroLibrary
  instance? : String → List String → Option Nat

namespace Reader

/-- The longest name that a symbol can have. -/
def maxSymbolLength : Nat := 8

/-- The next token of a line and the tokens behind it. -/
def next : List Token → Reading (Token × List Token)
  | [] => .fail .missingEnd
  | token :: rest =>
    match token.kind with
    | .malformed e => .fail (.lexical e)
    | _ => .done (token, rest)

/-- Requires the end of the line. -/
def lineEnd (otherwise : LineError) (tokens : List Token) : Reading Unit := do
  let (token, _) ← next tokens
  if token.kind == .lineEnd then .done () else .fail otherwise

/-- Requires a name that is short enough for a symbol. -/
def checkLength (name : String) : Reading Unit :=
  if name.utf8ByteSize > maxSymbolLength then .fail (.longSymbol name) else .done ()

/-- The use of a symbol as an operand. -/
def useSymbol (name : String) : Reading Operand := do
  checkLength name
  .leave (.mention name)
  return .symbol name

/-! ### Constants -/

/-- The value of a hexadecimal constant, if it fits a word. -/
def hexValue (text : String) : Except LineError UInt16 :=
  let value := Text.valueOf 16 (text.toList.drop 2)
  if value ≤ 0xFFFF then .ok (UInt16.ofNat value) else .error .hexRange

/-- The value of a decimal constant. -/
def decimalValue (text : String) : Int := Text.signedValue text.toList

/-- A decimal constant between the given bounds. -/
def decimalOperand (low high : Int) (otherwise : LineError) (text : String) :
    Except LineError Operand :=
  let value := decimalValue text
  if low ≤ value && value < 0 then .ok (.signed (Int16.ofInt value))
  else if 0 ≤ value && value ≤ high then .ok (.unsigned (UInt16.ofNat value.toNat))
  else .error otherwise

/-- The constant that stands for a word, if the token is a constant at all. -/
def wordConstant (token : Token) : Except LineError (Option Operand) :=
  match token.kind with
  | .charConstant => .ok (some (.char token.text))
  | .decimal => (decimalOperand (-0x8000) 0xFFFF .decimalRange token.text).map some
  | .hexadecimal => (hexValue token.text).map fun value => some (.hex value)
  | .stringConstant =>
    if (Text.unquote token.text).length > 2 then .error .stringTooLong
    else .ok (some (.string token.text))
  | _ => .ok none

/-- The constant that stands for a word, or the given error if the token is none. -/
def requireWord (otherwise : LineError) (token : Token) : Except LineError Operand :=
  match wordConstant token with
  | .error e => .error e
  | .ok none => .error otherwise
  | .ok (some operand) => .ok operand

/-! ### Instructions -/

/-- The operand of an instruction. -/
def instructionOperand (token : Token) : Reading Operand :=
  match token.kind with
  | .identifier => useSymbol token.text
  | .placeholder => .fail (.placeholder token.text)
  | _ => .ofExcept (requireWord .operandExpected token)

/-- The addressing mode of an instruction: the one that is written, or immediate where none is
required. -/
def instructionMode (mnemonic : Mnemonic) (tokens : List Token) : Reading (Mode × List Token) :=
  match tokens with
  | ⟨.mode, text⟩ :: rest =>
    match Mode.ofName? text with
    | none => .fail (.lexical .mode)
    | some mode => if mnemonic.allows mode then .done (mode, rest) else .fail .illegalMode
  | _ => if mnemonic.modeRequired then .fail .modeRequired else .done (.immediate, tokens)

/-- An instruction. -/
def instruction (name : String) (tokens : List Token) : Reading (Statement × List Token) :=
  match Mnemonic.ofName? name with
  | none => .fail .invalidMnemonic
  | some mnemonic =>
    if mnemonic.isUnary then .done (.unary mnemonic, tokens)
    else do
      let (token, rest) ← next tokens
      let operand ← instructionOperand token
      let (mode, rest) ← instructionMode mnemonic rest
      return (.nonunary mnemonic mode operand, rest)

/-! ### Directives -/

/-- The operand of `.ALIGN`. -/
def alignOperand (token : Token) : Except LineError Operand :=
  let value := decimalValue token.text
  if token.kind == .decimal && (value == 2 || value == 4 || value == 8) then
    .ok (.unsigned (UInt16.ofNat value.toNat))
  else .error .alignArgument

/-- The operand of `.BLOCK`. -/
def blockOperand (token : Token) : Except LineError Operand :=
  match token.kind with
  | .decimal => decimalOperand 0 0xFFFF .unsignedRange token.text
  | .hexadecimal => (hexValue token.text).map .hex
  | _ => .error .blockArgument

/-- The operand of `.BYTE`. -/
def byteOperand (token : Token) : Except LineError Operand :=
  match token.kind with
  | .charConstant => .ok (.char token.text)
  | .decimal => decimalOperand (-0x80) 0xFF .byteDecimalRange token.text
  | .hexadecimal =>
    match hexValue token.text with
    | .ok value => if value ≤ 0xFF then .ok (.hex value) else .error .byteHexRange
    | .error _ => .error .byteHexRange
  | .stringConstant =>
    if (Text.unquote token.text).length == 1 then .ok (.string token.text)
    else .error .byteStringLength
  | _ => .error .byteArgument

/-- The operand of `.BURN`. -/
def burnOperand (token : Token) : Except LineError Operand :=
  match token.kind with
  | .hexadecimal => (hexValue token.text).map .hex
  | _ => .error .burnArgument

/-- The operand of `.ASCII`. -/
def asciiOperand (token : Token) : Except LineError Operand :=
  match token.kind with
  | .stringConstant => .ok (.string token.text)
  | _ => .error .asciiArgument

/-- The operand of `.ADDRSS`. -/
def addrssOperand (token : Token) : Reading Operand :=
  match token.kind with
  | .identifier => useSymbol token.text
  | _ => .fail (.symbolArgument Directive.addrss.spelling)

/-- The operand of `.EQUATE`, whose value is assigned to the label. -/
def equateOperand (label : Option String) (token : Token) : Reading Operand :=
  match label with
  | none => .fail .equateWithoutLabel
  | some name => do
    let operand ← .ofExcept (requireWord .equateArgument token)
    .leave (.assign name operand.constant)
    return operand

/-- The system call that a directive offers. -/
def offeredCall : Directive → Option SystemCall
  | .scall => some .nonunary
  | .uscall => some .unary
  | _ => none

/-- Offers a symbol as a system call, where the directive does so. -/
def offer (ctx : ReadContext) (d : Directive) (name : String) : Reading Unit :=
  match offeredCall d with
  | none => .done ()
  | some call =>
    match ctx.library.registerCall? call name with
    | none => .fail .callRegistration
    | some _ => .leave (.offer call name)

/-- The directives that name a symbol of the operating system. -/
def systemSymbol (ctx : ReadContext) (label : Option String) (d : Directive)
    (tokens : List Token) : Reading (Statement × List Token) :=
  if !ctx.isSystem then .fail (.systemOnly d.spelling)
  else if label.isSome then .fail (.unexpectedLabel d.spelling)
  else do
    let (token, rest) ← next tokens
    if token.kind != .identifier then .fail (.symbolArgument d.spelling)
    else do
      let operand ← useSymbol token.text
      .leave (.publish token.text)
      offer ctx d token.text
      return (.directive d operand, rest)

/-- The operand of a directive that takes one. -/
def directiveOperand (label : Option String) (d : Directive) (token : Token) : Reading Operand :=
  match d with
  | .addrss => addrssOperand token
  | .ascii => .ofExcept (asciiOperand token)
  | .block => .ofExcept (blockOperand token)
  | .burn => .ofExcept (burnOperand token)
  | .byte => .ofExcept (byteOperand token)
  | .equate => equateOperand label token
  | .word => .ofExcept (requireWord .wordArgument token)
  | .publish | .scall | .uscall => .fail (.symbolArgument d.spelling)

/-- The directive with the given name, among those that take an operand. -/
def directiveOfName? (name : String) : Option Directive :=
  [.addrss, .ascii, .block, .burn, .byte, .equate, .word, .publish, .scall, .uscall].find?
    fun d => Text.sameName d.spelling ("." ++ name)

/-- A directive that takes an operand. -/
def operandDirective (ctx : ReadContext) (label : Option String) (d : Directive)
    (tokens : List Token) : Reading (Statement × List Token) :=
  match d with
  | .publish | .scall | .uscall => systemSymbol ctx label d tokens
  | _ =>
    if d == .burn && !ctx.isSystem then .fail (.systemOnly d.spelling)
    else do
      let (token, rest) ← next tokens
      let operand ← directiveOperand label d token
      return (.directive d operand, rest)

/-- A directive. -/
def directive (ctx : ReadContext) (label : Option String) (name : String)
    (tokens : List Token) : Reading (Statement × List Token) :=
  if Text.sameName name "END" then
    if label.isSome then .fail .labelledEnd else .done (.endMark, tokens)
  else if Text.sameName name "ALIGN" then do
    let (token, rest) ← next tokens
    let operand ← .ofExcept (alignOperand token)
    return (.align operand 0, rest)
  else
    match directiveOfName? name with
    | some d => operandDirective ctx label d tokens
    | none => do
      let _ ← next tokens
      .fail .invalidDirective

/-! ### Macro calls -/

/-- Whether a token can be an argument of a macro. -/
def isArgument (token : Token) : Bool :=
  match token.kind with
  | .identifier | .hexadecimal | .decimal | .charConstant | .stringConstant => true
  | _ => false

/-- The call of a macro with the given arguments. -/
def boundCall (ctx : ReadContext) (name : String) (args : List String) :
    Except LineError Statement :=
  match ctx.library.get? name with
  | none => .error .noSuchMacro
  | some m =>
    if m.arity != args.length then .error .wrongArity
    else
      match ctx.instance? m.name args with
      | none => .error (.missingInstance m.name)
      | some target => .ok (.call m.name args target)

/-- A macro call. -/
def call (ctx : ReadContext) (name : String) (tokens : List Token) :
    Reading (Statement × List Token) :=
  let args := (tokens.takeWhile isArgument).map Token.text
  match tokens.dropWhile isArgument with
  | ⟨.placeholder, text⟩ :: _ => .fail (.placeholder text)
  | rest => do
    let statement ← .ofExcept (boundCall ctx name args)
    return (statement, rest)

/-! ### The line -/

/-- The statement that begins with the given token. -/
def statement (ctx : ReadContext) (label : Option String) (token : Token) (tokens : List Token) :
    Reading (Statement × List Token) :=
  match token.kind with
  | .identifier => instruction token.text tokens
  | .directive => directive ctx label token.text tokens
  | .call => call ctx token.text tokens
  | .placeholder => .fail (.placeholder token.text)
  | _ => .fail .unexpectedToken

/-- Takes a comment off the front. -/
def takeComment : List Token → Option String × List Token
  | ⟨.comment, text⟩ :: rest => (some text, rest)
  | tokens => (none, tokens)

/-- The line whose statement begins with the given token. -/
def lineFrom (ctx : ReadContext) (number : Nat) (label : Option String) (token : Token)
    (tokens : List Token) : Reading Line := do
  let (statement, rest) ← statement ctx label token tokens
  lineEnd (if statement == .endMark then .afterEnd else .commentExpected) (takeComment rest).2
  return { statement, number, label, comment := (takeComment rest).1 }

/-- Whether a token may follow a label. -/
def followsLabel (token : Token) : Bool :=
  match token.kind with
  | .identifier | .directive | .call => true
  | _ => false

/-- A line, from its tokens. -/
def line (ctx : ReadContext) (number : Nat) (tokens : List Token) : Reading Line := do
  let (token, rest) ← next tokens
  match token.kind with
  | .lineEnd => return { statement := .blank, number }
  | .comment =>
    lineEnd .commentExpected rest
    return { statement := .comment, number, comment := some token.text }
  | .label =>
    checkLength token.text
    .leave (.declare token.text)
    let (second, rest) ← next rest
    if followsLabel second then lineFrom ctx number (some token.text) second rest
    else .fail .nothingAfterLabel
  | _ => lineFrom ctx number none token rest

end Reader

end Pep10
