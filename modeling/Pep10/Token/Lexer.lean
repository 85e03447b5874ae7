import Pep10.Text.Blank
import Pep10.Text.Ascii
import Pep10.Token.Basic

/-!
# Splitting a line into tokens

The first character of a token decides its kind, and each kind has one scanner below.  A scanner
gets the text behind that first character and gives the token with the text that is left, or the
error with the text that was left when it gave up.  `tokenize` strings the scanners together: a
well-formed line becomes its tokens and an end-of-line token, any other line one malformed token.
Once a macro call has been seen, commas count as blanks, since they separate its arguments.
-/

namespace Pep10

namespace Lexer

/-- What a scanner gives: a token and the text behind it, or an error and the text left. -/
abbrev Scan := Except (LexicalError × List Char) (Token × List Char)

/-- The token of the given kind that starts with `first` and goes up to `rest` in `s`. -/
def upTo (kind : Token.Kind) (first : Char) (s rest : List Char) : Token × List Char :=
  (⟨kind, String.ofList (first :: s.take (s.length - rest.length))⟩, rest)

/-! ### Units of quoted constants -/

/-- The characters that may follow a backslash as an escape of their own. -/
def isSimpleEscape (c : Char) : Bool := ['\'', '"', '\\', 'b', 'f', 'n', 'r', 't', 'v'].contains c

/-- Reads two hexadecimal digits; gives the text behind them, or the text left at failure. -/
def hexPair : List Char → Except (List Char) (List Char)
  | [] => .error []
  | [_] => .error []
  | a :: b :: s =>
    if !Text.isHexDigit a then .error (b :: s)
    else if !Text.isHexDigit b then .error s
    else .ok s

/-- Reads one plain or escaped character of a quoted constant; gives the text behind it, or the
text left at failure. -/
def quotedUnit : List Char → Except (List Char) (List Char)
  | [] => .error []
  | ['\\'] => .error []
  | '\\' :: c :: s =>
    if isSimpleEscape c then .ok s
    else if c == 'x' || c == 'X' then hexPair s
    else .error s
  | _ :: s => .ok s

theorem length_hexPair {s rest : List Char} (h : hexPair s = .ok rest) :
    rest.length + 2 = s.length := by
  unfold hexPair at h
  split at h
  · cases h
  · cases h
  · split at h
    · cases h
    · split at h
      · cases h
      · cases h; simp

/-- A unit of a quoted constant takes at least one character. -/
theorem length_quotedUnit {s rest : List Char} (h : quotedUnit s = .ok rest) :
    rest.length < s.length := by
  unfold quotedUnit at h
  split at h
  · cases h
  · cases h
  · split at h
    · cases h; simp only [List.length_cons]; omega
    · split at h
      · have := length_hexPair h; simp only [List.length_cons]; omega
      · cases h
  · cases h; simp

/-- Reads up to the closing quote of a string constant; gives the text behind it, or the text
left at failure. -/
def stringRest (s : List Char) : Except (List Char) (List Char) :=
  match s with
  | [] => .error []
  | c :: s' =>
    if c == '"' then .ok s'
    else
      match h : quotedUnit (c :: s') with
      | .error rest => .error rest
      | .ok rest =>
        have := length_quotedUnit h
        stringRest rest
termination_by s.length
decreasing_by assumption

/-! ### One scanner for each kind of token -/

/-- At least one character that satisfies `p`, behind the text `lead` of the same token. -/
def scanRun (kind : Token.Kind) (error : LexicalError) (lead : List Char) (p : Char → Bool)
    (s : List Char) : Scan :=
  if s.head?.any p then .ok (⟨kind, String.ofList (lead ++ s.takeWhile p)⟩, s.dropWhile p)
  else .error (error, s)

/-- Whether a macro name may end before this text: at a blank, a comment or the end. -/
def endsCall (s : List Char) : Bool := s.head?.all fun c => Text.isBlank c || c == ';'

/-- Behind an at sign: the name of a macro. -/
def scanCall (s : List Char) : Scan :=
  if !s.head?.any Text.isNameStart then .error (.call, s)
  else if endsCall (s.dropWhile Text.isNameRest) then
    .ok (⟨.call, String.ofList (s.takeWhile Text.isNameRest)⟩, s.dropWhile Text.isNameRest)
  else .error (.call, s.dropWhile Text.isNameRest)

/-- The length of the addressing mode at the start of a text: the longest name that fits. -/
def modeLength (s : List Char) : Option Nat :=
  match (s.take 3).map Char.toLower with
  | ['s', 'f', 'x'] => some 3
  | ['s', 'x', 'f'] => none
  | 's' :: 'f' :: _ => some 2
  | 's' :: 'x' :: _ => some 2
  | c :: _ => if ['s', 'i', 'd', 'x', 'n'].contains c then some 1 else none
  | [] => none

/-- An addressing mode at the start of a text. -/
def scanModeName (s : List Char) : Scan :=
  match modeLength s with
  | some n => .ok (⟨.mode, String.ofList (s.take n)⟩, s.drop n)
  | none => .error (.mode, s)

/-- Behind a comma: blanks and an addressing mode. -/
def scanMode (s : List Char) : Scan := scanModeName (Text.trimStart s)

/-- Behind a single quote: one unit that starts with an ASCII character, and a single quote. -/
def scanChar (s : List Char) : Scan :=
  if s.head?.any fun c => c == '\'' || c.val ≥ 0x80 then .error (.charConstant, s)
  else
    match quotedUnit s with
    | .error rest => .error (.charConstant, rest)
    | .ok [] => .error (.charConstant, [])
    | .ok (c :: rest) =>
      if c == '\'' then .ok (upTo .charConstant '\'' s rest) else .error (.charConstant, rest)

/-- Behind a point: the name of a directive. -/
def scanDirective (s : List Char) : Scan :=
  if s.head?.any Char.isAlpha then
    .ok (⟨.directive, String.ofList (s.takeWhile Text.isNameRest)⟩, s.dropWhile Text.isNameRest)
  else .error (.directive, s)

/-- A name with the text behind it: a label if that text starts with a colon, which belongs to
the label, and an identifier otherwise. -/
def nameToken (name : List Char) : List Char → Token × List Char
  | ':' :: rest => (⟨.label, String.ofList name⟩, rest)
  | rest => (⟨.identifier, String.ofList name⟩, rest)

/-- Behind the first character of a name: an identifier or a label. -/
def scanName (first : Char) (s : List Char) : Scan :=
  .ok (nameToken (first :: s.takeWhile Text.isNameRest) (s.dropWhile Text.isNameRest))

/-- Behind a double quote: the rest of a string constant. -/
def scanString (s : List Char) : Scan :=
  match stringRest s with
  | .ok rest => .ok (upTo .stringConstant '"' s rest)
  | .error rest => .error (.stringConstant, rest)

/-- Whether a zero before this text begins a hexadecimal constant. -/
def marksHexadecimal (s : List Char) : Bool := s.head?.any fun x => x == 'x' || x == 'X'

/-- The token that starts with `c`, `s` being the text behind it. -/
def scanToken (c : Char) (s : List Char) : Scan :=
  if c == '$' then scanRun .placeholder .placeholder [c] Char.isDigit s
  else if c == '@' then scanCall s
  else if c == ',' then scanMode s
  else if c == '\'' then scanChar s
  else if c == ';' then .ok (⟨.comment, String.ofList (c :: s)⟩, [])
  else if c == '0' && marksHexadecimal s then
    scanRun .hexadecimal .hexadecimal (c :: s.take 1) Text.isHexDigit (s.drop 1)
  else if c == '+' || c == '-' then scanRun .decimal .decimal [c] Char.isDigit s
  else if c.isDigit then
    .ok (⟨.decimal, String.ofList (c :: s.takeWhile Char.isDigit)⟩, s.dropWhile Char.isDigit)
  else if c == '.' then scanDirective s
  else if Text.isNameStart c then scanName c s
  else if c == '"' then scanString s
  else .error (.unrecognised, c :: s)

/-! ### Every token takes at least one character -/

theorem length_scanRun {kind : Token.Kind} {error : LexicalError} {lead : List Char}
    {p : Char → Bool} {s rest : List Char} {t : Token}
    (h : scanRun kind error lead p s = .ok (t, rest)) : rest.length ≤ s.length := by
  unfold scanRun at h
  split at h
  · cases h; exact Text.length_dropWhile_le _ _
  · cases h

theorem length_scanCall {s rest : List Char} {t : Token} (h : scanCall s = .ok (t, rest)) :
    rest.length ≤ s.length := by
  unfold scanCall at h
  split at h
  · cases h
  · split at h
    · cases h; exact Text.length_dropWhile_le _ _
    · cases h

theorem length_scanMode {s rest : List Char} {t : Token} (h : scanMode s = .ok (t, rest)) :
    rest.length ≤ s.length := by
  have hle : (Text.trimStart s).length ≤ s.length := Text.length_dropWhile_le _ _
  unfold scanMode scanModeName at h
  split at h
  · cases h; rw [List.length_drop]; omega
  · cases h

theorem length_scanChar {s rest : List Char} {t : Token} (h : scanChar s = .ok (t, rest)) :
    rest.length ≤ s.length := by
  unfold scanChar at h
  split at h
  · cases h
  · split at h
    · cases h
    · cases h
    · rename_i c rest' heq
      have := length_quotedUnit heq
      split at h
      · cases h; simp only [List.length_cons] at this; omega
      · cases h

theorem length_nameToken (name s : List Char) : (nameToken name s).2.length ≤ s.length := by
  unfold nameToken
  split <;> simp

theorem length_scanName {c : Char} {s rest : List Char} {t : Token}
    (h : scanName c s = .ok (t, rest)) : rest.length ≤ s.length := by
  have h1 := length_nameToken (c :: s.takeWhile Text.isNameRest) (s.dropWhile Text.isNameRest)
  have h2 := Text.length_dropWhile_le Text.isNameRest s
  rw [Except.ok.inj h] at h1
  exact Nat.le_trans h1 h2

theorem length_stringRest {s rest : List Char} (h : stringRest s = .ok rest) :
    rest.length < s.length := by
  fun_induction stringRest s with
  | case1 => cases h
  | case2 => cases h; simp
  | case3 => cases h
  | case4 _ _ _ _ _ hlt ih => exact Nat.lt_trans (ih h) hlt

theorem length_scanString {s rest : List Char} {t : Token} (h : scanString s = .ok (t, rest)) :
    rest.length ≤ s.length := by
  unfold scanString at h
  split at h
  · rename_i heq
    cases h; exact Nat.le_of_lt (length_stringRest heq)
  · cases h

theorem length_scanDirective {s rest : List Char} {t : Token}
    (h : scanDirective s = .ok (t, rest)) : rest.length ≤ s.length := by
  unfold scanDirective at h
  split at h
  · cases h; exact Text.length_dropWhile_le _ _
  · cases h

/-- A scan that gives back no more than the text `s`. -/
def Within (s : List Char) (scan : Scan) : Prop :=
  ∀ t rest, scan = .ok (t, rest) → rest.length ≤ s.length

theorem Within.ite {s : List Char} {c : Bool} {a b : Scan} (ha : Within s a) (hb : Within s b) :
    Within s (if c then a else b) := by
  cases c
  · exact hb
  · exact ha

theorem within_ok {s rest : List Char} (t : Token) (h : rest.length ≤ s.length) :
    Within s (.ok (t, rest)) := by
  intro _ _ heq
  cases heq
  exact h

theorem within_scanRun_drop (kind : Token.Kind) (error : LexicalError) (lead : List Char)
    (p : Char → Bool) (s : List Char) : Within s (scanRun kind error lead p (s.drop 1)) := by
  intro _ _ h
  have := length_scanRun h
  rw [List.length_drop] at this
  omega

/-- A scanner never gives back more than the text behind the token's first character. -/
theorem within_scanToken (c : Char) (s : List Char) : Within s (scanToken c s) :=
  .ite (fun _ _ => length_scanRun) <|
  .ite (fun _ _ => length_scanCall) <|
  .ite (fun _ _ => length_scanMode) <|
  .ite (fun _ _ => length_scanChar) <|
  .ite (within_ok _ (Nat.zero_le _)) <|
  .ite (within_scanRun_drop _ _ _ _ _) <|
  .ite (fun _ _ => length_scanRun) <|
  .ite (within_ok _ (Text.length_dropWhile_le ..)) <|
  .ite (fun _ _ => length_scanDirective) <|
  .ite (fun _ _ => length_scanName) <|
  .ite (fun _ _ => length_scanString) nofun

/-! ### The line as a whole -/

/-- The tokens of a text.  `afterCall` tells whether a macro call has been seen. -/
def tokensFrom (afterCall : Bool) (s : List Char) :
    Except (LexicalError × List Char) (List Token) :=
  match hs : Text.trimStart s with
  | [] => .ok [Token.lineEnd]
  | c :: s' =>
    have hlt : s'.length < s.length := by
      have := Text.length_dropWhile_le Text.isBlank s
      unfold Text.trimStart at hs
      rw [hs, List.length_cons] at this
      omega
    if afterCall && c == ',' then tokensFrom afterCall s'
    else
      match h : scanToken c s' with
      | .error e => .error e
      | .ok (token, rest) =>
        have hrest := Nat.lt_of_le_of_lt (within_scanToken c s' _ _ h) hlt
        match tokensFrom (afterCall || token.kind == .call) rest with
        | .error e => .error e
        | .ok tokens => .ok (token :: tokens)
termination_by s.length
decreasing_by all_goals assumption

end Lexer

/-- The tokens of a source line: those of a well-formed line with an end-of-line token behind
them, or a single malformed token that holds the text left when the line went wrong. -/
def tokenize (line : String) : List Token :=
  match Lexer.tokensFrom false (Text.trim line.toList) with
  | .ok tokens => tokens
  | .error (error, rest) => [⟨.malformed error, String.ofList rest⟩]

end Pep10
