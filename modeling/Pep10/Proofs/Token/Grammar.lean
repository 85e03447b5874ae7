import Pep10.Instruction.Mode
import Pep10.Proofs.Text.Blank
import Pep10.Proofs.Token.Quoted

/-!
# The grammar of tokens

`Derives t w rest` holds if the text `w`, with `rest` behind it, is one that stands for the token
`t`; there is one rule for each kind of token.  A scan of any text either cuts such a `w` off its
front, or fails and leaves an end of the text (`splits_scanToken`).  Whatever else is said about
what the lexer takes for a token is read off the rules.
-/

namespace Pep10.Lexer

open Text (DecimalNumeral HexNumeral QuotedUnit Sign quoted)

variable {c : Char} {s w name blanks rest : List Char} {t : Token}

/-- The text `w`, with `rest` behind it, stands for the token `t`. -/
inductive Derives : Token → List Char → List Char → Prop
  | placeholder {digits rest : List Char} (hne : digits ≠ []) (hdigits : ∀ c ∈ digits, c.isDigit = true) :
      Derives ⟨.placeholder, String.ofList ('$' :: digits)⟩ ('$' :: digits) rest
  | call {name rest : List Char} (hname : Text.isIdentifier name = true) (hends : endsCall rest = true) :
      Derives ⟨.call, String.ofList name⟩ ('@' :: name) rest
  | mode {blanks name rest : List Char} (mode : Mode) (hblanks : ∀ c ∈ blanks, Text.isBlank c = true)
      (hname : name.map Char.toLower = mode.name.toList) :
      Derives ⟨.mode, String.ofList name⟩ (',' :: (blanks ++ name)) rest
  | charConstant {rest : List Char} (u : QuotedUnit '\'') (hbyte : u.bytes.length = 1) :
      Derives ⟨.charConstant, String.ofList (quoted [u])⟩ (quoted [u]) rest
  | comment (text : List Char) : Derives ⟨.comment, String.ofList (';' :: text)⟩ (';' :: text) []
  | hexadecimal {rest : List Char} (n : HexNumeral) :
      Derives ⟨.hexadecimal, String.ofList n.text⟩ n.text rest
  | decimal {rest : List Char} (n : DecimalNumeral) : Derives ⟨.decimal, String.ofList n.text⟩ n.text rest
  | directive {name rest : List Char} (hhead : name.head?.any Char.isAlpha = true)
      (hname : ∀ c ∈ name, Text.isNameRest c = true) :
      Derives ⟨.directive, String.ofList name⟩ ('.' :: name) rest
  | identifier {name rest : List Char} (hname : Text.isIdentifier name = true) :
      Derives ⟨.identifier, String.ofList name⟩ name rest
  | label {name rest : List Char} (hname : Text.isIdentifier name = true) :
      Derives ⟨.label, String.ofList name⟩ (name ++ [':']) rest
  | stringConstant {rest : List Char} (units : List (QuotedUnit '"')) :
      Derives ⟨.stringConstant, String.ofList (quoted units)⟩ (quoted units) rest

/-- The scan cuts a text for its token off the front of `s`, or fails and leaves an end of `s`. -/
def Splits (s : List Char) : Scan → Prop
  | .ok (t, rest) => ∃ w, s = w ++ rest ∧ Derives t w rest
  | .error (_, rest) => rest <:+ s

/-! ### One lemma for each scanner -/

namespace Splits

lemma ite {b : Bool} {scan scan' : Scan} (h : b = true → Splits s scan) (h' : Splits s scan') :
    Splits s (if b then scan else scan') := by
  cases b with
  | false => exact h'
  | true => exact h rfl

end Splits

/-- A run of characters of a class behind the front of a token. -/
lemma splits_run {kind : Token.Kind} {error : LexicalError} {lead : List Char} {p : Char → Bool}
    (h : ∀ run rest, run ≠ [] → (∀ c ∈ run, p c = true) →
      Derives ⟨kind, String.ofList (lead ++ run)⟩ (lead ++ run) rest) :
    Splits (lead ++ s) (scanRun kind error lead p s) := by
  rw [scanRun]
  refine .ite (fun hhead => ⟨lead ++ s.takeWhile p, ?_, h _ _ ?_ fun c hc => List.mem_takeWhile_imp hc⟩)
    (List.suffix_append lead s)
  · rw [List.append_assoc, List.takeWhile_append_dropWhile]
  · cases s with
    | nil => cases hhead
    | cons c s =>
      have hc : p c = true := hhead
      rw [List.takeWhile_cons_of_pos hc]
      exact List.cons_ne_nil c _

lemma splits_placeholder {error : LexicalError} :
    Splits ('$' :: s) (scanRun .placeholder error ['$'] Char.isDigit s) :=
  splits_run fun _ _ hne hrun => .placeholder hne hrun

lemma splits_hexadecimal {error : LexicalError} (hmark : marksHexadecimal s = true) :
    Splits ('0' :: s) (scanRun .hexadecimal error ('0' :: s.take 1) Text.isHexDigit (s.drop 1)) := by
  cases s with
  | nil => cases hmark
  | cons x s =>
    have hx : x = 'x' ∨ x = 'X' := by simpa [marksHexadecimal] using hmark
    refine splits_run fun run rest hne hrun => ?_
    obtain ⟨n, hn⟩ := HexNumeral.exists_text hx hne hrun
    change Derives ⟨_, String.ofList ('0' :: x :: run)⟩ ('0' :: x :: run) rest
    rw [← hn]
    exact .hexadecimal n

lemma splits_signed {error : LexicalError} (hc : (c == '+' || c == '-') = true) :
    Splits (c :: s) (scanRun .decimal error [c] Char.isDigit s) := by
  have hsign : ∃ sign : Sign, sign.text = [c] := by
    simp only [Bool.or_eq_true, beq_iff_eq] at hc
    rcases hc with rfl | rfl
    exacts [⟨.plus, rfl⟩, ⟨.minus, rfl⟩]
  obtain ⟨sign, hsign⟩ := hsign
  refine splits_run fun run rest hne hrun => ?_
  obtain ⟨n, hn⟩ := DecimalNumeral.exists_text sign hne hrun
  rw [← hsign, ← hn]
  exact .decimal n

lemma splits_unsigned (hc : c.isDigit = true) :
    Splits (c :: s)
      (.ok (⟨.decimal, String.ofList (c :: s.takeWhile Char.isDigit)⟩, s.dropWhile Char.isDigit)) := by
  have hdigits : ∀ d ∈ c :: s.takeWhile Char.isDigit, d.isDigit = true :=
    List.forall_mem_cons.2 ⟨hc, fun d hd => List.mem_takeWhile_imp hd⟩
  obtain ⟨n, hn⟩ := DecimalNumeral.exists_text .absent (List.cons_ne_nil c _) hdigits
  refine ⟨c :: s.takeWhile Char.isDigit, ?_, ?_⟩
  · rw [List.cons_append, List.takeWhile_append_dropWhile]
  · change n.text = c :: _ at hn
    rw [← hn]
    exact .decimal n

/-- A first character of a name and the characters behind it make an identifier. -/
lemma isIdentifier_takeWhile (h : s.head?.any Text.isNameStart = true) :
    Text.isIdentifier (s.takeWhile Text.isNameRest) = true := by
  cases s with
  | nil => cases h
  | cons c s =>
    have hc : Text.isNameStart c = true := h
    rw [List.takeWhile_cons_of_pos (Text.isNameRest_of_isNameStart hc)]
    simp [Text.isIdentifier, hc]

lemma splits_call : Splits ('@' :: s) (scanCall s) := by
  have hdrop : s.dropWhile Text.isNameRest <:+ '@' :: s :=
    (List.dropWhile_suffix _).trans (List.suffix_cons ..)
  unfold scanCall
  split
  · exact List.suffix_cons ..
  next hstart =>
    refine .ite (fun hends => ⟨'@' :: s.takeWhile Text.isNameRest, ?_, .call ?_ hends⟩) hdrop
    · rw [List.cons_append, List.takeWhile_append_dropWhile]
    · exact isIdentifier_takeWhile (by simpa using hstart)

/-- What is taken for an addressing mode is the name of one, in either case. -/
lemma exists_mode_of_modeLength {n : Nat} (h : modeLength s = some n) :
    ∃ mode : Mode, (s.take n).map Char.toLower = mode.name.toList := by
  have hkey : n ≤ 3 ∧ ∃ mode : Mode, ((s.take 3).map Char.toLower).take n = mode.name.toList := by
    unfold modeLength at h
    split at h
    next heq => cases h; rw [heq]; exact ⟨by decide, .stackDeferredIndexed, rfl⟩
    next => cases h
    next heq => cases h; rw [heq]; exact ⟨by decide, .stackDeferred, rfl⟩
    next heq => cases h; rw [heq]; exact ⟨by decide, .stackIndexed, rfl⟩
    next first rest _ _ _ _ heq =>
      split at h
      next hfirst =>
        cases h
        rw [heq]
        simp only [List.contains_eq_mem, decide_eq_true_eq, List.mem_cons, List.not_mem_nil, or_false] at hfirst
        refine ⟨by decide, ?_⟩
        rcases hfirst with rfl | rfl | rfl | rfl | rfl
        exacts [⟨.stack, rfl⟩, ⟨.immediate, rfl⟩, ⟨.direct, rfl⟩, ⟨.indexed, rfl⟩, ⟨.indirect, rfl⟩]
      next => cases h
    next => cases h
  obtain ⟨hn, mode, hmode⟩ := hkey
  rw [← List.map_take, List.take_take, Nat.min_eq_left hn] at hmode
  exact ⟨mode, hmode⟩

lemma splits_mode : Splits (',' :: s) (scanMode s) := by
  have htrim : Text.trimStart s <:+ ',' :: s := (List.dropWhile_suffix _).trans (List.suffix_cons ..)
  unfold scanMode scanModeName
  split
  next n hn =>
    obtain ⟨mode, hmode⟩ := exists_mode_of_modeLength hn
    refine ⟨',' :: (s.takeWhile Text.isBlank ++ (Text.trimStart s).take n), ?_,
      .mode mode (fun c hc => List.mem_takeWhile_imp hc) hmode⟩
    rw [List.cons_append, List.append_assoc, List.take_append_drop, Text.trimStart,
      List.takeWhile_append_dropWhile]
  · exact htrim

lemma splits_char : Splits ('\'' :: s) (scanChar s) := by
  rcases h : scanChar s with ⟨e, rest⟩ | ⟨t, rest⟩
  · exact (suffix_of_scanChar_error h).trans (List.suffix_cons ..)
  · obtain ⟨u, hbyte, rfl, rfl⟩ := scanChar_eq_ok_iff.1 h
    exact ⟨quoted [u], by simp [quoted], .charConstant u hbyte⟩

/-- A letter in front of a text begins its characters of names. -/
lemma head?_takeWhile_isAlpha (h : s.head?.any Char.isAlpha = true) :
    (s.takeWhile Text.isNameRest).head?.any Char.isAlpha = true := by
  cases s with
  | nil => cases h
  | cons c s =>
    have hc : c.isAlpha = true := h
    have hname : Text.isNameRest c = true := by simp [Text.isNameRest, Char.isAlphanum, hc]
    rw [List.takeWhile_cons_of_pos hname]
    exact h

lemma splits_directive : Splits ('.' :: s) (scanDirective s) := by
  rw [scanDirective]
  refine .ite (fun hhead => ⟨'.' :: s.takeWhile Text.isNameRest, ?_,
    .directive (head?_takeWhile_isAlpha hhead) fun c hc => List.mem_takeWhile_imp hc⟩) (List.suffix_cons ..)
  rw [List.cons_append, List.takeWhile_append_dropWhile]

lemma splits_name (hc : Text.isNameStart c = true) : Splits (c :: s) (scanName c s) := by
  have hname : Text.isIdentifier (c :: s.takeWhile Text.isNameRest) = true := by
    simp [Text.isIdentifier, hc]
  have hs : c :: s = c :: s.takeWhile Text.isNameRest ++ s.dropWhile Text.isNameRest := by
    rw [List.cons_append, List.takeWhile_append_dropWhile]
  unfold scanName nameToken
  split
  next behind hbehind =>
    refine ⟨_, ?_, .label hname⟩
    rw [List.append_assoc, List.singleton_append, ← hbehind, ← hs]
  next => exact ⟨_, hs, .identifier hname⟩

lemma splits_string : Splits ('"' :: s) (scanString s) := by
  rcases h : scanString s with ⟨e, rest⟩ | ⟨t, rest⟩
  · exact (suffix_of_scanString_error h).trans (List.suffix_cons ..)
  · obtain ⟨units, rfl, rfl⟩ := scanString_eq_ok_iff.1 h
    exact ⟨quoted units, by simp [quoted], .stringConstant units⟩

/-- What is cut off for a token by the rule of its kind, or what is left if there is none. -/
theorem splits_scanToken (c : Char) (s : List Char) : Splits (c :: s) (scanToken c s) := by
  refine .ite (fun hc => ?_) <| .ite (fun hc => ?_) <| .ite (fun hc => ?_) <|
    .ite (fun hc => ?_) <| .ite (fun hc => ?_) <| .ite (fun hc => ?_) <| .ite (fun hc => ?_) <|
    .ite (fun hc => ?_) <| .ite (fun hc => ?_) <| .ite (fun hc => ?_) <| .ite (fun hc => ?_)
      (List.suffix_refl (c :: s))
  · obtain rfl := beq_iff_eq.1 hc
    exact splits_placeholder
  · obtain rfl := beq_iff_eq.1 hc
    exact splits_call
  · obtain rfl := beq_iff_eq.1 hc
    exact splits_mode
  · obtain rfl := beq_iff_eq.1 hc
    exact splits_char
  · obtain rfl := beq_iff_eq.1 hc
    exact ⟨';' :: s, by simp, .comment s⟩
  · rw [Bool.and_eq_true, beq_iff_eq] at hc
    obtain ⟨rfl, hmark⟩ := hc
    exact splits_hexadecimal hmark
  · exact splits_signed hc
  · exact splits_unsigned hc
  · obtain rfl := beq_iff_eq.1 hc
    exact splits_directive
  · exact splits_name hc
  · obtain rfl := beq_iff_eq.1 hc
    exact splits_string

/-- The characters in the name of a mode are those of names. -/
lemma isNameRest_of_modeName {mode : Mode} (h : name.map Char.toLower = mode.name.toList) :
    ∀ c ∈ name, Text.isNameRest c = true := by
  intro c hc
  have hlower : c.toLower ∈ mode.name.toList := h ▸ List.mem_map_of_mem hc
  cases hupper : c.isUpper with
  | true =>
    have halpha : c.isAlpha = true := Bool.or_eq_true_iff.2 (.inl hupper)
    simp [Text.isNameRest, Char.isAlphanum, halpha]
  | false =>
    rw [Text.toLower_of_not_isUpper hupper] at hlower
    have hall : ∀ mode : Mode, mode.name.toList.all Text.isNameRest = true := by
      intro mode
      cases mode <;> rfl
    exact List.all_eq_true.1 (hall mode) c hlower

/-- What is cut off for a token. -/
lemma exists_derives (h : scanToken c s = .ok (t, rest)) : ∃ w, c :: s = w ++ rest ∧ Derives t w rest := by
  have hsplits := splits_scanToken c s
  rw [h] at hsplits
  exact hsplits

end Pep10.Lexer
