import Mathlib.Data.List.Basic
import Pep10.Token.Stream

/-!
# The way of tokens through a stream

A token passes through a stream in four stages: its line has not been looked at, it is in the
backlog, it has been matched, it has been taken.  Asking for a token may pull lines, which moves
tokens from the first stage to the second.  Matching moves at most one token from the second stage
to the third (`matching_matchOneOf`), and taking moves one from the third to the fourth.  So tokens
are neither lost nor doubled nor put into another order, whatever is done to the stream
(`tokens_conserved`).
-/

namespace Pep10.TokenStream

variable {s s' s'' : TokenStream} {taken more : List Token} {moved : Option Token}

/-- The tokens that have not been matched, those of the lines that have not been looked at among
them. -/
def ahead (s : TokenStream) : List Token := s.backlog ++ s.lines.flatMap tokenize

/-- The next token, if it is of one of the given kinds. -/
def candidate (s : TokenStream) (kinds : List Token.Kind) : Option Token :=
  s.ahead.head?.filter fun token => token.kind ∈ kinds

/-! ### Pulling lines -/

/-- A stream may have pulled lines, and at most one token has been matched. -/
structure Advances (moved : Option Token) (s s' : TokenStream) : Prop where
  matched : s'.matched = s.matched ++ moved.toList
  ahead : s.ahead = moved.toList ++ s'.ahead
  lineCount : s'.linesRead + s'.lines.length = s.linesRead + s.lines.length

lemma Advances.refl (s : TokenStream) : Advances none s s :=
  ⟨(List.append_nil _).symm, rfl, rfl⟩

/-- Lines may have been pulled before. -/
lemma Advances.trans (h : Advances none s s') (h' : Advances moved s' s'') : Advances moved s s'' where
  matched := by rw [h'.matched, h.matched, Option.toList_none, List.append_nil]
  ahead := by rw [h.ahead, h'.ahead, Option.toList_none, List.nil_append]
  lineCount := h'.lineCount.trans h.lineCount

lemma Advances.candidate_eq (h : Advances none s s') (kinds : List Token.Kind) :
    s'.candidate kinds = s.candidate kinds := by
  rw [candidate, candidate, h.ahead, Option.toList_none, List.nil_append]

/-- Pulling lines keeps their tokens. -/
lemma advances_pull (matched : List Token) (lines : List String) (n : Nat) :
    Advances none ⟨lines, [], matched, n⟩ (pull matched lines n) := by
  induction lines generalizing n with
  | nil => exact .refl _
  | cons line lines ih =>
    rw [pull]
    split
    next hnone =>
      have hskip : Advances none ⟨line :: lines, [], matched, n⟩ ⟨lines, [], matched, n + 1⟩ := by
        refine ⟨(List.append_nil _).symm, ?_, ?_⟩
        · simp [ahead, hnone]
        · simp only [List.length_cons]
          omega
      exact hskip.trans (ih (n + 1))
    next hsome =>
      refine ⟨(List.append_nil _).symm, ?_, ?_⟩
      · simp [ahead]
      · simp only [List.length_cons]
        omega

/-- Lines are pulled until there is a token. -/
lemma head?_backlog_pull (matched : List Token) (lines : List String) (n : Nat) :
    (pull matched lines n).backlog.head? = (lines.flatMap tokenize).head? := by
  induction lines generalizing n with
  | nil => rfl
  | cons line lines ih =>
    rw [pull]
    split
    next hnone => rw [ih, List.flatMap_cons, hnone, List.nil_append]
    next hsome => rw [List.flatMap_cons, List.head?_append_of_ne_nil _ hsome]

lemma advances_fill (s : TokenStream) : Advances none s s.fill := by
  rw [fill]
  split
  next hempty =>
    obtain ⟨lines, backlog, matched, linesRead⟩ := s
    obtain rfl := List.isEmpty_iff.1 hempty
    exact advances_pull matched lines linesRead
  next => exact .refl s

/-- After pulling lines, the next token is in the backlog. -/
lemma head?_backlog_fill (s : TokenStream) : s.fill.backlog.head? = s.ahead.head? := by
  rw [fill, ahead]
  split
  next hempty => rw [List.isEmpty_iff.1 hempty, List.nil_append, head?_backlog_pull]
  next hsome =>
    have hne : s.backlog ≠ [] := fun h => hsome (List.isEmpty_iff.2 h)
    rw [List.head?_append_of_ne_nil _ hne]

/-! ### Matching -/

/-- What an operation does that matches a token of one of the given kinds: the next token is moved
if it is of such a kind, and the answer tells whether one has been moved. -/
structure Matching (kinds : List Token.Kind) (s : TokenStream) (result : Bool × TokenStream) : Prop where
  advances : Advances (s.candidate kinds) s result.2
  answer : result.1 = (s.candidate kinds).isSome

lemma matching_matchKind (s : TokenStream) (kind : Token.Kind) : Matching [kind] s (s.matchKind kind) := by
  have hfill := advances_fill s
  have hcandidate : s.candidate [kind] = s.fill.backlog.head?.filter fun token => token.kind ∈ [kind] := by
    rw [candidate, head?_backlog_fill]
  rw [matchKind]
  split
  next hempty =>
    rw [hempty] at hcandidate
    exact ⟨hcandidate ▸ hfill, hcandidate ▸ rfl⟩
  next token rest hbacklog =>
    rw [hbacklog, List.head?_cons, Option.filter_some] at hcandidate
    split
    next hkind =>
      rw [if_pos (by simpa using hkind)] at hcandidate
      refine ⟨hcandidate ▸ hfill.trans ⟨rfl, ?_, rfl⟩, hcandidate ▸ rfl⟩
      rw [ahead, hbacklog]
      rfl
    next hkind =>
      rw [if_neg (by simpa using hkind)] at hcandidate
      exact ⟨hcandidate ▸ hfill, hcandidate ▸ rfl⟩

lemma candidate_cons (s : TokenStream) (kind : Token.Kind) (kinds : List Token.Kind) :
    s.candidate (kind :: kinds) = (s.candidate [kind]).or (s.candidate kinds) := by
  rw [candidate, candidate, candidate]
  cases s.ahead.head? with
  | none => rfl
  | some token =>
    by_cases hkind : token.kind = kind
    · simp [Option.filter_some, hkind]
    · simp [Option.filter_some, hkind]

/-- The kinds are tried one after another, and the first that fits is the last that is tried. -/
lemma matching_matchOneOf (s : TokenStream) (kinds : List Token.Kind) :
    Matching kinds s (s.matchOneOf kinds) := by
  induction kinds generalizing s with
  | nil =>
    have hnone : s.candidate [] = none := by
      rw [candidate]
      cases s.ahead.head? <;> rfl
    exact ⟨hnone ▸ .refl s, hnone ▸ rfl⟩
  | cons kind kinds ih =>
    obtain ⟨hadvances, hanswer⟩ := matching_matchKind s kind
    rw [matchOneOf]
    split
    next s' hmatch =>
      rw [hmatch] at hadvances hanswer
      have hfirst : s.candidate (kind :: kinds) = s.candidate [kind] := by
        rw [candidate_cons, Option.or_of_isSome hanswer.symm]
      exact ⟨hfirst ▸ hadvances, hfirst ▸ hanswer⟩
    next s' hmatch =>
      rw [hmatch] at hadvances hanswer
      have hnone : s.candidate [kind] = none := Option.not_isSome_iff_eq_none.1 (by simp [← hanswer])
      rw [hnone] at hadvances
      have hrest : s.candidate (kind :: kinds) = s'.candidate kinds := by
        rw [candidate_cons, hnone, Option.none_or, hadvances.candidate_eq]
      exact ⟨hrest ▸ hadvances.trans (ih s').advances, hrest ▸ (ih s').answer⟩

/-! ### Operations one after another -/

/-- The operations on a stream. -/
inductive Operation where
  | remains
  | peek
  | lookahead (kind : Token.Kind)
  | matchKind (kind : Token.Kind)
  | matchOneOf (kinds : List Token.Kind)
  | take
  deriving DecidableEq, Repr

/-- The tokens that an operation takes from a stream, and the stream that it leaves. -/
def perform (s : TokenStream) : Operation → List Token × TokenStream
  | .remains => ([], s.remains.2)
  | .peek => ([], s.peek.2)
  | .lookahead kind => ([], (s.lookahead kind).2)
  | .matchKind kind => ([], (s.matchKind kind).2)
  | .matchOneOf kinds => ([], (s.matchOneOf kinds).2)
  | .take => (s.take.1.toList, s.take.2)

/-- The tokens that operations take from a stream one after another, and the stream that they
leave. -/
def run (s : TokenStream) : List Operation → List Token × TokenStream
  | [] => ([], s)
  | op :: ops => ((s.perform op).1 ++ ((s.perform op).2.run ops).1, ((s.perform op).2.run ops).2)

/-- The tokens that have been taken and those that are left make up those that were there, and no
line is counted twice. -/
structure Conserves (taken : List Token) (s s' : TokenStream) : Prop where
  tokens : taken ++ (s'.matched ++ s'.ahead) = s.matched ++ s.ahead
  lineCount : s'.linesRead + s'.lines.length = s.linesRead + s.lines.length

lemma Advances.conserves (h : Advances moved s s') : Conserves [] s s' where
  tokens := by rw [h.matched, h.ahead, List.nil_append, List.append_assoc]
  lineCount := h.lineCount

lemma Conserves.trans (h : Conserves taken s s') (h' : Conserves more s' s'') :
    Conserves (taken ++ more) s s'' where
  tokens := by rw [List.append_assoc, h'.tokens, h.tokens]
  lineCount := h'.lineCount.trans h.lineCount

lemma conserves_take (s : TokenStream) : Conserves s.take.1.toList s s.take.2 := by
  rw [take]
  split
  next => exact (Advances.refl s).conserves
  next token rest hmatched => exact ⟨by rw [hmatched]; rfl, rfl⟩

/-- What one operation keeps. -/
lemma conserves_perform (s : TokenStream) (op : Operation) : Conserves (s.perform op).1 s (s.perform op).2 := by
  cases op with
  | remains => exact (advances_fill s).conserves
  | peek => exact (advances_fill s).conserves
  | lookahead kind => exact (advances_fill s).conserves
  | matchKind kind => exact (matching_matchKind s kind).advances.conserves
  | matchOneOf kinds => exact (matching_matchOneOf s kinds).advances.conserves
  | take => exact conserves_take s

/-- What all operations keep. -/
lemma conserves_run (s : TokenStream) (ops : List Operation) : Conserves (s.run ops).1 s (s.run ops).2 := by
  induction ops generalizing s with
  | nil => exact (Advances.refl s).conserves
  | cons op ops ih => exact (conserves_perform s op).trans (ih _)

/-- Whatever operations have been performed on the stream of some lines: the tokens that have been
taken, the matched ones, the backlog and the tokens of the lines that are left are, in this order,
the tokens of all lines.  The lines that have been read and those that are left are as many as there
were.  Matching then moves the next token if it is of a kind that is asked for, and no other, and
answers whether it has moved one. -/
theorem tokens_conserved (lines : List String) (ops : List Operation) :
    ∃ taken s, (ofLines lines).run ops = (taken, s) ∧
      taken ++ s.matched ++ s.backlog ++ s.lines.flatMap tokenize = lines.flatMap tokenize ∧
      s.linesRead + s.lines.length = lines.length ∧
      (∀ kind, Matching [kind] s (s.matchKind kind)) ∧ ∀ kinds, Matching kinds s (s.matchOneOf kinds) := by
  obtain ⟨htokens, hlines⟩ := conserves_run (ofLines lines) ops
  refine ⟨_, _, rfl, ?_, ?_, matching_matchKind _, matching_matchOneOf _⟩
  · rw [List.append_assoc, List.append_assoc]
    exact htokens
  · rw [hlines]
    exact Nat.zero_add _

-- The third of the lines has not been pulled when the second, which is empty, has been looked at.
example : (ofLines ["LDWA x,d", "", ".END"]).run
    [.matchKind .identifier, .matchOneOf [.hexadecimal, .identifier], .take, .matchKind .mode,
      .matchKind .lineEnd, .lookahead .directive] =
    ([⟨.identifier, "LDWA"⟩], ⟨[".END"], [.lineEnd], [⟨.identifier, "x"⟩, ⟨.mode, "d"⟩, .lineEnd], 2⟩) := by
  decide +kernel

end Pep10.TokenStream
