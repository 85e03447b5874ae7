import Pep10.Program.Listing
import Pep10.Proofs.Text.Split

/-!
# Object text is decodable

Object text has a pair of digits for each byte, and behind each pair a blank or a line feed.  Where
these are cut, the pairs are found again, and the mark behind them (`fields_objectDigits`).  A line
feed stands behind each pair that makes a row full, so that cutting at line feeds gives full rows
and a last one with fewer pairs (`exists_rows`), perhaps none at all.  A pair denotes its byte, and
so the text denotes the bytes.
-/

namespace Pep10

namespace Text

variable {b b' : UInt8} {pair : List Char} {c : Char}

/-! ### Pairs of digits -/

/-- The hexadecimal digits in upper case. -/
def upperDigits : List Char := "0123456789ABCDEF".toList

/-- Two hexadecimal digits in upper case that denote a byte. -/
structure IsBytePair (b : UInt8) (pair : List Char) : Prop where
  length : pair.length = 2
  digits : ∀ c ∈ pair, c ∈ upperDigits
  value : valueOf 16 pair = b.toNat

/-- A pair denotes one byte only. -/
lemma IsBytePair.unique (h : IsBytePair b pair) (h' : IsBytePair b' pair) : b = b' :=
  UInt8.toNat_inj.1 (h.value.symm.trans h'.value)

lemma hexDigit_mem_upperDigits {n : Nat} (h : n < 16) : hexDigit n ∈ upperDigits := by
  revert n
  decide

lemma digitValue_hexDigit {n : Nat} (h : n < 16) : digitValue (hexDigit n) = n := by
  revert n
  decide

lemma isBytePair_byteDigits (b : UInt8) : IsBytePair b (byteDigits b) := by
  have hb := b.toNat_lt
  have hhigh : b.toNat / 16 < 16 := by omega
  have hlow : b.toNat % 16 < 16 := Nat.mod_lt _ (by decide)
  refine ⟨rfl, ?_, ?_⟩
  · exact List.forall_mem_cons.2
      ⟨hexDigit_mem_upperDigits hhigh, List.forall_mem_singleton.2 (hexDigit_mem_upperDigits hlow)⟩
  · simp only [byteDigits, valueOf, List.foldl_cons, List.foldl_nil, digitValue_hexDigit hhigh,
      digitValue_hexDigit hlow]
    omega

/-- A character that is no digit does not occur in a pair. -/
lemma beq_eq_false_of_mem_byteDigits {separator : Char} (hsep : separator ∉ upperDigits)
    (h : c ∈ byteDigits b) : (c == separator) = false := by
  rw [beq_eq_false_iff_ne]
  rintro rfl
  exact hsep ((isBytePair_byteDigits b).digits c h)

lemma beq_blank_of_mem_byteDigits (h : c ∈ byteDigits b) : (c == ' ') = false :=
  beq_eq_false_of_mem_byteDigits (by decide) h

lemma beq_newline_of_mem_byteDigits (h : c ∈ byteDigits b) : (c == '\n') = false :=
  beq_eq_false_of_mem_byteDigits (by decide) h

end Text

variable {k column : Nat} {b : UInt8} {row bytes : List UInt8}

/-! ### Cutting at blanks and line feeds -/

/-- Whether a character separates the pairs of object text. -/
def separatesPairs (c : Char) : Bool := c == ' ' || c == '\n'

lemma fields_objectDigits (k column : Nat) (bytes : List UInt8) :
    Text.fields separatesPairs (objectDigits k column bytes ++ "zz".toList) =
      bytes.map Text.byteDigits ++ ["zz".toList] := by
  induction bytes generalizing column with
  | nil => exact Text.fields_eq_singleton (List.forall_mem_cons.2 ⟨rfl, List.forall_mem_singleton.2 rfl⟩)
  | cons b bytes ih =>
    have hpair : ∀ c ∈ Text.byteDigits b, separatesPairs c = false := fun c hc => by
      rw [separatesPairs, Text.beq_blank_of_mem_byteDigits hc, Text.beq_newline_of_mem_byteDigits hc,
        Bool.false_or]
    have hsep : separatesPairs (if column % k == k - 1 then '\n' else ' ') = true := by
      split <;> rfl
    rw [objectDigits, List.append_assoc, List.cons_append, Text.fields_append hpair hsep, ih,
      List.map_cons, List.cons_append]

/-! ### Cutting into rows -/

/-- The pairs of some bytes, a blank behind each of them. -/
def rowDigits (row : List UInt8) : List Char := row.flatMap fun b => Text.byteDigits b ++ [' ']

/-- The pairs of a text, row by row. -/
def rowsOf (text : List Char) : List (List (List Char)) :=
  (Text.fields (· == '\n') text).map (Text.fields (· == ' '))

/-- As long as a row is not full, there are blanks between its pairs. -/
lemma objectDigits_append (h : column % k + row.length < k) :
    objectDigits k column (row ++ bytes) = rowDigits row ++ objectDigits k (column + row.length) bytes := by
  induction row generalizing column with
  | nil => rfl
  | cons b row ih =>
    rw [List.length_cons] at h
    have hends : ¬(column % k == k - 1) = true := by
      rw [beq_iff_eq]
      omega
    have hone : 1 % k = 1 := Nat.mod_eq_of_lt (by omega)
    have hnext : (column + 1) % k = column % k + 1 := by
      rw [Nat.add_mod, hone, Nat.mod_eq_of_lt (by omega)]
    rw [List.cons_append, objectDigits, if_neg hends, ih (by omega), rowDigits, rowDigits, List.flatMap_cons,
      List.length_cons, Nat.add_assoc, Nat.add_comm 1]
    simp only [List.append_assoc, List.cons_append, List.nil_append]

/-- A full row ends in a line feed. -/
lemma objectDigits_row (hcolumn : column % k = 0) (hrow : row.length + 1 = k) :
    objectDigits k column (row ++ b :: bytes) =
      rowDigits row ++ Text.byteDigits b ++ '\n' :: objectDigits k (column + k) bytes := by
  have hlast : ((column + row.length) % k == k - 1) = true := by
    rw [beq_iff_eq, Nat.add_mod, hcolumn, Nat.zero_add, Nat.mod_mod, Nat.mod_eq_of_lt (by omega)]
    omega
  rw [objectDigits_append (by omega), objectDigits, if_pos hlast, Nat.add_assoc, hrow, List.append_assoc]

lemma newline_of_mem_rowDigits {c : Char} (h : c ∈ rowDigits row) : (c == '\n') = false := by
  obtain ⟨b, -, hc⟩ := List.mem_flatMap.1 h
  rcases List.mem_append.1 hc with hc | hc
  · exact Text.beq_newline_of_mem_byteDigits hc
  · rw [List.mem_singleton.1 hc]
    rfl

lemma fields_rowDigits (row : List UInt8) (s : List Char) :
    Text.fields (· == ' ') (rowDigits row ++ s) = row.map Text.byteDigits ++ Text.fields (· == ' ') s := by
  induction row with
  | nil => rfl
  | cons b row ih =>
    rw [rowDigits, List.flatMap_cons, List.append_assoc, List.append_assoc, List.singleton_append,
      Text.fields_append (fun _ => Text.beq_blank_of_mem_byteDigits) (by decide)]
    exact congrArg (Text.byteDigits b :: ·) ih

/-- What stands before a line feed is a row. -/
lemma rowsOf_row (row : List UInt8) (b : UInt8) (s : List Char) :
    rowsOf (rowDigits row ++ Text.byteDigits b ++ '\n' :: s) =
      (row ++ [b]).map Text.byteDigits :: rowsOf s := by
  have hline : ∀ c ∈ rowDigits row ++ Text.byteDigits b, (c == '\n') = false := fun c hc => by
    rcases List.mem_append.1 hc with hc | hc
    · exact newline_of_mem_rowDigits hc
    · exact Text.beq_newline_of_mem_byteDigits hc
  have hlast : Text.fields (· == ' ') (Text.byteDigits b) = [Text.byteDigits b] :=
    Text.fields_eq_singleton fun _ => Text.beq_blank_of_mem_byteDigits
  rw [rowsOf, Text.fields_append hline (by decide), List.map_cons, fields_rowDigits, hlast, List.map_append]
  rfl

/-- The last row holds the mark. -/
lemma rowsOf_last (row : List UInt8) :
    rowsOf (rowDigits row ++ "zz".toList) = [row.map Text.byteDigits ++ ["zz".toList]] := by
  have hline : ∀ c ∈ rowDigits row ++ "zz".toList, (c == '\n') = false := fun c hc => by
    rcases List.mem_append.1 hc with hc | hc
    · exact newline_of_mem_rowDigits hc
    · rw [beq_eq_false_iff_ne]
      rintro rfl
      revert hc
      decide
  have hmark : Text.fields (· == ' ') "zz".toList = ["zz".toList] := by decide
  rw [rowsOf, Text.fields_eq_singleton hline, List.map_singleton, fields_rowDigits, hmark]

/-- Bytes from the beginning of a row on make up full rows and a last one that is not full. -/
lemma exists_rows (hk : 0 < k) (hcolumn : column % k = 0) (bytes : List UInt8) :
    ∃ (full : List (List UInt8)) (last : List UInt8),
      full.flatten ++ last = bytes ∧ (∀ row ∈ full, row.length = k) ∧ last.length < k ∧
      rowsOf (objectDigits k column bytes ++ "zz".toList) =
        full.map (List.map Text.byteDigits) ++ [last.map Text.byteDigits ++ ["zz".toList]] := by
  induction hn : bytes.length using Nat.strongRecOn generalizing column bytes with
  | ind n ih =>
    subst hn
    rcases Nat.lt_or_ge bytes.length k with hlt | hge
    · refine ⟨[], bytes, rfl, by simp, hlt, ?_⟩
      have htext : objectDigits k column (bytes ++ []) = rowDigits bytes ++ [] :=
        objectDigits_append (by omega)
      rw [List.append_nil, List.append_nil] at htext
      rw [htext, rowsOf_last]
      rfl
    · -- The first row is full; the bytes behind it begin a row again.
      obtain ⟨b, rest, hdrop⟩ : ∃ b rest, bytes.drop (k - 1) = b :: rest :=
        List.exists_cons_of_ne_nil fun h => absurd (List.drop_eq_nil_iff.1 h) (by omega)
      have hbytes : bytes.take (k - 1) ++ b :: rest = bytes := by rw [← hdrop, List.take_append_drop]
      have hrow : (bytes.take (k - 1)).length + 1 = k := by
        rw [List.length_take]
        omega
      have hrest : rest.length < bytes.length := by
        rw [← hbytes, List.length_append, List.length_cons]
        omega
      have hnext : (column + k) % k = 0 := by rw [Nat.add_mod_right, hcolumn]
      obtain ⟨full, last, hflatten, hfull, hlast, hrows⟩ := ih rest.length hrest hnext rest rfl
      refine ⟨(bytes.take (k - 1) ++ [b]) :: full, last, ?_, ?_, hlast, ?_⟩
      · rw [List.flatten_cons, List.append_assoc, hflatten, List.append_assoc, List.singleton_append, hbytes]
      · exact List.forall_mem_cons.2 ⟨by rw [List.length_append, List.length_singleton, hrow], hfull⟩
      · have htext : objectDigits k column (bytes.take (k - 1) ++ b :: rest) = _ :=
          objectDigits_row hcolumn hrow
        rw [hbytes] at htext
        rw [htext, List.append_assoc, List.cons_append, rowsOf_row, hrows]
        rfl

/-! ### Decoding -/

lemma toList_objectText (bytes : List UInt8) (perLine : Nat) :
    (objectText bytes perLine).toList = objectDigits (max perLine 1) 0 bytes ++ "zz".toList := by
  rw [objectText, String.toList_ofList]
  rfl

lemma forall₂_byteDigits (bytes : List UInt8) :
    List.Forall₂ Text.IsBytePair bytes (bytes.map Text.byteDigits) := by
  induction bytes with
  | nil => exact .nil
  | cons b bytes ih => exact .cons (Text.isBytePair_byteDigits b) ih

/-- Pairs denote one sequence of bytes only. -/
lemma eq_of_forall₂ {pairs : List (List Char)} {other : List UInt8}
    (h : List.Forall₂ Text.IsBytePair bytes pairs) (h' : List.Forall₂ Text.IsBytePair other pairs) :
    other = bytes := by
  induction h generalizing other with
  | nil =>
    cases h'
    rfl
  | cons hpair _ ih =>
    obtain - | ⟨hpair', hrest⟩ := h'
    rw [hpair'.unique hpair, ih hrest]

/-- The text of two sequences of bytes is the same only if they are, whatever the length of a
row. -/
lemma eq_of_objectText_eq {other : List UInt8} {width perLine : Nat}
    (h : objectText other width = objectText bytes perLine) : other = bytes := by
  have hfields := congrArg (fun text => Text.fields separatesPairs text.toList) h
  simp only [toList_objectText, fields_objectDigits] at hfields
  have hpairs := List.append_cancel_right hfields
  exact eq_of_forall₂ (forall₂_byteDigits bytes) (hpairs ▸ forall₂_byteDigits other)

/-- Object text that is cut at blanks and line feeds gives a pair of upper-case digits for each
byte, in order, and then the mark.  Cut at line feeds alone it gives rows, of which all are full but
the last; that one has fewer pairs, and the mark behind them.  No other bytes have the same text,
however many of them are put on a line. -/
theorem objectText_decodable (bytes : List UInt8) (perLine : Nat) :
    ∃ pairs, List.Forall₂ Text.IsBytePair bytes pairs ∧
      Text.fields separatesPairs (objectText bytes perLine).toList = pairs ++ ["zz".toList] ∧
      (∃ full last, full.flatten ++ last = pairs ∧ (∀ row ∈ full, row.length = max perLine 1) ∧
        last.length < max perLine 1 ∧
        rowsOf (objectText bytes perLine).toList = full ++ [last ++ ["zz".toList]]) ∧
      ∀ other width, other ≠ bytes → objectText other width ≠ objectText bytes perLine := by
  refine ⟨bytes.map Text.byteDigits, forall₂_byteDigits bytes, ?_, ?_, fun _ _ => mt eq_of_objectText_eq⟩
  · rw [toList_objectText, fields_objectDigits]
  · have hk : 0 < max perLine 1 := by omega
    obtain ⟨full, last, hflatten, hfull, hlast, hrows⟩ := exists_rows hk (Nat.zero_mod _) bytes
    refine ⟨full.map (List.map Text.byteDigits), last.map Text.byteDigits, ?_, ?_, ?_, ?_⟩
    · rw [← hflatten, List.map_append, List.map_flatten]
    · intro row hrow
      obtain ⟨digits, hdigits, rfl⟩ := List.mem_map.1 hrow
      rw [List.length_map, hfull digits hdigits]
    · rwa [List.length_map]
    · rw [toList_objectText, hrows]

/-- Some bytes that fill two rows of two and begin a third one. -/
def fiveBytes : List UInt8 := [0x40, 0x00, 0x05, 0x14, 0x00]

/-- The second row is full.  Without the last byte the mark has a row of its own. -/
theorem objectText_decodable_five :
    objectText fiveBytes 2 = "40 00\n05 14\n00 zz" ∧
      (∃ full last, rowsOf (objectText fiveBytes 2).toList = full ++ [last ++ ["zz".toList]] ∧
        ["05".toList, "14".toList] ∈ full ∧ ["05".toList, "14".toList].length = 2) ∧
      objectText [0x40, 0x00, 0x05, 0x14] 2 = "40 00\n05 14\nzz" ∧
      objectText [0x40, 0x00, 0x05, 0x14] 2 ≠ objectText fiveBytes 2 := by
  obtain ⟨pairs, -, -, ⟨full, last, -, hfull, -, hrows⟩, hother⟩ := objectText_decodable fiveBytes 2
  refine ⟨by decide, ⟨full, last, hrows, ?_⟩, by decide, hother _ 2 (by decide)⟩
  have htext : rowsOf (objectText fiveBytes 2).toList =
      [["40".toList, "00".toList], ["05".toList, "14".toList]] ++ [["00".toList] ++ ["zz".toList]] := by
    decide
  rw [htext] at hrows
  have hmem : ["05".toList, "14".toList] ∈ full := by
    rw [← (List.append_inj' hrows rfl).1]
    exact List.mem_cons_of_mem _ (List.mem_singleton_self _)
  exact ⟨hmem, hfull _ hmem⟩

end Pep10
