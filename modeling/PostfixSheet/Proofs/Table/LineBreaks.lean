import PostfixSheet.Table.Lines

/-! What counting lines computes: the line reached is one more than the number of line breaks passed, in
whatever pieces the bytes came. -/

namespace PostfixSheet

def loneFeeds : Bool → List UInt8 → Nat
  | _, [] => 0
  | afterReturn, byte :: rest =>
      (if byte = lineFeed ∧ afterReturn = false then 1 else 0) +
        loneFeeds (byte == carriageReturn) rest

/-- Every carriage return is a line break, and so is every line feed that does not stand right behind
one. -/
def lineBreaks (bytes : List UInt8) : Nat :=
  bytes.count carriageReturn + loneFeeds false bytes

/-- The lines of some bytes without what ends them; an empty piece behind the last break is no line. -/
def linesFrom : List UInt8 → List UInt8 → List (List UInt8)
  | current, [] => if current.isEmpty then [] else [current.reverse]
  | current, 13 :: 10 :: rest => current.reverse :: linesFrom [] rest
  | current, byte :: rest =>
      if isLineBreak byte then current.reverse :: linesFrom [] rest
      else linesFrom (byte :: current) rest

def sourceLines (bytes : List UInt8) : List (List UInt8) :=
  linesFrom [] bytes

theorem isLineBreak_iff (byte : UInt8) :
    isLineBreak byte = true ↔ byte = carriageReturn ∨ byte = lineFeed := by
  simp [isLineBreak]

theorem isLineBreak_of_high (byte : UInt8) (high : 0x80 ≤ byte.toNat) : isLineBreak byte = false := by
  rw [← Bool.not_eq_true, isLineBreak_iff]
  rintro (rfl | rfl) <;> contradiction

def lineStarts (atStart : Bool) (bytes : List UInt8) : Bool :=
  (bytes.getLast?.map isLineBreak).getD atStart

theorem lineStarts_append (atStart : Bool) (left right : List UInt8) :
    lineStarts atStart (left ++ right) = lineStarts (lineStarts atStart left) right := by
  rw [lineStarts, lineStarts, lineStarts, List.getLast?_append]
  cases right.getLast? <;> simp

theorem lineBreaks_nil : lineBreaks [] = 0 := rfl

namespace LineCount

theorem passByte_line (count : LineCount) (byte : UInt8) :
    (count.passByte byte).line = count.line + ((if byte = carriageReturn then 1 else 0) +
      if byte = lineFeed ∧ count.afterReturn = false then 1 else 0) := by
  by_cases isReturn : byte = carriageReturn
  · subst byte
    simp [passByte, carriageReturn, lineFeed]
  · by_cases counts : byte = lineFeed ∧ count.afterReturn = false
    · simp [passByte, counts.1, counts.2, carriageReturn, lineFeed]
    · simp [passByte, isReturn, counts]

theorem foldl_passByte_line (count : LineCount) (bytes : List UInt8) :
    (bytes.foldl passByte count).line =
      count.line + (bytes.count carriageReturn + loneFeeds count.afterReturn bytes) := by
  induction bytes generalizing count with
  | nil => simp [loneFeeds]
  | cons byte rest ih =>
      have after : (count.passByte byte).afterReturn = (byte == carriageReturn) := rfl
      rw [List.foldl_cons, ih, passByte_line, after, List.count_cons, loneFeeds]
      simp only [beq_iff_eq]
      omega

theorem foldl_passByte_atLineStart (count : LineCount) (atStart : Bool) (bytes : List UInt8) :
    bytes.foldl passByte { count with atLineStart := atStart } =
      { bytes.foldl passByte count with atLineStart := atStart } := by
  induction bytes generalizing count with
  | nil => rfl
  | cons byte rest ih => exact ih (count.passByte byte)

theorem foldl_passByte_keeps (count : LineCount) (bytes : List UInt8) :
    (bytes.foldl passByte count).atLineStart = count.atLineStart := by
  induction bytes generalizing count with
  | nil => rfl
  | cons byte rest ih => exact ih (count.passByte byte)

theorem pass_eq (count : LineCount) (bytes : List UInt8) :
    count.pass bytes =
      { bytes.foldl passByte count with atLineStart := lineStarts count.atLineStart bytes } := by
  rw [pass, lineStarts]
  cases bytes.getLast? with
  | none =>
      rw [← foldl_passByte_keeps count bytes]
      rfl
  | some last => rfl

/-- Passing bytes in two pieces is passing them at once, wherever the cut falls. -/
theorem pass_append (count : LineCount) (left right : List UInt8) :
    (count.pass left).pass right = count.pass (left ++ right) := by
  rw [pass_eq (count.pass left), pass_eq count, pass_eq count, foldl_passByte_atLineStart,
    List.foldl_append, lineStarts_append]

theorem pass_line (count : LineCount) (bytes : List UInt8) :
    (count.pass bytes).line =
      count.line + (bytes.count carriageReturn + loneFeeds count.afterReturn bytes) := by
  rw [pass_eq, foldl_passByte_line]

theorem pass_atLineStart (count : LineCount) (bytes : List UInt8) :
    (count.pass bytes).atLineStart = lineStarts count.atLineStart bytes := by
  rw [pass_eq]

theorem pass_afterReturn (count : LineCount) (bytes : List UInt8) (last : UInt8)
    (ends : bytes.getLast? = some last) :
    (count.pass bytes).afterReturn = (last == carriageReturn) := by
  obtain ⟨front, same⟩ := List.getLast?_eq_some_iff.mp ends
  rw [pass_eq, same, List.foldl_append]
  rfl

theorem pass_start_line (bytes : List UInt8) :
    (LineCount.pass {} bytes).line = 1 + lineBreaks bytes :=
  pass_line {} bytes

end LineCount

theorem lineBreaks_le_append (left right : List UInt8) :
    lineBreaks left ≤ lineBreaks (left ++ right) := by
  have whole := LineCount.pass_start_line (left ++ right)
  rw [← LineCount.pass_append, LineCount.pass_line, LineCount.pass_start_line] at whole
  omega

theorem loneFeeds_of_head (afterReturn : Bool) (bytes : List UInt8)
    (other : bytes.head? ≠ some lineFeed) : loneFeeds afterReturn bytes = loneFeeds false bytes := by
  cases bytes with
  | nil => rfl
  | cons first rest =>
      have notFeed : first ≠ lineFeed := by simpa using other
      simp [loneFeeds, notFeed]

theorem lineBreaks_append_of_head (before : List UInt8) (first : UInt8) (rest : List UInt8)
    (inside : isLineBreak first = false) :
    lineBreaks (before ++ first :: rest) = lineBreaks before + lineBreaks (first :: rest) := by
  have other : (first :: rest).head? ≠ some lineFeed := by
    intro same
    simp only [List.head?_cons, Option.some.injEq] at same
    simp [isLineBreak, same] at inside
  have whole := LineCount.pass_start_line (before ++ first :: rest)
  rw [← LineCount.pass_append, LineCount.pass_line, LineCount.pass_start_line,
    loneFeeds_of_head _ _ other] at whole
  simp only [lineBreaks] at whole ⊢
  omega

theorem count_lineFeed_le (afterReturn : Bool) (bytes : List UInt8) :
    bytes.count lineFeed ≤
      bytes.count carriageReturn + loneFeeds afterReturn bytes + if afterReturn then 1 else 0 := by
  induction bytes generalizing afterReturn with
  | nil => simp
  | cons byte rest ih =>
      have later := ih (byte == carriageReturn)
      simp only [List.count_cons, loneFeeds, beq_iff_eq] at later ⊢
      generalize loneFeeds (byte == carriageReturn) rest = lone at later ⊢
      by_cases isReturn : byte = carriageReturn
      · have notFeed : carriageReturn ≠ lineFeed := by decide
        simp only [isReturn, if_true] at later
        simp only [isReturn, notFeed, if_true, false_and, if_false]
        omega
      · simp only [isReturn, if_false] at later ⊢
        cases afterReturn <;> by_cases isFeed : byte = lineFeed <;>
          simp only [isFeed, true_and, false_and, if_true, if_false, Bool.true_eq_false,
            Bool.false_eq_true, and_false] <;> omega

theorem lineBreaks_le_length (bytes : List UInt8) : lineBreaks bytes ≤ bytes.length := by
  have distinct : carriageReturn ≠ lineFeed := by decide
  suffices counted : ∀ afterReturn,
      bytes.count carriageReturn + loneFeeds afterReturn bytes ≤ bytes.length from counted false
  induction bytes with
  | nil => simp [loneFeeds]
  | cons byte rest ih =>
      intro afterReturn
      have later := ih (byte == carriageReturn)
      simp only [List.count_cons, loneFeeds, List.length_cons, beq_iff_eq] at later ⊢
      by_cases isReturn : byte = carriageReturn
      · simp only [isReturn, distinct, if_true, false_and, if_false] at later ⊢
        omega
      · simp only [isReturn, if_false] at later ⊢
        split <;> omega

theorem lineBreaks_pos (bytes : List UInt8) (last : UInt8) (ends : bytes.getLast? = some last)
    (isBreak : isLineBreak last = true) : 0 < lineBreaks bytes := by
  have member : last ∈ bytes := List.mem_of_getLast? ends
  rcases (isLineBreak_iff last).mp isBreak with isReturn | isFeed
  · subst last
    have counted : 0 < bytes.count carriageReturn := List.count_pos_iff.mpr member
    rw [lineBreaks]
    omega
  · subst last
    have counted : 0 < bytes.count lineFeed := List.count_pos_iff.mpr member
    have bound := count_lineFeed_le false bytes
    simp only [Bool.false_eq_true, if_false] at bound
    rw [lineBreaks]
    omega

theorem lineBreaks_pair (rest : List UInt8) :
    lineBreaks (13 :: 10 :: rest) = lineBreaks rest + 1 := by
  simp only [lineBreaks, loneFeeds, List.count_cons, carriageReturn, lineFeed]
  simp
  omega

theorem lineBreaks_break (byte : UInt8) (rest : List UInt8) (isBreak : isLineBreak byte = true)
    (single : ∀ later, byte = 13 → rest = 10 :: later → False) :
    lineBreaks (byte :: rest) = lineBreaks rest + 1 := by
  rcases (isLineBreak_iff byte).mp isBreak with isReturn | isFeed
  · have other : rest.head? ≠ some lineFeed := by
      intro same
      obtain ⟨later, split⟩ := List.head?_eq_some_iff.mp same
      exact single later isReturn split
    simp only [lineBreaks, loneFeeds, List.count_cons, isReturn]
    rw [loneFeeds_of_head _ rest other]
    simp [carriageReturn, lineFeed]
    omega
  · subst byte
    simp only [lineBreaks, loneFeeds, List.count_cons]
    simp [carriageReturn, lineFeed]
    omega

theorem ne_carriageReturn (byte : UInt8) (inside : isLineBreak byte = false) :
    byte ≠ carriageReturn := by
  rintro rfl
  simp [isLineBreak] at inside

theorem lineBreaks_inside (byte : UInt8) (rest : List UInt8) (inside : isLineBreak byte = false) :
    lineBreaks (byte :: rest) = lineBreaks rest := by
  have notReturn := ne_carriageReturn byte inside
  have notFeed : byte ≠ lineFeed := by
    intro same
    simp [isLineBreak, same] at inside
  have after : (byte == carriageReturn) = false := by simpa using notReturn
  simp [lineBreaks, loneFeeds, notReturn, notFeed, after]

theorem lineBreaks_concat (bytes : List UInt8) (byte : UInt8) :
    lineBreaks (bytes ++ [byte]) = lineBreaks bytes +
      if byte = carriageReturn ∨ byte = lineFeed ∧ bytes.getLast? ≠ some carriageReturn then 1
      else 0 := by
  have whole := LineCount.pass_start_line (bytes ++ [byte])
  have after : (LineCount.pass {} bytes).afterReturn = true ↔
      bytes.getLast? = some carriageReturn := by
    cases ends : bytes.getLast? with
    | none =>
        rw [List.getLast?_eq_none_iff.mp ends]
        simp [LineCount.pass]
    | some last =>
        rw [LineCount.pass_afterReturn {} bytes last ends]
        simp
  have distinct : carriageReturn ≠ lineFeed := by decide
  rw [← LineCount.pass_append, LineCount.pass_line, LineCount.pass_start_line] at whole
  simp only [List.count_singleton, loneFeeds, Nat.add_zero, beq_iff_eq] at whole
  by_cases isReturn : byte = carriageReturn
  · simp only [isReturn, distinct, if_true, false_and, if_false, true_or] at whole ⊢
    omega
  · simp only [isReturn, if_false, false_or, ne_eq, ← after, Bool.not_eq_true] at whole ⊢
    omega

theorem lineBreaks_concat_inside (bytes : List UInt8) (byte : UInt8)
    (inside : isLineBreak byte = false) : lineBreaks (bytes ++ [byte]) = lineBreaks bytes := by
  have other : ¬(byte = carriageReturn ∨ byte = lineFeed) := by
    rw [← isLineBreak_iff, inside]
    simp
  rw [not_or] at other
  simp [lineBreaks_concat, other]

theorem lineBreaks_concat_break (bytes : List UInt8) (byte last : UInt8)
    (isBreak : isLineBreak byte = true) (ends : bytes.getLast? = some last)
    (inside : isLineBreak last = false) : lineBreaks (bytes ++ [byte]) = lineBreaks bytes + 1 := by
  have notReturn : bytes.getLast? ≠ some carriageReturn := by
    simp [ends, ne_carriageReturn last inside]
  have either := (isLineBreak_iff byte).mp isBreak
  rw [lineBreaks_concat, if_pos (either.imp_right fun isFeed => ⟨isFeed, notReturn⟩)]

theorem isLineBreak_feeds (count : Nat) :
    ∀ byte ∈ List.replicate count lineFeed, isLineBreak byte = true := by
  intro byte member
  rw [List.eq_of_mem_replicate member]
  rfl

theorem lineBreaks_feeds (count : Nat) : lineBreaks (List.replicate count lineFeed) = count := by
  induction count with
  | zero => exact lineBreaks_nil
  | succ count ih =>
      have notReturn : (List.replicate count lineFeed).getLast? ≠ some carriageReturn := by
        rw [List.getLast?_replicate]
        split <;> simp [lineFeed, carriageReturn]
      rw [List.replicate_succ', lineBreaks_concat, ih, if_pos (Or.inr ⟨rfl, notReturn⟩)]

theorem lineBreaks_eq_zero (bytes : List UInt8)
    (inside : ∀ byte ∈ bytes, isLineBreak byte = false) : lineBreaks bytes = 0 := by
  induction bytes with
  | nil => rfl
  | cons byte rest ih =>
      rw [lineBreaks_inside byte rest (inside byte (by simp)),
        ih fun other member => inside other (by simp [member])]

theorem lineStarts_cons (atStart : Bool) (byte : UInt8) (rest : List UInt8) :
    lineStarts atStart (byte :: rest) = lineStarts (isLineBreak byte) rest :=
  lineStarts_append atStart [byte] rest

theorem linesFrom_length (current bytes : List UInt8) :
    (linesFrom current bytes).length =
      lineBreaks bytes + if lineStarts current.isEmpty bytes then 0 else 1 := by
  fun_induction linesFrom current bytes with
  | case1 current empty => simp [lineBreaks_nil, lineStarts, empty]
  | case2 current nonempty => simp [lineBreaks_nil, lineStarts, nonempty]
  | case3 current rest ih =>
      have feed : isLineBreak 10 = true := by decide
      rw [List.length_cons, ih, lineBreaks_pair, lineStarts_cons, lineStarts_cons, feed,
        List.isEmpty_nil]
      omega
  | case4 current byte rest single isBreak ih =>
      rw [List.length_cons, ih, lineBreaks_break byte rest isBreak single, lineStarts_cons, isBreak,
        List.isEmpty_nil]
      omega
  | case5 current byte rest single inside ih =>
      have notBreak : isLineBreak byte = false := by simpa using inside
      rw [ih, lineBreaks_inside byte rest notBreak, lineStarts_cons, notBreak, List.isEmpty_cons]

theorem sourceLines_length (bytes : List UInt8) :
    (sourceLines bytes).length = lineBreaks bytes + if lineStarts true bytes then 0 else 1 :=
  linesFrom_length [] bytes

theorem sourceLines_single (bytes : List UInt8) (nonempty : bytes ≠ [])
    (inside : ∀ byte ∈ bytes.dropLast, isLineBreak byte = false) :
    (sourceLines bytes).length = 1 := by
  rw [sourceLines_length]
  induction bytes with
  | nil => contradiction
  | cons first rest ih =>
      cases rest with
      | nil =>
          cases isBreak : isLineBreak first with
          | true =>
              rw [lineBreaks_break first [] isBreak (by simp), lineStarts_cons, isBreak]
              rfl
          | false =>
              rw [lineBreaks_inside first [] isBreak, lineStarts_cons, isBreak]
              rfl
      | cons second more =>
          rw [List.dropLast_cons_cons] at inside
          have later := ih (by simp) fun byte member => inside byte (by simp [member])
          rw [lineBreaks_inside first _ (inside first (by simp)), lineStarts_cons, lineStarts_cons]
          rw [lineStarts_cons] at later
          exact later

end PostfixSheet
