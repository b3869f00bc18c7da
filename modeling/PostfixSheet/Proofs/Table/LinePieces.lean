import Mathlib.Data.List.Induction
import PostfixSheet.Proofs.Table.LineBreaks

/-! Lines counted over bytes that come in pieces. Wherever the bytes are cut, between the two bytes of one
line break too, the count is that of the bytes as a whole. -/

namespace PostfixSheet

def IsLoneFeed (bytes : List UInt8) (index : Nat) : Prop :=
  bytes[index]? = some lineFeed ∧ (bytes.take index).getLast? ≠ some carriageReturn

instance (bytes : List UInt8) (index : Nat) : Decidable (IsLoneFeed bytes index) :=
  inferInstanceAs (Decidable (_ ∧ _))

theorem isLoneFeed_append (bytes later : List UInt8) (index : Nat) (inside : index < bytes.length) :
    IsLoneFeed (bytes ++ later) index ↔ IsLoneFeed bytes index := by
  rw [IsLoneFeed, IsLoneFeed, List.getElem?_append_left inside,
    List.take_append_of_le_length (Nat.le_of_lt inside)]

theorem isLoneFeed_concat_last (bytes : List UInt8) (last : UInt8) :
    IsLoneFeed (bytes ++ [last]) bytes.length ↔
      last = lineFeed ∧ bytes.getLast? ≠ some carriageReturn := by
  simp [IsLoneFeed]

theorem lineBreaks_places (bytes : List UInt8) :
    lineBreaks bytes = bytes.count carriageReturn +
      (List.range bytes.length).countP (IsLoneFeed bytes ·) := by
  induction bytes using List.reverseRecOn with
  | nil => rfl
  | append_singleton bytes last ih =>
      have earlier : (List.range bytes.length).countP (IsLoneFeed (bytes ++ [last]) ·) =
          (List.range bytes.length).countP (IsLoneFeed bytes ·) := by
        refine List.countP_congr fun index member => ?_
        simp only [decide_eq_true_eq]
        exact isLoneFeed_append bytes [last] index (List.mem_range.mp member)
      have distinct : carriageReturn ≠ lineFeed := by decide
      rw [lineBreaks_concat, ih, List.length_append, List.length_singleton, List.range_succ,
        List.countP_append, earlier, List.countP_singleton, List.count_append, List.count_singleton]
      simp only [isLoneFeed_concat_last, beq_iff_eq, decide_eq_true_eq]
      by_cases isReturn : last = carriageReturn
      · simp only [isReturn, distinct, true_or, false_and, if_true, if_false]
        omega
      · simp only [isReturn, false_or, if_false]
        omega

namespace LineCount

theorem foldl_pass (count : LineCount) (pieces : List (List UInt8)) :
    pieces.foldl pass count = count.pass pieces.flatten := by
  induction pieces generalizing count with
  | nil => rfl
  | cons piece rest ih => rw [List.foldl_cons, ih, pass_append, List.flatten_cons]

theorem pass_start_afterReturn (bytes : List UInt8) :
    (pass {} bytes).afterReturn = true ↔ bytes.getLast? = some carriageReturn := by
  cases ends : bytes.getLast? with
  | none =>
      obtain rfl := List.getLast?_eq_none_iff.mp ends
      simp [pass]
  | some last =>
      rw [pass_afterReturn {} bytes last ends]
      simp

theorem pass_start_atLineStart (bytes : List UInt8) :
    (pass {} bytes).atLineStart = true ↔
      bytes = [] ∨ bytes.getLast? = some carriageReturn ∨ bytes.getLast? = some lineFeed := by
  rw [pass_atLineStart, lineStarts]
  cases ends : bytes.getLast? with
  | none => simp [List.getLast?_eq_none_iff.mp ends]
  | some last =>
      have nonempty : bytes ≠ [] := by
        rintro rfl
        simp at ends
      simp [nonempty, isLineBreak_iff]

/-- However bytes are cut into pieces, counting them piece by piece ends as counting them at once does. The
line reached is one more than the carriage returns and the line feeds with no carriage return right in front
of them, and the last byte alone decides what the count knows besides. -/
theorem pass_pieces (pieces : List (List UInt8)) :
    let bytes := pieces.flatten
    let count := pieces.foldl pass {}
    count = pass {} bytes ∧
      count.line = 1 + bytes.count carriageReturn +
        (List.range bytes.length).countP (IsLoneFeed bytes ·) ∧
      (count.afterReturn = true ↔ bytes.getLast? = some carriageReturn) ∧
      (count.atLineStart = true ↔
        bytes = [] ∨ bytes.getLast? = some carriageReturn ∨ bytes.getLast? = some lineFeed) := by
  intro bytes count
  have whole : count = pass {} bytes := foldl_pass {} pieces
  refine ⟨whole, ?_, ?_, ?_⟩
  · rw [whole, pass_start_line, lineBreaks_places, Nat.add_assoc]
  · rw [whole, pass_start_afterReturn]
  · rw [whole, pass_start_atLineStart]

example : [[97, 13], [], [10, 10], [98]].foldl pass {} = ⟨3, false, false⟩ := by decide

end LineCount

end PostfixSheet
