import Mathlib
import PostfixSheet.Number.Writing
import PostfixSheet.Proofs.Text.Words

/-! Runs of decimal digits: their values, and what dropping the zeros at either end of one leaves. -/

namespace PostfixSheet

theorem isDigit_of_mem_decimalDigits (number : Nat) :
    ∀ digit ∈ decimalDigits number, digit.isDigit = true := by
  fun_induction decimalDigits number with
  | case1 number bound =>
      intro digit member
      simp only [List.mem_singleton] at member
      rw [member]
      exact isDigit_digitChar number bound
  | case2 number bound ih =>
      intro digit member
      rcases List.mem_append.mp member with earlier | last
      · exact ih digit earlier
      · simp only [List.mem_singleton] at last
        rw [last]
        exact isDigit_digitChar _ (Nat.mod_lt _ (by decide))

theorem decimalDigits_ne_nil (number : Nat) : decimalDigits number ≠ [] := by
  unfold decimalDigits
  split <;> simp

theorem digitsValue_concat (left right : List Char) :
    digitsValue (left ++ right) = digitsValue left * 10 ^ right.length + digitsValue right := by
  induction right using List.reverseRecOn with
  | nil => simp [digitsValue]
  | append_singleton right last ih =>
      rw [← List.append_assoc, digitsValue_append, digitsValue_append, ih, List.length_append,
        List.length_singleton, Nat.pow_succ]
      ring

theorem digitsValue_zeros (count : Nat) : digitsValue (List.replicate count '0') = 0 := by
  induction count with
  | zero => rfl
  | succ count ih =>
      rw [List.replicate_succ', digitsValue_append, ih]
      rfl

theorem digitChar_digitValue (character : Char) (digit : character.isDigit = true) :
    digitValue character < 10 ∧ digitChar (digitValue character) = character := by
  have bounds : 48 ≤ character.toNat ∧ character.toNat ≤ 57 := by
    simpa [Char.isDigit, UInt32.le_iff_toNat_le] using digit
  have zero : '0'.toNat = 48 := rfl
  rw [digitChar, digitValue, zero]
  refine ⟨by omega, ?_⟩
  rw [Nat.add_sub_cancel' bounds.1, Char.ofNat_toNat]

theorem eq_zero_of_digitsValue (digits : List Char)
    (numeric : ∀ digit ∈ digits, digit.isDigit = true) (zero : digitsValue digits = 0) :
    ∀ digit ∈ digits, digit = '0' := by
  induction digits using List.reverseRecOn with
  | nil => simp
  | append_singleton front last ih =>
      rw [digitsValue_append] at zero
      have lastZero : last = '0' := by
        have back := (digitChar_digitValue last (numeric last (by simp))).2
        rw [show digitValue last = 0 by omega] at back
        exact back.symm
      have frontZero := ih (fun digit member => numeric digit (by simp [member])) (by omega)
      intro digit member
      rcases List.mem_append.mp member with earlier | isLast
      · exact frontZero digit earlier
      · rw [List.mem_singleton.mp isLast, lastZero]

theorem decimalDigits_digitsValue (digits : List Char)
    (numeric : ∀ digit ∈ digits, digit.isDigit = true) (positive : 0 < digitsValue digits) :
    decimalDigits (digitsValue digits) = digits.dropWhile (· == '0') := by
  induction digits using List.reverseRecOn with
  | nil => simp [digitsValue] at positive
  | append_singleton front last ih =>
      have frontNumeric : ∀ digit ∈ front, digit.isDigit = true :=
        fun digit member => numeric digit (by simp [member])
      obtain ⟨small, back⟩ := digitChar_digitValue last (numeric last (by simp))
      rw [digitsValue_append] at positive ⊢
      by_cases zero : digitsValue front = 0
      · have zeros := eq_zero_of_digitsValue front frontNumeric zero
        have lastVisible : last ≠ '0' := by
          rintro rfl
          simp [zero, digitValue] at positive
        rw [zero, Nat.zero_mul, Nat.zero_add, decimalDigits, if_pos small, back,
          List.dropWhile_append_of_pos (by simpa using zeros)]
        simp [lastVisible]
      · have earlier := ih frontNumeric (Nat.pos_of_ne_zero zero)
        have stops : (front.dropWhile (· == '0')).isEmpty = false := by
          rw [← earlier]
          simpa using decimalDigits_ne_nil (digitsValue front)
        have quotient : (digitsValue front * 10 + digitValue last) / 10 = digitsValue front := by omega
        have remainder : (digitsValue front * 10 + digitValue last) % 10 = digitValue last := by omega
        rw [decimalDigits, if_neg (by omega), quotient, remainder, back, earlier, List.dropWhile_append,
          stops]
        rfl

theorem dropTrailingZeros_split (digits : List Char) :
    ∃ count, digits = dropTrailingZeros digits ++ List.replicate count '0' := by
  have split := List.takeWhile_append_dropWhile (p := (· == '0')) (l := digits.reverse)
  have zeros : digits.reverse.takeWhile (· == '0') =
      List.replicate (digits.reverse.takeWhile (· == '0')).length '0' := by
    rw [List.eq_replicate_iff]
    refine ⟨rfl, ?_⟩
    intro character member
    simpa using List.mem_takeWhile_imp member
  refine ⟨(digits.reverse.takeWhile (· == '0')).length, ?_⟩
  have reversed := congrArg List.reverse split
  rw [List.reverse_append, zeros] at reversed
  simpa [dropTrailingZeros] using reversed.symm

theorem mem_of_mem_dropTrailingZeros (digits : List Char) (character : Char)
    (member : character ∈ dropTrailingZeros digits) : character ∈ digits := by
  obtain ⟨count, split⟩ := dropTrailingZeros_split digits
  rw [split]
  exact List.mem_append_left _ member

end PostfixSheet
