import Mathlib
import PostfixSheet.Cell.Address
import PostfixSheet.Proofs.Number.Numerals

/-! The text of an address names it: the letters give back the column and the digits the row. Only the
last column has no name of its own. -/

namespace PostfixSheet

def lettersValue (letters : List Char) : Nat :=
  letters.foldl (fun value letter => value * 26 + letterValue letter) 0

theorem toNat_ofNat_of_le_maxIndex (number : Nat) (bound : number ≤ maxIndex) :
    (UInt32.ofNat number).toNat = number := by
  simp only [maxIndex, UInt32.size] at bound
  simp only [UInt32.toNat_ofNat']
  omega

theorem letterValue_columnLetter (digit : Nat) (bound : digit < 26) :
    letterValue (columnLetter digit) = digit + 1 := by
  revert digit
  decide

theorem isAlpha_columnLetter (digit : Nat) (bound : digit < 26) :
    (columnLetter digit).isAlpha = true := by
  revert digit
  decide

theorem lettersValue_append (letters : List Char) (last : Char) :
    lettersValue (letters ++ [last]) = lettersValue letters * 26 + letterValue last := by
  simp [lettersValue]

theorem lettersValue_columnLetters (number : Nat) : lettersValue (columnLetters number) = number := by
  fun_induction columnLetters number with
  | case1 => rfl
  | case2 number ih =>
      rw [lettersValue_append, ih, letterValue_columnLetter _ (Nat.mod_lt _ (by decide))]
      omega

theorem columnLetters_ne_nil (number : Nat) (positive : 0 < number) : columnLetters number ≠ [] := by
  cases number with
  | zero => contradiction
  | succ number => simp [columnLetters]

theorem isAlpha_of_mem_columnLetters (number : Nat) :
    ∀ letter ∈ columnLetters number, letter.isAlpha = true := by
  fun_induction columnLetters number with
  | case1 => simp
  | case2 number ih =>
      intro letter member
      rcases List.mem_append.mp member with earlier | last
      · exact ih letter earlier
      · simp only [List.mem_singleton] at last
        rw [last]
        exact isAlpha_columnLetter _ (Nat.mod_lt _ (by decide))

theorem not_isAlpha_of_isDigit (character : Char) (digit : character.isDigit = true) :
    character.isAlpha = false := by
  have bounds : 48 ≤ character.toNat ∧ character.toNat ≤ 57 := by
    simpa [Char.isDigit, UInt32.le_iff_toNat_le] using digit
  have notUpper : character.isUpper = false := by
    simp [Char.isUpper, UInt32.le_iff_toNat_le]
    omega
  have notLower : character.isLower = false := by
    simp [Char.isLower, UInt32.le_iff_toNat_le]
    omega
  simp [Char.isAlpha, notUpper, notLower]

theorem span_isAlpha (letters digits : List Char)
    (alphabetic : ∀ letter ∈ letters, letter.isAlpha = true)
    (numeric : ∀ digit ∈ digits, digit.isDigit = true) :
    (letters ++ digits).takeWhile Char.isAlpha = letters ∧
      (letters ++ digits).dropWhile Char.isAlpha = digits := by
  apply span_append Char.isAlpha letters digits alphabetic
  intro first found
  exact not_isAlpha_of_isDigit first (numeric first (List.mem_of_head? found))

theorem Address.toList_text (address : Address) :
    address.text.toList =
      columnLetters (min (address.column.toNat + 1) maxIndex) ++
        decimalDigits (address.row.toNat + 1) := by
  simp [Address.text, labelOfIndex, labelOfNumber]

theorem Address.eq_of_text_eq (left right : Address) (same : left.text = right.text) :
    left.row = right.row ∧
      min (left.column.toNat + 1) maxIndex = min (right.column.toNat + 1) maxIndex := by
  have lists : left.text.toList = right.text.toList := by rw [same]
  rw [left.toList_text, right.toList_text] at lists
  have letters := congrArg (List.takeWhile Char.isAlpha) lists
  rw [(span_isAlpha _ _ (isAlpha_of_mem_columnLetters _) (isDigit_of_mem_decimalDigits _)).1,
    (span_isAlpha _ _ (isAlpha_of_mem_columnLetters _) (isDigit_of_mem_decimalDigits _)).1] at letters
  have digits := (List.append_inj' lists (by
    have lengths := congrArg List.length lists
    rw [letters] at lengths
    simpa using lengths)).2
  constructor
  · have rows := congrArg digitsValue digits
    rw [digitsValue_decimalDigits, digitsValue_decimalDigits] at rows
    exact UInt32.toNat_inj.mp (by omega)
  · have columns := congrArg lettersValue letters
    rw [lettersValue_columnLetters, lettersValue_columnLetters] at columns
    exact columns

end PostfixSheet
