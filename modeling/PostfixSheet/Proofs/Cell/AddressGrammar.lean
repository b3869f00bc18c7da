import PostfixSheet.Proofs.Cell.ColumnLabels

/-! Reading addresses. The texts that are read are a word of letters with a run of digits behind it, and the
address that is read is written with the same word in upper case and the same number. Addresses are read back
from their own texts up to the last row and the last column. -/

namespace PostfixSheet

namespace Address

/-- Letters and digits that stand for the column and the row of an address. -/
structure WrittenAs (address : Address) (letters digits : List Char) : Prop where
  named : letters ≠ []
  alphabetic : ∀ letter ∈ letters, letter.isAlpha = true
  column : lettersValue letters = address.column.toNat + 1
  columnBound : address.column.toNat + 1 ≤ maxIndex
  numbered : digits ≠ []
  numeric : ∀ digit ∈ digits, digit.isDigit = true
  row : digitsValue digits = address.row.toNat + 1
  rowBound : address.row.toNat + 1 ≤ maxIndex

theorem readRow_eq_ok (text : String) (digits : List Char) (row : UInt32) :
    readRow text digits = .ok row ↔
      digits ≠ [] ∧ (∀ digit ∈ digits, digit.isDigit = true) ∧
        digitsValue digits = row.toNat + 1 ∧ row.toNat + 1 ≤ maxIndex := by
  rw [readRow]
  by_cases empty : digits = []
  · simp [empty]
  · by_cases numeric : digits.all Char.isDigit = true
    · have digitByDigit := List.all_eq_true.mp numeric
      simp only [List.isEmpty_iff, empty, if_false, numeric, Bool.not_true, Bool.false_eq_true]
      by_cases large : maxIndex < digitsValue digits
      · rw [if_pos large]
        simp only [reduceCtorEq, false_iff]
        rintro ⟨_, _, value, bound⟩
        omega
      · by_cases zero : digitsValue digits = 0
        · rw [if_neg large, if_pos zero]
          simp only [reduceCtorEq, false_iff]
          rintro ⟨_, _, value, _⟩
          omega
        · have word := toNat_ofNat_of_le_maxIndex (digitsValue digits - 1) (by omega)
          rw [if_neg large, if_neg zero, Except.ok.injEq, ← UInt32.toNat_inj, word]
          constructor
          · intro same
            exact ⟨empty, digitByDigit, by omega, by omega⟩
          · rintro ⟨_, _, value, _⟩
            omega
    · have foreign : ¬∀ digit ∈ digits, digit.isDigit = true := by
        rwa [← List.all_eq_true]
      simp [empty, numeric, foreign]

theorem parse_split (text : String) (letters digits : List Char) (named : letters ≠ [])
    (taken : text.toList.takeWhile Char.isAlpha = letters)
    (left : text.toList.dropWhile Char.isAlpha = digits) :
    parse text =
      match indexOfLabel (String.ofList letters) with
      | .error error => .error error
      | .ok column =>
          match readRow text digits with
          | .error error => .error error
          | .ok row => .ok ⟨row, column⟩ := by
  have nonempty : text ≠ "" := by
    rintro rfl
    exact named taken.symm
  cases labelled : indexOfLabel (String.ofList letters) with
  | error error => simp [parse, taken, nonempty, named, labelled]
  | ok column =>
      cases numbered : readRow text digits <;>
        simp [parse, taken, left, nonempty, named, labelled, numbered]

theorem parse_unnamed (text : String) (unnamed : text.toList.takeWhile Char.isAlpha = []) (address : Address) :
    parse text ≠ .ok address := by
  rw [parse, unnamed]
  split <;> simp

theorem parse_eq_ok (text : String) (address : Address) :
    parse text = .ok address ↔
      address.WrittenAs (text.toList.takeWhile Char.isAlpha) (text.toList.dropWhile Char.isAlpha) := by
  generalize taken : text.toList.takeWhile Char.isAlpha = letters
  generalize left : text.toList.dropWhile Char.isAlpha = digits
  by_cases named : letters = []
  · subst named
    constructor
    · intro read
      exact absurd read (parse_unnamed text taken address)
    · intro written
      exact absurd rfl written.named
  · have labelled := indexOfLabel_eq_ok (String.ofList letters)
    have numbered := readRow_eq_ok text digits
    rw [parse_split text letters digits named taken left]
    constructor
    · intro read
      split at read
      · contradiction
      · rename_i column labelRead
        split at read
        · contradiction
        · rename_i row rowRead
          obtain rfl := Except.ok.inj read
          obtain ⟨_, alphabetic, value, bound⟩ := (labelled column).mp labelRead
          obtain ⟨present, numeric, number, rowBound⟩ := (numbered row).mp rowRead
          rw [String.toList_ofList] at alphabetic value
          exact ⟨named, alphabetic, value, bound, present, numeric, number, rowBound⟩
    · intro written
      have labelRead := (labelled address.column).mpr ⟨by simpa using named,
        by simpa using written.alphabetic, by simpa using written.column, written.columnBound⟩
      have rowRead := (numbered address.row).mpr
        ⟨written.numbered, written.numeric, written.row, written.rowBound⟩
      rw [labelRead, rowRead]

theorem parse_eq_ok_iff (text : String) (address : Address) :
    parse text = .ok address ↔
      ∃ letters digits, text.toList = letters ++ digits ∧ address.WrittenAs letters digits := by
  rw [parse_eq_ok]
  constructor
  · intro written
    exact ⟨_, _, List.takeWhile_append_dropWhile.symm, written⟩
  · rintro ⟨letters, digits, split, written⟩
    obtain ⟨taken, left⟩ := span_isAlpha letters digits written.alphabetic written.numeric
    rwa [split, taken, left]

theorem text_of_writtenAs (address : Address) (letters digits : List Char)
    (written : address.WrittenAs letters digits) :
    address.text = String.ofList (letters.map Char.toUpper ++ digits.dropWhile (· == '0')) := by
  have positive : 0 < digitsValue digits := by
    rw [written.row]
    exact Nat.succ_pos _
  rw [← String.toList_inj, address.toList_text, String.toList_ofList, Nat.min_eq_left written.columnBound,
    ← written.column, columnLetters_lettersValue letters written.alphabetic, ← written.row,
    decimalDigits_digitsValue digits written.numeric positive]

theorem parse_text (address : Address) :
    parse address.text =
      if address.row.toNat < maxIndex then
        .ok ⟨address.row, UInt32.ofNat (min (address.column.toNat + 1) maxIndex - 1)⟩
      else .error (.badRow address.text) := by
  have alphabetic := isAlpha_of_mem_columnLetters (min (address.column.toNat + 1) maxIndex)
  have numeric := isDigit_of_mem_decimalDigits (address.row.toNat + 1)
  have positive : 1 ≤ min (address.column.toNat + 1) maxIndex := by simp [maxIndex]
  have named := columnLetters_ne_nil _ positive
  have label := indexOfLabel_labelOfNumber _ positive (Nat.min_le_right _ _)
  obtain ⟨taken, left⟩ := span_isAlpha _ _ alphabetic numeric
  rw [← address.toList_text] at taken left
  rw [labelOfNumber] at label
  rw [parse_split address.text _ _ named taken left, label]
  by_cases inside : address.row.toNat < maxIndex
  · have read := (readRow_eq_ok address.text (decimalDigits (address.row.toNat + 1)) address.row).mpr
      ⟨decimalDigits_ne_nil _, numeric, digitsValue_decimalDigits _, inside⟩
    rw [read, if_pos inside]
  · have large : maxIndex < address.row.toNat + 1 := by omega
    have present : (decimalDigits (address.row.toNat + 1)).isEmpty = false := by
      simpa using decimalDigits_ne_nil (address.row.toNat + 1)
    have refused : readRow address.text (decimalDigits (address.row.toNat + 1)) =
        .error (.badRow address.text) := by
      simp [readRow, present, List.all_eq_true.mpr numeric, digitsValue_decimalDigits, large]
    rw [refused, if_neg inside]

/-- A text is read exactly when it is letters that name a column with digits behind them that number a row, and the
address read is written with these letters in upper case and these digits without the zeros in front. An address
is read back from its text below the last row and the last column; the text of the last column is read as the column
before it, and that of the last row is not read at all. -/
theorem parse_grammar :
    (∀ (text : String) (address : Address), parse text = .ok address ↔
      ∃ letters digits, text.toList = letters ++ digits ∧ address.WrittenAs letters digits) ∧
    (∀ (address : Address) (letters digits : List Char), address.WrittenAs letters digits →
      address.text = String.ofList (letters.map Char.toUpper ++ digits.dropWhile (· == '0'))) ∧
    (∀ address : Address, parse address.text = .ok address ↔
      address.row.toNat < maxIndex ∧ address.column.toNat < maxIndex) ∧
    (∀ address : Address, address.row.toNat = maxIndex →
      parse address.text = .error (.badRow address.text)) ∧
    ∀ address : Address, address.row.toNat < maxIndex → address.column.toNat = maxIndex →
      parse address.text = .ok ⟨address.row, UInt32.ofNat (maxIndex - 1)⟩ := by
  refine ⟨parse_eq_ok_iff, text_of_writtenAs, ?_, ?_, ?_⟩
  · rintro ⟨row, column⟩
    rw [parse_text]
    by_cases inside : row.toNat < maxIndex
    · have word := toNat_ofNat_of_le_maxIndex (min (column.toNat + 1) maxIndex - 1) (by omega)
      have bound : column.toNat < maxIndex + 1 := column.toNat_lt
      rw [if_pos inside, Except.ok.injEq, mk.injEq, ← UInt32.toNat_inj (b := column), word]
      simp only [inside, true_and]
      omega
    · simp [inside]
  · intro address last
    rw [parse_text, if_neg (by omega)]
  · intro address inside last
    rw [parse_text, if_pos inside, last, Nat.min_eq_right (Nat.le_succ _)]

theorem parse_grammar_corners :
    parse "aB0012" = .ok ⟨11, 27⟩ ∧ (⟨11, 27⟩ : Address).text = "AB12" ∧
      parse (⟨4294967294, 4294967294⟩ : Address).text = .ok ⟨4294967294, 4294967294⟩ ∧
      parse (⟨4294967295, 0⟩ : Address).text = .error (.badRow "A4294967296") ∧
      parse (⟨0, 4294967295⟩ : Address).text = .ok ⟨0, 4294967294⟩ := by
  obtain ⟨readable, written, readBack, lastRow, lastColumn⟩ := parse_grammar
  have small : (⟨11, 27⟩ : Address).WrittenAs ['a', 'B'] ['0', '0', '1', '2'] :=
    ⟨by decide, List.all_eq_true.mp (by decide), by decide, by decide, by decide,
      List.all_eq_true.mp (by decide), by decide, by decide⟩
  have rowText : (⟨4294967295, 0⟩ : Address).text = "A4294967296" := by decide +kernel
  have refused := lastRow ⟨4294967295, 0⟩ rfl
  rw [rowText] at refused
  refine ⟨(readable _ _).mpr ⟨_, _, rfl, small⟩, (written _ _ _ small).trans (by decide), ?_, ?_, ?_⟩
  · exact (readBack _).mpr ⟨by decide, by decide⟩
  · rw [rowText]
    exact refused
  · exact lastColumn ⟨0, 4294967295⟩ (by decide) rfl

end Address

end PostfixSheet
