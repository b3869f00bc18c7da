import PostfixSheet.Proofs.Cell.AddressText
import PostfixSheet.Proofs.Formula.WordTokens
import PostfixSheet.Formula.Parsing

/-! Addresses as names. The text of an address is a plain name in every formula, also where its letters spell
a number, and names one cell. -/

namespace PostfixSheet

theorem readDecimal?_letter (first : Char) (rest : List Char) (letter : first.isAlpha = true) :
    readDecimal? (first :: rest) = none := by
  have noDigit : first.isDigit = false := by
    cases isDigit : first.isDigit with
    | false => rfl
    | true =>
        rw [not_isAlpha_of_isDigit first isDigit] at letter
        contradiction
  have noPoint : first ≠ '.' := by
    intro same
    simp [same] at letter
  simp [readDecimal?, noDigit, noPoint]

theorem readNumberChars?_letter (first digit : Char) (rest : List Char) (letter : first.isAlpha = true)
    (member : digit ∈ rest) (numeric : digit.isDigit = true) :
    readNumberChars? (first :: rest) = none := by
  have unsigned := splitSign_isAlphanum first rest (by simp [Char.isAlphanum, letter])
  have noWord := readMagnitude?_digit (first :: rest) digit (List.mem_cons_of_mem first member) numeric
  simp only [readNumberChars?, unsigned, noWord, readDecimal?_letter first rest letter, Option.map_none]

namespace Address

theorem isAlphanum_text (address : Address) :
    ∀ character ∈ address.text.toList, character.isAlphanum = true := by
  intro character member
  rw [address.toList_text] at member
  rcases List.mem_append.mp member with letter | digit
  · simp [Char.isAlphanum, isAlpha_of_mem_columnLetters _ character letter]
  · simp [Char.isAlphanum, isDigit_of_mem_decimalDigits _ character digit]

theorem text_begins (address : Address) :
    ∃ first rest digit, address.text.toList = first :: rest ∧ first.isAlpha = true ∧
      digit ∈ rest ∧ digit.isDigit = true := by
  obtain ⟨first, letters, split⟩ := List.exists_cons_of_ne_nil
    (columnLetters_ne_nil (min (address.column.toNat + 1) maxIndex) (by simp [maxIndex]))
  obtain ⟨digit, digits, numeral⟩ := List.exists_cons_of_ne_nil
    (decimalDigits_ne_nil (address.row.toNat + 1))
  refine ⟨first, letters ++ digit :: digits, digit, ?_, ?_, by simp, ?_⟩
  · rw [address.toList_text, split, numeral, List.cons_append]
  · exact isAlpha_of_mem_columnLetters _ first (by rw [split]; simp)
  · exact isDigit_of_mem_decimalDigits _ digit (by rw [numeral]; simp)

theorem plainName_text (address : Address) : PlainName address.text := by
  obtain ⟨first, rest, digit, text, letter, member, numeric⟩ := address.text_begins
  have inside := address.isAlphanum_text
  constructor
  · intro empty
    simp [empty] at text
  · exact fun character belongs => isBlank_of_isAlphanum character (inside character belongs)
  · rw [readNumber?, text]
    exact readNumberChars?_letter first digit rest letter member numeric
  · intro operator same
    have symbol := inside
    rw [← same] at symbol
    cases operator <;> simp [Operator.symbol] at symbol
  · intro call
    have parenthesis := inside ')' (call.subset (by simp))
    simp at parenthesis

theorem text_inj (left right : Address) (leftInside : left.column.toNat < maxIndex)
    (rightInside : right.column.toNat < maxIndex) (same : left.text = right.text) : left = right := by
  obtain ⟨rows, columns⟩ := left.eq_of_text_eq right same
  have column : left.column = right.column := UInt32.toNat_inj.mp (by omega)
  cases left
  cases right
  rw [mk.injEq]
  exact ⟨rows, column⟩

/-- Every address is one name in a formula, so that it parses to a reference whatever functions there are, and
below the last column no two addresses have the same name. -/
theorem addressable :
    (∀ address : Address, formulaTokens address.text = [.name address.text] ∧
      ∀ functions, parseFormula functions address.text = .ok (.reference address.text)) ∧
    ∀ left right : Address, left.column.toNat < maxIndex → right.column.toNat < maxIndex →
      left.text = right.text → left = right := by
  refine ⟨fun address => ?_, text_inj⟩
  have token := formulaTokens_name address.text address.plainName_text
  refine ⟨token, fun functions => ?_⟩
  rw [parseFormula, token]
  rfl

theorem addressable_wordColumns :
    let first : Address := ⟨0, 6453⟩
    let second : Address := ⟨0, UInt32.ofNat (lettersValue ['I', 'N', 'F'] - 1)⟩
    first.text = "INF1" ∧ second.text = "INF1" ∧ first = second ∧
      formulaTokens "INF1" = [.name "INF1"] ∧ (⟨0, 9503⟩ : Address).text = "NAN1" ∧
      parseFormula .empty "NAN1" = .ok (.reference "NAN1") := by
  intro first second
  have firstText : first.text = "INF1" := by decide +kernel
  have secondText : second.text = "INF1" := by decide +kernel
  have thirdText : (⟨0, 9503⟩ : Address).text = "NAN1" := by decide +kernel
  have same := addressable.2 first second (by decide) (by decide) (firstText.trans secondText.symm)
  have token := (addressable.1 first).1
  have parsed := (addressable.1 ⟨0, 9503⟩).2 .empty
  rw [firstText] at token
  rw [thirdText] at parsed
  exact ⟨firstText, secondText, same, token, thirdText, parsed⟩

end Address

end PostfixSheet
