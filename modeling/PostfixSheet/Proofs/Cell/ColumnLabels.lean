import PostfixSheet.Proofs.Cell.AddressText

/-! Column labels as numerals. Reading accepts exactly the words of letters whose value is a column number, and
writing that number gives the word back in upper case. Labels grow with their numbers: a shorter one is smaller,
and labels of one length are in alphabetical order. -/

namespace PostfixSheet

theorem toUpper_bounds (letter : Char) (alphabetic : letter.isAlpha = true) :
    'A'.toNat ≤ letter.toUpper.toNat ∧ letter.toUpper.toNat ≤ 'Z'.toNat := by
  have small : letter.toNat < 123 := by
    simp [Char.isAlpha, Char.isUpper, Char.isLower, UInt32.le_iff_toNat_le] at alphabetic
    omega
  have all : ∀ code < 123, (Char.ofNat code).isAlpha = true →
      'A'.toNat ≤ (Char.ofNat code).toUpper.toNat ∧ (Char.ofNat code).toUpper.toNat ≤ 'Z'.toNat := by
    decide
  have bounds := all letter.toNat small
  rw [Char.ofNat_toNat] at bounds
  exact bounds alphabetic

theorem columnLetter_letterValue (letter : Char) (alphabetic : letter.isAlpha = true) :
    ∃ digit < 26, letterValue letter = digit + 1 ∧ columnLetter digit = letter.toUpper := by
  have bounds := toUpper_bounds letter alphabetic
  refine ⟨letter.toUpper.toNat - 'A'.toNat, ?_, rfl, ?_⟩
  · have span : 'Z'.toNat - 'A'.toNat < 26 := by decide
    omega
  · rw [columnLetter, Nat.add_sub_cancel' bounds.1, Char.ofNat_toNat]

section Reading

theorem le_foldl_letterValue (number : Nat) (letters : List Char) :
    number ≤ letters.foldl (fun value letter => value * 26 + letterValue letter) number := by
  induction letters generalizing number with
  | nil => exact Nat.le_refl number
  | cons letter rest ih =>
      have later := ih (number * 26 + letterValue letter)
      rw [List.foldl_cons]
      omega

theorem readColumnFrom_eq_ok (number : Nat) (letters : List Char) (final : Nat)
    (bound : number ≤ maxIndex) :
    readColumnFrom number letters = .ok final ↔
      (∀ letter ∈ letters, letter.isAlpha = true) ∧
        letters.foldl (fun value letter => value * 26 + letterValue letter) number = final ∧
        final ≤ maxIndex := by
  induction letters generalizing number with
  | nil =>
      simp only [readColumnFrom, Except.ok.injEq, List.not_mem_nil, List.foldl_nil]
      constructor
      · rintro rfl
        exact ⟨by simp, rfl, bound⟩
      · exact fun ⟨_, same, _⟩ => same
  | cons letter rest ih =>
      rw [readColumnFrom, List.forall_mem_cons, List.foldl_cons]
      by_cases alphabetic : letter.isAlpha = true
      · by_cases fits : number * 26 + letterValue letter ≤ maxIndex
        · simp only [alphabetic, if_true, fits, ih _ fits, true_and]
        · have grows := le_foldl_letterValue (number * 26 + letterValue letter) rest
          simp only [alphabetic, if_true, fits, if_false, reduceCtorEq, false_iff]
          rintro ⟨_, same, small⟩
          omega
      · simp [alphabetic]

theorem readColumn_eq_ok (letters : List Char) (number : Nat) :
    readColumn letters = .ok number ↔
      letters ≠ [] ∧ (∀ letter ∈ letters, letter.isAlpha = true) ∧ lettersValue letters = number ∧
        number ≤ maxIndex := by
  cases letters with
  | nil => simp [readColumn]
  | cons letter rest =>
      simp only [readColumn, readColumnFrom_eq_ok 0 (letter :: rest) number (Nat.zero_le _), ne_eq,
        reduceCtorEq, not_false_eq_true, true_and, lettersValue]

theorem lettersValue_pos (letters : List Char) (nonempty : letters ≠ []) : 0 < lettersValue letters := by
  obtain ⟨front, last, rfl⟩ := (List.eq_nil_or_concat' letters).resolve_left nonempty
  rw [lettersValue_append, letterValue]
  omega

theorem indexOfLabel_eq_ok (letters : String) (index : UInt32) :
    indexOfLabel letters = .ok index ↔
      letters ≠ "" ∧ (∀ letter ∈ letters.toList, letter.isAlpha = true) ∧
        lettersValue letters.toList = index.toNat + 1 ∧ index.toNat + 1 ≤ maxIndex := by
  have characters : letters.toList ≠ [] ↔ letters ≠ "" := by simp
  have read := readColumn_eq_ok letters.toList (index.toNat + 1)
  rw [characters] at read
  rw [indexOfLabel, ← read]
  cases result : readColumn letters.toList with
  | error cause => simp
  | ok number =>
      obtain ⟨nonempty, _, value, bound⟩ := (readColumn_eq_ok _ number).mp result
      have positive := lettersValue_pos letters.toList nonempty
      have word := toNat_ofNat_of_le_maxIndex (number - 1) (by omega)
      rw [Except.ok.injEq, Except.ok.injEq, ← UInt32.toNat_inj, word]
      omega

theorem columnLetters_lettersValue (letters : List Char)
    (alphabetic : ∀ letter ∈ letters, letter.isAlpha = true) :
    columnLetters (lettersValue letters) = letters.map Char.toUpper := by
  induction letters using List.reverseRecOn with
  | nil => simp [lettersValue, columnLetters]
  | append_singleton front last ih =>
      obtain ⟨digit, bound, value, upper⟩ := columnLetter_letterValue last (alphabetic last (by simp))
      have earlier := ih fun letter member => alphabetic letter (by simp [member])
      have quotient : (lettersValue front * 26 + digit) / 26 = lettersValue front := by omega
      have remainder : (lettersValue front * 26 + digit) % 26 = digit := by omega
      rw [lettersValue_append, value, ← Nat.add_assoc, columnLetters, quotient, remainder, earlier, upper]
      simp

theorem labelOfNumber_indexOfLabel (letters : String) (index : UInt32)
    (read : indexOfLabel letters = .ok index) : labelOfNumber (index.toNat + 1) = letters.toUpper := by
  obtain ⟨_, alphabetic, value, _⟩ := (indexOfLabel_eq_ok letters index).mp read
  rw [labelOfNumber, ← value, columnLetters_lettersValue _ alphabetic, ← String.toList_inj,
    String.toList_ofList, String.toUpper, String.toList_map]

theorem indexOfLabel_labelOfNumber (number : Nat) (positive : 1 ≤ number) (bound : number ≤ maxIndex) :
    indexOfLabel (labelOfNumber number) = .ok (UInt32.ofNat (number - 1)) := by
  have word := toNat_ofNat_of_le_maxIndex (number - 1) (by omega)
  have value := lettersValue_columnLetters number
  rw [indexOfLabel_eq_ok, word, labelOfNumber, String.toList_ofList, value]
  refine ⟨?_, isAlpha_of_mem_columnLetters number, by omega, by omega⟩
  intro empty
  exact columnLetters_ne_nil number positive (by simpa using empty)

end Reading

section Order

theorem columnLetter_lt (first second : Nat) (less : first < second) (bound : second < 26) :
    columnLetter first < columnLetter second := by
  have all : ∀ second < 26, ∀ first < second, columnLetter first < columnLetter second := by decide
  exact all second bound first less

theorem lex_append_append (left right : List Char) (length : left.length = right.length)
    (less : List.Lex (· < ·) left right) (behindLeft behindRight : List Char) :
    List.Lex (· < ·) (left ++ behindLeft) (right ++ behindRight) := by
  induction less with
  | nil => simp at length
  | cons less ih => exact .cons (ih (by simpa using length))
  | rel smaller => exact .rel smaller

theorem shortlex_concat (left right : List Char) (less : List.Shortlex (· < ·) left right)
    (lastLeft lastRight : Char) :
    List.Shortlex (· < ·) (left ++ [lastLeft]) (right ++ [lastRight]) := by
  rcases List.shortlex_def.mp less with shorter | ⟨length, earlier⟩
  · exact .of_length_lt (by simpa using shorter)
  · exact .of_lex (by simpa using length) (lex_append_append left right length earlier _ _)

theorem columnLetters_shortlex (first second : Nat) (less : first < second) :
    List.Shortlex (· < ·) (columnLetters first) (columnLetters second) := by
  induction second using columnLetters.induct generalizing first with
  | case1 => omega
  | case2 second ih =>
      cases first with
      | zero => exact .of_length_lt (by simp [columnLetters])
      | succ first =>
          rw [columnLetters, columnLetters]
          by_cases carried : first / 26 < second / 26
          · exact shortlex_concat _ _ (ih (first / 26) carried) _ _
          · have sameFront : first / 26 = second / 26 := by omega
            have last := columnLetter_lt (first % 26) (second % 26) (by omega) (Nat.mod_lt _ (by decide))
            rw [sameFront]
            exact List.Shortlex.append_left ((List.shortlex_singleton_iff _ _).mpr last) _

theorem lt_iff_label_lt (first second : Nat) :
    first < second ↔ (labelOfNumber first).length < (labelOfNumber second).length ∨
      (labelOfNumber first).length = (labelOfNumber second).length ∧
        labelOfNumber first < labelOfNumber second := by
  have order : first < second ↔ List.Shortlex (· < ·) (columnLetters first) (columnLetters second) := by
    refine ⟨columnLetters_shortlex first second, fun less => ?_⟩
    rcases Nat.lt_trichotomy first second with smaller | rfl | larger
    · exact smaller
    · exact absurd less (irrefl _)
    · exact absurd (columnLetters_shortlex second first larger) (asymm less)
  rw [order, List.shortlex_def, labelOfNumber, labelOfNumber, String.lt_iff_toList_lt]
  simp

end Order

end PostfixSheet
