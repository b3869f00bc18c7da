import PostfixSheet.Number.Reading
import PostfixSheet.Proofs.Number.Bits
import PostfixSheet.Proofs.Number.Numerals
import PostfixSheet.Proofs.Number.Rounding

/-! The text of a number reads back as the number, bit for bit, and no blank is in it. -/

namespace PostfixSheet

section Reading

variable {digits : List Char} (numeric : ∀ digit ∈ digits, digit.isDigit = true)

include numeric

theorem readDecimal?_pointed (nonempty : digits ≠ []) (fraction ending : List Char)
    (fractionNumeric : ∀ digit ∈ fraction, digit.isDigit = true)
    (stop : ∀ first, ending.head? = some first → first.isDigit = false) :
    readDecimal? (digits ++ '.' :: (fraction ++ ending)) =
      (readExponent? ending).map fun exponent =>
        ⟨digitsValue (digits ++ fraction), exponent - fraction.length⟩ := by
  obtain ⟨taken, dropped⟩ := span_append Char.isDigit digits ('.' :: (fraction ++ ending)) numeric
    (by simp)
  obtain ⟨fractionTaken, fractionDropped⟩ := span_append Char.isDigit fraction ending fractionNumeric stop
  simp [readDecimal?, taken, dropped, fractionTaken, fractionDropped, nonempty]

theorem readDecimal?_whole (nonempty : digits ≠ []) (first : Char) (ending : List Char)
    (stop : first.isDigit = false) (noPoint : first ≠ '.') :
    readDecimal? (digits ++ first :: ending) =
      (readExponent? (first :: ending)).map fun exponent => ⟨digitsValue digits, exponent⟩ := by
  obtain ⟨taken, dropped⟩ := span_append Char.isDigit digits (first :: ending) numeric
    (by simpa using stop)
  simp [readDecimal?, taken, dropped, nonempty, noPoint]

end Reading

theorem splitSign_isAlphanum (first : Char) (rest : List Char) (inside : first.isAlphanum = true) :
    splitSign (first :: rest) = (false, first :: rest) := by
  have notMinus : first ≠ '-' := by
    intro same
    simp [same] at inside
  have notPlus : first ≠ '+' := by
    intro same
    simp [same] at inside
  simp [splitSign, notMinus, notPlus]

theorem readExponent?_integerText (number : Int) :
    readExponent? ('e' :: integerText number) = some number := by
  have numeric := isDigit_of_mem_decimalDigits number.natAbs
  have nonempty := decimalDigits_ne_nil number.natAbs
  have value := digitsValue_decimalDigits number.natAbs
  have all : (decimalDigits number.natAbs).all Char.isDigit = true := List.all_eq_true.mpr numeric
  by_cases negative : number < 0
  · have split : splitSign ('-' :: decimalDigits number.natAbs) =
        (true, decimalDigits number.natAbs) := rfl
    simp [readExponent?, integerText, negative, split, nonempty, all, value, -Nat.cast_natAbs]
    omega
  · have split : splitSign (decimalDigits number.natAbs) = (false, decimalDigits number.natAbs) := by
      obtain ⟨first, rest, same⟩ := List.exists_cons_of_ne_nil nonempty
      rw [same]
      exact splitSign_isAlphanum first rest (by simp [Char.isAlphanum, numeric first, same])
    simp [readExponent?, integerText, negative, split, nonempty, all, value, -Nat.cast_natAbs]
    omega

theorem Decimal.rank_shift (digits count : Nat) (exponent : Int) :
    (⟨digits * 10 ^ count, exponent⟩ : Decimal).rank = (⟨digits, exponent + count⟩ : Decimal).rank := by
  apply rank_congr
  simp only [numerator, denominator, Nat.pow_eq, Nat.mul_assoc, ← Nat.pow_add]
  congr 2
  omega

section Layout

variable {digits : List Char} (numeric : ∀ digit ∈ digits, digit.isDigit = true)

include numeric

theorem readDecimal?_fraction (nonempty : digits ≠ []) (fraction : List Char)
    (fractionNumeric : ∀ digit ∈ fraction, digit.isDigit = true) :
    readDecimal? (digits ++ '.' :: fraction) =
      some ⟨digitsValue (digits ++ fraction), -(fraction.length : Int)⟩ := by
  have read := readDecimal?_pointed numeric nonempty fraction [] fractionNumeric (by simp)
  rw [List.append_nil] at read
  simp [read, readExponent?]

theorem zeros_append_numeric (count : Nat) :
    ∀ digit ∈ List.replicate count '0' ++ digits, digit.isDigit = true := by
  intro digit member
  rcases List.mem_append.mp member with zero | later
  · rw [List.eq_of_mem_replicate zero]
    decide
  · exact numeric digit later

theorem readDecimal?_positionalText (nonempty : digits ≠ []) (point : Int) :
    (readDecimal? (positionalText cellStyle digits point)).map Decimal.rank =
      some (⟨digitsValue digits, point - digits.length⟩ : Decimal).rank := by
  simp only [positionalText]
  split
  · rename_i small
    have zero : ∀ digit ∈ ['0'], digit.isDigit = true := by simp
    have read := readDecimal?_fraction zero (by simp) (List.replicate (-point).toNat '0' ++ digits)
      (zeros_append_numeric numeric _)
    have value : digitsValue (['0'] ++ (List.replicate (-point).toNat '0' ++ digits)) =
        digitsValue digits := by
      rw [digitsValue_concat, digitsValue_concat, digitsValue_zeros]
      simp [digitsValue, digitValue]
    have exponent : -((List.replicate (-point).toNat '0' ++ digits).length : Int) =
        point - digits.length := by
      simp only [List.length_append, List.length_replicate]
      omega
    rw [value, exponent] at read
    change (readDecimal? (['0'] ++ '.' :: (List.replicate (-point).toNat '0' ++ digits))).map _ = _
    rw [read, Option.map_some]
  · split
    · rename_i positive inside
      have front : digits.take point.toNat ≠ [] := by
        simp [nonempty]
        omega
      have read := readDecimal?_fraction
        (fun digit member => numeric digit (List.mem_of_mem_take member)) front
        (digits.drop point.toNat) fun digit member => numeric digit (List.mem_of_mem_drop member)
      have exponent : -((digits.drop point.toNat).length : Int) = point - digits.length := by
        simp only [List.length_drop]
        omega
      rw [List.take_append_drop, exponent] at read
      rw [read, Option.map_some]
    · rename_i positive outside
      have wholeNumeric : ∀ digit ∈ digits ++ List.replicate (point.toNat - digits.length) '0',
          digit.isDigit = true := by
        intro digit member
        rcases List.mem_append.mp member with earlier | zero
        · exact numeric digit earlier
        · rw [List.eq_of_mem_replicate zero]
          decide
      have read := readDecimal?_fraction wholeNumeric (by simp [nonempty]) ['0'] (by simp)
      have value : digitsValue (digits ++ List.replicate (point.toNat - digits.length) '0' ++ ['0']) =
          digitsValue digits * 10 ^ (point.toNat - digits.length + 1) := by
        rw [List.append_assoc, ← List.replicate_succ', digitsValue_concat, digitsValue_zeros,
          List.length_replicate, Nat.add_zero]
      have exponent : -(1 : Int) + (point.toNat - digits.length + 1 : Nat) =
          point - digits.length := by omega
      rw [value] at read
      have shifted := Decimal.rank_shift (digitsValue digits) (point.toNat - digits.length + 1) (-1)
      rw [exponent] at shifted
      change (readDecimal? (digits ++ List.replicate (point.toNat - digits.length) '0' ++
        '.' :: ['0'])).map _ = _
      rw [read, Option.map_some, ← shifted]
      rfl

theorem readDecimal?_exponentText (nonempty : digits ≠ []) (point : Int) :
    readDecimal? (exponentText digits point) =
      some ⟨digitsValue digits, point - digits.length⟩ := by
  have exponent := readExponent?_integerText (point - 1)
  cases digits with
  | nil => exact (nonempty rfl).elim
  | cons first rest =>
      have firstNumeric : ∀ digit ∈ [first], digit.isDigit = true := by
        intro digit member
        exact numeric digit (by simp_all)
      cases rest with
      | nil =>
          have read := readDecimal?_whole firstNumeric (by simp) 'e' (integerText (point - 1))
            (by decide) (by decide)
          rw [exponent] at read
          simpa [exponentText] using read
      | cons second more =>
          have read := readDecimal?_pointed firstNumeric (by simp) (second :: more)
            ('e' :: integerText (point - 1)) (fun digit member => numeric digit (by simp_all))
            (by simp)
          have places : point - 1 - ((second :: more).length : Int) =
              point - ((first :: second :: more).length : Int) := by
            simp only [List.length_cons]
            omega
          rw [exponent, Option.map_some, places] at read
          simpa [exponentText] using read

end Layout

theorem rank_zero_digits (exponent : Int) : (⟨0, exponent⟩ : Decimal).rank = 0 := by
  simp [Decimal.rank]

theorem rank_dropTrailingZeros (decimal : Decimal) :
    (⟨digitsValue (dropTrailingZeros (decimalDigits decimal.digits)),
      decimal.point - (dropTrailingZeros (decimalDigits decimal.digits)).length⟩ : Decimal).rank =
        decimal.rank := by
  obtain ⟨count, split⟩ := dropTrailingZeros_split (decimalDigits decimal.digits)
  have value := digitsValue_decimalDigits decimal.digits
  have length := length_decimalDigits decimal.digits
  generalize dropTrailingZeros (decimalDigits decimal.digits) = kept at split ⊢
  rw [split, digitsValue_concat, digitsValue_zeros, List.length_replicate, Nat.add_zero] at value
  rw [split, List.length_append, List.length_replicate] at length
  have exponent : decimal.exponent + count = decimal.point - kept.length := by
    rw [Decimal.point]
    omega
  have shifted := Decimal.rank_shift (digitsValue kept) count decimal.exponent
  rw [value, exponent] at shifted
  exact shifted.symm

theorem dropTrailingZeros_ne_nil (decimal : Decimal) (visible : decimal.rank ≠ 0) :
    dropTrailingZeros (decimalDigits decimal.digits) ≠ [] := by
  intro empty
  have kept := rank_dropTrailingZeros decimal
  rw [empty, show digitsValue [] = 0 by rfl, rank_zero_digits] at kept
  exact visible kept.symm

def isNumberChar (character : Char) : Bool :=
  character.isDigit || ['-', '.', 'e', 'i', 'n', 'f', 'N', 'a'].contains character

structure DigitText (text : List Char) : Prop where
  begins : ∃ first rest, text = first :: rest ∧ first.isDigit = true
  characters : ∀ character ∈ text, isNumberChar character = true

theorem isNumberChar_of_isDigit {digits : List Char}
    (numeric : ∀ digit ∈ digits, digit.isDigit = true) :
    ∀ digit ∈ digits, isNumberChar digit = true := by
  intro digit member
  simp [isNumberChar, numeric digit member]

theorem isNumberChar_integerText (number : Int) :
    ∀ character ∈ integerText number, isNumberChar character = true := by
  have fine := isNumberChar_of_isDigit (isDigit_of_mem_decimalDigits number.natAbs)
  intro character member
  simp only [integerText] at member
  split at member
  · rcases List.mem_cons.mp member with rfl | later
    · decide
    · exact fine character later
  · exact fine character member

section Texts

variable {digits : List Char} (numeric : ∀ digit ∈ digits, digit.isDigit = true)
  (nonempty : digits ≠ []) (point : Int)

include numeric nonempty

theorem positionalText_digitText : DigitText (positionalText cellStyle digits point) := by
  have fine := isNumberChar_of_isDigit numeric
  obtain ⟨first, rest, rfl⟩ := List.exists_cons_of_ne_nil nonempty
  have begins := numeric first (by simp)
  simp only [positionalText]
  split
  · refine ⟨⟨'0', _, rfl, by decide⟩, ?_⟩
    intro character member
    simp only [List.mem_cons, List.mem_append, List.mem_replicate] at member
    rcases member with rfl | rfl | ⟨_, rfl⟩ | belongs
    · decide
    · decide
    · decide
    · exact fine character (by simpa using belongs)
  · split
    · rename_i positive inside
      obtain ⟨count, same⟩ : ∃ count, point.toNat = count + 1 := ⟨point.toNat - 1, by omega⟩
      rw [same]
      refine ⟨⟨first, _, rfl, begins⟩, ?_⟩
      intro character member
      rcases List.mem_append.mp member with front | behind
      · exact fine character (List.mem_of_mem_take front)
      · rcases List.mem_cons.mp behind with rfl | later
        · decide
        · exact fine character (List.mem_of_mem_drop later)
    · refine ⟨⟨first, _, rfl, begins⟩, ?_⟩
      intro character member
      simp only [cellStyle, List.mem_append, List.mem_replicate, List.mem_cons, List.not_mem_nil,
        or_false] at member
      rcases member with (belongs | ⟨_, rfl⟩) | rfl | rfl
      · exact fine character (by simpa using belongs)
      · decide
      · decide
      · decide

theorem exponentText_digitText : DigitText (exponentText digits point) := by
  have fine := isNumberChar_of_isDigit numeric
  obtain ⟨first, rest, rfl⟩ := List.exists_cons_of_ne_nil nonempty
  refine ⟨⟨first, _, rfl, numeric first (by simp)⟩, ?_⟩
  intro character member
  simp only [exponentText, List.append_assoc, List.mem_append] at member
  rcases member with front | fraction | exponent
  · exact fine character (List.mem_of_mem_take front)
  · split at fraction
    · simp at fraction
    · rcases List.mem_cons.mp fraction with rfl | later
      · decide
      · exact fine character (List.mem_of_mem_drop later)
  · rcases List.mem_cons.mp exponent with rfl | later
    · decide
    · exact isNumberChar_integerText (point - 1) character later

end Texts

theorem toLower_of_isDigit (character : Char) (digit : character.isDigit = true) :
    character.toLower = character := by
  simp only [Char.isDigit, Bool.and_eq_true, decide_eq_true_eq, UInt32.le_iff_toNat_le] at digit
  rw [Char.toLower, dif_neg]
  simp only [UInt32.le_iff_toNat_le]
  simp at digit ⊢
  omega

theorem readMagnitude?_digit (text : List Char) (digit : Char) (member : digit ∈ text)
    (numeric : digit.isDigit = true) :
    readMagnitude? text = (readDecimal? text).map Decimal.rank := by
  have kept : digit ∈ text.map Char.toLower :=
    List.mem_map.mpr ⟨digit, member, toLower_of_isDigit digit numeric⟩
  have noWord (word : List Char) (letters : ∀ letter ∈ word, letter.isDigit = false) :
      text.map Char.toLower ≠ word := by
    intro same
    rw [same] at kept
    rw [letters digit kept] at numeric
    contradiction
  have noInf := noWord "inf".toList (by simp)
  have noInfinity := noWord "infinity".toList (by simp)
  have noNan := noWord "nan".toList (by simp)
  simp only [readMagnitude?, infinityWords, List.contains_iff_mem, List.mem_cons, noInf, noInfinity,
    List.not_mem_nil, or_false, if_false, noNan]

section Magnitude

variable (rank : Nat)

theorem magnitudeText_finite (positive : rank ≠ 0) (finite : rank < infiniteRank) :
    DigitText (magnitudeText cellStyle rank) ∧
      (readDecimal? (magnitudeText cellStyle rank)).map Decimal.rank = some rank := by
  have found := rank_shortestDecimal rank finite
  have nonempty := dropTrailingZeros_ne_nil (shortestDecimal rank) (by rwa [found])
  have kept := rank_dropTrailingZeros (shortestDecimal rank)
  have numeric : ∀ digit ∈ dropTrailingZeros (decimalDigits (shortestDecimal rank).digits),
      digit.isDigit = true := by
    intro digit member
    exact isDigit_of_mem_decimalDigits _ digit (mem_of_mem_dropTrailingZeros _ digit member)
  rw [found] at kept
  simp only [magnitudeText, positive, Nat.ne_of_lt finite, if_false]
  split
  · refine ⟨positionalText_digitText numeric nonempty _, ?_⟩
    rw [readDecimal?_positionalText numeric nonempty, kept]
  · refine ⟨exponentText_digitText numeric nonempty _, ?_⟩
    rw [readDecimal?_exponentText numeric nonempty, Option.map_some, kept]

theorem magnitudeText_cases (bound : rank ≤ infiniteRank) :
    readMagnitude? (magnitudeText cellStyle rank) = some rank ∧
      (magnitudeText cellStyle rank = ['i', 'n', 'f'] ∨ DigitText (magnitudeText cellStyle rank)) := by
  by_cases zero : rank = 0
  · subst rank
    have text : magnitudeText cellStyle 0 = ['0', '.', '0'] := rfl
    rw [text]
    exact ⟨by decide, Or.inr ⟨⟨'0', ['.', '0'], rfl, by decide⟩, by simp [isNumberChar]⟩⟩
  · by_cases infinite : rank = infiniteRank
    · subst rank
      exact ⟨by decide, Or.inl rfl⟩
    · obtain ⟨shape, read⟩ := magnitudeText_finite rank zero (by omega)
      refine ⟨?_, Or.inr shape⟩
      obtain ⟨first, rest, same, digit⟩ := shape.begins
      rw [same] at read ⊢
      rw [readMagnitude?_digit (first :: rest) first (by simp) digit, read]

end Magnitude

theorem splitSign_magnitudeText (rank : Nat) (bound : rank ≤ infiniteRank) :
    splitSign (magnitudeText cellStyle rank) = (false, magnitudeText cellStyle rank) := by
  rcases (magnitudeText_cases rank bound).2 with infinite | ⟨⟨first, rest, same, digit⟩, _⟩
  · rw [infinite]
    rfl
  · rw [same]
    exact splitSign_isAlphanum first rest (by simp [Char.isAlphanum, digit])

/-- The text of a number reads back as the same bits. -/
theorem readNumber?_showNumber (value : Float) : readNumber? (showNumber value) = some value := by
  have bits := floatOfRank_rank value
  simp only [readNumber?, showNumber, numberText, String.toList_ofList]
  split
  · rename_i large
    have only := eq_of_infiniteRank_lt_rank value large
    have read : readMagnitude? ['N', 'a', 'N'] = some (infiniteRank + Nat.pow 2 51) := by decide
    rw [only]
    simp [readNumberChars?, splitSign, read]
  · rename_i bound
    have read := (magnitudeText_cases (rank value) (by omega)).1
    split
    · rename_i negative
      rw [negative] at bits
      simp [readNumberChars?, splitSign, read, bits]
    · rename_i positive
      simp only [Bool.not_eq_true] at positive
      rw [positive] at bits
      simp [readNumberChars?, splitSign_magnitudeText (rank value) (by omega), read, bits]

theorem showNumber_characters (value : Float) :
    ∀ character ∈ (showNumber value).toList, isNumberChar character = true := by
  have magnitude (bound : rank value ≤ infiniteRank) :
      ∀ character ∈ magnitudeText cellStyle (rank value), isNumberChar character = true := by
    rcases (magnitudeText_cases (rank value) bound).2 with infinite | shape
    · rw [infinite]
      simp [isNumberChar]
    · exact shape.characters
  intro character member
  simp only [showNumber, numberText, String.toList_ofList] at member
  split at member
  · revert character
    simp [isNumberChar]
  · rename_i bound
    split at member
    · rcases List.mem_cons.mp member with rfl | later
      · decide
      · exact magnitude (by omega) character later
    · exact magnitude (by omega) character member

theorem showNumber_begins (value : Float) :
    ∃ first rest, (showNumber value).toList = first :: rest ∧
      (first.isDigit = true ∨ first = '-' ∨ first = 'i' ∨ first = 'N') := by
  simp only [showNumber, numberText, String.toList_ofList]
  split
  · exact ⟨'N', _, rfl, by simp⟩
  · rename_i bound
    split
    · exact ⟨'-', _, rfl, by simp⟩
    · rcases (magnitudeText_cases (rank value) (by omega)).2 with infinite | ⟨⟨first, rest, same, digit⟩, _⟩
      · exact ⟨'i', _, infinite, by simp⟩
      · exact ⟨first, rest, same, Or.inl digit⟩

end PostfixSheet
