import PostfixSheet.Proofs.Cell.ColumnLabels

/-! Column labels in machine words. Labels are written and read letter by letter, and every result on the way is
checked against the word of 32 bits, or the byte, that has to hold it. They all fit, but for the products and sums
of a label that is refused as too large. -/

namespace PostfixSheet

/-- An integer, if it is one of the so many values of a word. -/
def fit? (values : Nat) (number : Int) : Option Nat :=
  if 0 ≤ number ∧ number < values then some number.toNat else none

theorem fit?_eq_some_iff (values : Nat) (number : Int) (result : Nat) :
    fit? values number = some result ↔ (result : Int) = number ∧ result < values := by
  simp only [fit?, Option.ite_none_right_eq_some, Option.some.injEq]
  omega

theorem fit?_natCast (values number : Nat) :
    fit? values number = if number < values then some number else none := by
  simp [fit?]

theorem maxIndex_add_one : maxIndex + 1 = UInt32.size := rfl

section Writing

def writeRound? (number : Nat) : Option (Nat × Char) :=
  (fit? UInt32.size (number - 1)).bind fun lowered =>
    (fit? UInt8.size (lowered % 26 : Nat)).bind fun digit =>
      (fit? UInt8.size ('A'.toNat + digit : Nat)).map fun code => (lowered / 26, Char.ofNat code)

theorem writeRound?_succ (number : Nat) (bound : number + 1 < UInt32.size) :
    writeRound? (number + 1) = some (number / 26, columnLetter (number % 26)) := by
  have digit : number % 26 < 26 := Nat.mod_lt _ (by decide)
  have lowered : fit? UInt32.size ((number + 1 : Nat) - 1) = some number :=
    (fit?_eq_some_iff _ _ _).mpr ⟨by omega, by omega⟩
  have byte : number % 26 < UInt8.size := Nat.lt_trans digit (by decide)
  have code : 'A'.toNat + number % 26 < UInt8.size :=
    Nat.lt_of_lt_of_le (Nat.add_lt_add_left digit _) (by decide)
  simp only [writeRound?, lowered, fit?_natCast, byte, code, if_true, Option.bind_some, Option.map_some,
    columnLetter]

theorem lt_of_writeRound? (number rest : Nat) (letter : Char) (nonzero : number ≠ 0)
    (round : writeRound? number = some (rest, letter)) : rest < number := by
  simp only [writeRound?, Option.bind_eq_some_iff, Option.map_eq_some_iff, Prod.mk.injEq] at round
  obtain ⟨lowered, below, _, _, _, _, rfl, _⟩ := round
  have same := ((fit?_eq_some_iff _ _ _).mp below).1
  have positive := Nat.pos_of_ne_zero nonzero
  omega

def writeLetters? (number : Nat) (behind : List Char) : Option (List Char) :=
  if _ : number = 0 then some behind
  else
    match _ : writeRound? number with
    | none => none
    | some (rest, letter) => writeLetters? rest (letter :: behind)
termination_by number
decreasing_by
  exact lt_of_writeRound? number rest letter ‹number ≠ 0› ‹writeRound? number = some (rest, letter)›

theorem writeLetters?_eq (number : Nat) (behind : List Char) (bound : number < UInt32.size) :
    writeLetters? number behind = some (columnLetters number ++ behind) := by
  induction number using columnLetters.induct generalizing behind with
  | case1 => simp [writeLetters?, columnLetters]
  | case2 number ih =>
      have round := writeRound?_succ number bound
      have later := ih (columnLetter (number % 26) :: behind) (by omega)
      rw [writeLetters?, dif_neg (Nat.succ_ne_zero number)]
      split
      · rename_i failed
        simp [round] at failed
      · rename_i rest letter found
        obtain ⟨rfl, rfl⟩ := Prod.mk.inj (Option.some.inj (round.symm.trans found))
        rw [later, columnLetters]
        simp

def labelOfWord? (number : UInt32) : Option String :=
  (writeLetters? number.toNat []).map String.ofList

theorem labelOfWord?_eq (number : UInt32) : labelOfWord? number = some (labelOfNumber number.toNat) := by
  rw [labelOfWord?, writeLetters?_eq _ _ number.toNat_lt, List.append_nil]
  rfl

end Writing

section Reading

def letterDigit? (letter : Char) : Option Nat :=
  (fit? UInt32.size (letter.toUpper.toNat - 'A'.toNat)).bind fun (distance : Nat) =>
    fit? UInt32.size (distance + 1)

theorem letterDigit?_eq (letter : Char) (alphabetic : letter.isAlpha = true) :
    letterDigit? letter = some (letterValue letter) := by
  have lower := (toUpper_bounds letter alphabetic).1
  obtain ⟨place, bound, value, _⟩ := columnLetter_letterValue letter alphabetic
  have word : 26 < UInt32.size := by decide
  have distance : fit? UInt32.size (letter.toUpper.toNat - 'A'.toNat) = some place := by
    rw [fit?_eq_some_iff]
    rw [letterValue] at value
    omega
  rw [letterDigit?, distance, Option.bind_some, fit?_eq_some_iff, value]
  omega

def extend? (number digit : Nat) : Option Nat :=
  (fit? UInt32.size (number * 26)).bind fun (product : Nat) => fit? UInt32.size (product + digit)

theorem extend?_eq (number digit : Nat) :
    extend? number digit =
      if number * 26 + digit ≤ maxIndex then some (number * 26 + digit) else none := by
  have range := maxIndex_add_one
  by_cases fits : number * 26 + digit ≤ maxIndex
  · have product : fit? UInt32.size (number * 26) = some (number * 26) := by
      rw [fit?_eq_some_iff]
      omega
    rw [extend?, product, Option.bind_some, if_pos fits, fit?_eq_some_iff]
    omega
  · rw [extend?, if_neg fits, Option.bind_eq_none_iff]
    intro product found
    have same := ((fit?_eq_some_iff _ _ _).mp found).1
    rw [← Int.natCast_add, fit?_natCast, if_neg (by omega)]

def readRound? (number : Nat) (letter : Char) : Option (Except ColumnError Nat) :=
  if letter.isAlpha then
    (letterDigit? letter).map fun digit =>
      match extend? number digit with
      | some next => .ok next
      | none => .error .tooLarge
  else some (.error (.notALetter letter))

theorem readRound?_eq (number : Nat) (letter : Char) :
    readRound? number letter = some (readColumnFrom number [letter]) := by
  rw [readRound?, readColumnFrom]
  by_cases alphabetic : letter.isAlpha = true
  · rw [if_pos alphabetic, if_pos alphabetic, letterDigit?_eq letter alphabetic, Option.map_some, extend?_eq]
    by_cases fits : number * 26 + letterValue letter ≤ maxIndex
    · rw [if_pos fits, if_pos fits, readColumnFrom]
    · rw [if_neg fits, if_neg fits]
  · simp [alphabetic]

def readLetters? : Nat → List Char → Option (Except ColumnError Nat)
  | number, [] => some (.ok number)
  | number, letter :: rest =>
      match readRound? number letter with
      | none => none
      | some (.error error) => some (.error error)
      | some (.ok next) => readLetters? next rest

theorem readLetters?_eq (number : Nat) (letters : List Char) :
    readLetters? number letters = some (readColumnFrom number letters) := by
  induction letters generalizing number with
  | nil => rfl
  | cons letter rest ih =>
      simp only [readLetters?, readRound?_eq, readColumnFrom]
      by_cases alphabetic : letter.isAlpha = true
      · by_cases fits : number * 26 + letterValue letter ≤ maxIndex
        · simp only [alphabetic, if_true, fits, ih]
        · simp only [alphabetic, if_true, fits, if_false]
      · simp [alphabetic]

def indexOfLabel? (letters : String) : Option (Except AddressError UInt32) :=
  match if letters = "" then some (.error .noLetters) else readLetters? 0 letters.toList with
  | none => none
  | some (.error cause) => some (.error (.column letters cause))
  | some (.ok number) => (fit? UInt32.size (number - 1)).map fun index => .ok (UInt32.ofNat index)

theorem indexOfLabel?_eq (letters : String) : indexOfLabel? letters = some (indexOfLabel letters) := by
  have read : (if letters = "" then some (.error .noLetters) else readLetters? 0 letters.toList) =
      some (readColumn letters.toList) := by
    by_cases empty : letters = ""
    · rw [if_pos empty, empty]
      rfl
    · obtain ⟨first, rest, split⟩ := List.exists_cons_of_ne_nil
        (show letters.toList ≠ [] by simpa using empty)
      rw [if_neg empty, readLetters?_eq, split]
      rfl
  rw [indexOfLabel?, read, indexOfLabel]
  cases result : readColumn letters.toList with
  | error cause => rfl
  | ok number =>
      obtain ⟨nonempty, _, value, bound⟩ := (readColumn_eq_ok _ number).mp result
      have positive := lettersValue_pos letters.toList nonempty
      have range := maxIndex_add_one
      have lowered : fit? UInt32.size (number - 1) = some (number - 1) := by
        rw [fit?_eq_some_iff]
        omega
      simp only [lowered, Option.map_some]

end Reading

/-- Column numbers and their labels determine each other. A number up to the largest one is read back from its
label; labels are ordered by their length and then alphabetically as their numbers are; a text is read exactly
when it is a word of letters whose value is such a number, and that number has the word in upper case for its
label. No step leaves the words of the machine. -/
theorem labels_shortlex :
    (∀ number, 1 ≤ number → number ≤ maxIndex →
      indexOfLabel (labelOfNumber number) = .ok (UInt32.ofNat (number - 1))) ∧
    (∀ first second, first < second ↔
      (labelOfNumber first).length < (labelOfNumber second).length ∨
        (labelOfNumber first).length = (labelOfNumber second).length ∧
          labelOfNumber first < labelOfNumber second) ∧
    (∀ (letters : String) (index : UInt32), indexOfLabel letters = .ok index ↔
      letters ≠ "" ∧ (∀ letter ∈ letters.toList, letter.isAlpha = true) ∧
        lettersValue letters.toList = index.toNat + 1 ∧ index.toNat + 1 ≤ maxIndex) ∧
    (∀ (letters : String) (index : UInt32), indexOfLabel letters = .ok index →
      labelOfNumber (index.toNat + 1) = letters.toUpper) ∧
    (∀ number, labelOfWord? number = some (labelOfNumber number.toNat)) ∧
    ∀ letters, indexOfLabel? letters = some (indexOfLabel letters) :=
  ⟨indexOfLabel_labelOfNumber, lt_iff_label_lt, indexOfLabel_eq_ok, labelOfNumber_indexOfLabel,
    labelOfWord?_eq, indexOfLabel?_eq⟩

theorem labels_shortlex_lastColumn :
    indexOfLabel (labelOfNumber maxIndex) = .ok 4294967294 ∧
      indexOfLabel "mwlqkwu" = .ok 4294967294 ∧ labelOfNumber maxIndex = "MWLQKWU" ∧
      ∀ index, indexOfLabel "MWLQKWV" ≠ .ok index := by
  obtain ⟨readBack, _, readable, upper, _⟩ := labels_shortlex
  have small : indexOfLabel "mwlqkwu" = .ok 4294967294 :=
    (readable _ _).mpr ⟨by decide, List.all_eq_true.mp (by decide), by decide +kernel, by decide +kernel⟩
  refine ⟨readBack maxIndex (by decide) (by decide), small, ?_, ?_⟩
  · exact (upper "mwlqkwu" 4294967294 small).trans (by decide +kernel)
  · intro index read
    have value : lettersValue "MWLQKWV".toList = 4294967296 := by decide +kernel
    obtain ⟨_, _, same, bound⟩ := (readable _ _).mp read
    rw [← same, value] at bound
    exact absurd bound (by decide)

end PostfixSheet
