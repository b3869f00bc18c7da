/-! Column labels: the bijective base-26 numerals over the letters A to Z. The number one is A, 26 is Z
and 27 is AA; zero has the empty label. -/

namespace PostfixSheet

/-- The largest number of a column, and the largest row or column index. -/
def maxIndex : Nat := UInt32.size - 1

def columnLetter (digit : Nat) : Char :=
  Char.ofNat ('A'.toNat + digit)

/-- The letters of a column number. There is no letter for zero, so the number is lowered by one before
each division. -/
def columnLetters : Nat → List Char
  | 0 => []
  | number + 1 => columnLetters (number / 26) ++ [columnLetter (number % 26)]

def labelOfNumber (number : Nat) : String :=
  String.ofList (columnLetters number)

def letterValue (letter : Char) : Nat :=
  letter.toUpper.toNat - 'A'.toNat + 1

inductive ColumnError
  | noLetters
  | notALetter (character : Char)
  | tooLarge
  deriving DecidableEq, Repr

/-- Reads the letters behind a column number; it refuses the first character that is no ASCII letter or
that would take the number past the largest one. -/
def readColumnFrom : Nat → List Char → Except ColumnError Nat
  | number, [] => .ok number
  | number, letter :: rest =>
      if letter.isAlpha then
        let next := number * 26 + letterValue letter
        if next ≤ maxIndex then readColumnFrom next rest else .error .tooLarge
      else .error (.notALetter letter)

def readColumn : List Char → Except ColumnError Nat
  | [] => .error .noLetters
  | letters => readColumnFrom 0 letters

end PostfixSheet
