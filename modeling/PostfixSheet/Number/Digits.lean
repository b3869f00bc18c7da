/-! Decimal numerals of natural numbers: writing them, and the value of a run of digits. -/

namespace PostfixSheet

def digitChar (digit : Nat) : Char :=
  Char.ofNat ('0'.toNat + digit)

def digitValue (character : Char) : Nat :=
  character.toNat - '0'.toNat

def decimalDigits (number : Nat) : List Char :=
  if number < 10 then [digitChar number]
  else decimalDigits (number / 10) ++ [digitChar (number % 10)]

def digitsValue (digits : List Char) : Nat :=
  digits.foldl (fun value digit => value * 10 + digitValue digit) 0

def decimalLength (number : Nat) : Nat :=
  if number < 10 then 1 else decimalLength (number / 10) + 1

theorem digitValue_digitChar (digit : Nat) (bound : digit < 10) :
    digitValue (digitChar digit) = digit := by
  revert digit
  decide

theorem isDigit_digitChar (digit : Nat) (bound : digit < 10) :
    (digitChar digit).isDigit = true := by
  revert digit
  decide

theorem digitsValue_append (digits : List Char) (last : Char) :
    digitsValue (digits ++ [last]) = digitsValue digits * 10 + digitValue last := by
  simp [digitsValue]

theorem digitsValue_decimalDigits (number : Nat) : digitsValue (decimalDigits number) = number := by
  fun_induction decimalDigits number with
  | case1 number bound => simpa [digitsValue] using digitValue_digitChar number bound
  | case2 number bound ih =>
      rw [digitsValue_append, ih, digitValue_digitChar _ (Nat.mod_lt _ (by decide))]
      omega

theorem length_decimalDigits (number : Nat) :
    (decimalDigits number).length = decimalLength number := by
  fun_induction decimalDigits number with
  | case1 number bound => rw [decimalLength, if_pos bound]; rfl
  | case2 number bound ih => rw [decimalLength, if_neg bound, List.length_append, ih]; rfl

end PostfixSheet
