import PostfixSheet.Number.Decimal

/-! The text of a double: its shortest digits, laid out in one of two styles. -/

namespace PostfixSheet

structure NumberStyle where
  positional : Int → Bool
  wholeEnding : List Char

/-- Cells and formulas show magnitudes from 1e-4 up to 1e16 without exponent, with at least one place
behind the point. -/
def cellStyle : NumberStyle :=
  ⟨fun point => decide (-4 < point ∧ point ≤ 16), ['.', '0']⟩

/-- The log never shows an exponent, and no point behind a whole number. -/
def logStyle : NumberStyle :=
  ⟨fun _ => true, []⟩

def dropTrailingZeros (digits : List Char) : List Char :=
  (digits.reverse.dropWhile (· == '0')).reverse

def positionalText (style : NumberStyle) (digits : List Char) (point : Int) : List Char :=
  if point ≤ 0 then '0' :: '.' :: (List.replicate (-point).toNat '0' ++ digits)
  else if point < digits.length then
    digits.take point.toNat ++ '.' :: digits.drop point.toNat
  else digits ++ List.replicate (point.toNat - digits.length) '0' ++ style.wholeEnding

def integerText (number : Int) : List Char :=
  if number < 0 then '-' :: decimalDigits number.natAbs else decimalDigits number.natAbs

def exponentText (digits : List Char) (point : Int) : List Char :=
  let fraction := if digits.length ≤ 1 then [] else '.' :: digits.drop 1
  digits.take 1 ++ fraction ++ 'e' :: integerText (point - 1)

def magnitudeText (style : NumberStyle) (rank : Nat) : List Char :=
  if rank = 0 then '0' :: style.wholeEnding
  else if rank = infiniteRank then ['i', 'n', 'f']
  else
    let decimal := shortestDecimal rank
    let digits := dropTrailingZeros (decimalDigits decimal.digits)
    if style.positional decimal.point then positionalText style digits decimal.point
    else exponentText digits decimal.point

def numberText (style : NumberStyle) (value : Float) : String :=
  String.ofList <|
    if infiniteRank < rank value then ['N', 'a', 'N']
    else if isNegative value then '-' :: magnitudeText style (rank value)
    else magnitudeText style (rank value)

def showNumber (value : Float) : String :=
  numberText cellStyle value

end PostfixSheet
