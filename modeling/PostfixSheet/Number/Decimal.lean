import PostfixSheet.Number.Digits
import PostfixSheet.Number.Rank

/-! Decimals, the double nearest to one, and the shortest decimal that reads back as a given double. -/

namespace PostfixSheet

structure Decimal where
  digits : Nat
  exponent : Int
  deriving DecidableEq, Repr

def Decimal.numerator (decimal : Decimal) : Nat :=
  decimal.digits * Nat.pow 10 decimal.exponent.toNat

def Decimal.denominator (decimal : Decimal) : Nat :=
  Nat.pow 10 (-decimal.exponent).toNat

def Decimal.point (decimal : Decimal) : Int :=
  decimalLength decimal.digits + decimal.exponent

/-- The rank nearest to a decimal. Magnitudes far outside the range of doubles are settled without
computing their fraction. -/
def Decimal.rank (decimal : Decimal) : Nat :=
  if decimal.digits = 0 then 0
  else if 310 < decimal.point then infiniteRank
  else if decimal.point < -330 then 0
  else nearestRank decimal.numerator decimal.denominator

def exactDecimal (rank : Nat) : Decimal :=
  if 1074 ≤ rankScale rank then ⟨rankMantissa rank * Nat.pow 2 (rankScale rank - 1074), 0⟩
  else
    let places := 1074 - rankScale rank
    ⟨rankMantissa rank * Nat.pow 5 places, -(places : Int)⟩

def rankPoint (rank : Nat) : Int :=
  (decimalLength (rankUnits rank * Nat.pow 10 400 / Nat.pow 2 1074) : Int) - 400

/-- The multiples of ten to the power of `exponent` on both sides of a rank, the nearer first; of two
at the same distance the upper one comes first. -/
def decimalNeighbours (rank : Nat) (exponent : Int) : List Decimal :=
  let numerator := rankUnits rank * Nat.pow 10 (-exponent).toNat
  let denominator := Nat.pow 2 1074 * Nat.pow 10 exponent.toNat
  let lower : Decimal := ⟨numerator / denominator, exponent⟩
  let upper : Decimal := ⟨numerator / denominator + 1, exponent⟩
  if 2 * (numerator % denominator) < denominator then [lower, upper] else [upper, lower]

def decimalOfLength? (rank : Nat) (point : Int) (count : Nat) : Option Decimal :=
  (decimalNeighbours rank (point - count)).find? fun decimal => decimal.rank == rank

/-- The decimal with the fewest digits that reads back as a rank. Seventeen digits are enough for every
double; the exact decimal stands behind them, so that the result reads back in any case. -/
def shortestDecimal (rank : Nat) : Decimal :=
  let point := rankPoint rank
  let found := (List.range' 1 17).findSome? (decimalOfLength? rank point)
  found.getD (exactDecimal rank)

theorem rank_decimalOfLength (rank : Nat) (point : Int) (count : Nat) (decimal : Decimal)
    (found : decimalOfLength? rank point count = some decimal) : decimal.rank = rank := by
  simpa using List.find?_some found

end PostfixSheet
