/-! The rank of a double is its bit pattern without the sign. Ranks grow with the magnitude, so that
the rank nearest to a fraction is found in exact integer arithmetic. A rank below `infiniteRank` stands
for its mantissa times two to the power of its scale less 1074; a larger one for a value that is no
number. -/

namespace PostfixSheet

def infiniteRank : Nat := 2047 * Nat.pow 2 52

def rank (value : Float) : Nat :=
  value.toBits.toNat % Nat.pow 2 63

def isNegative (value : Float) : Bool :=
  decide (Nat.pow 2 63 ≤ value.toBits.toNat)

def floatOfRank (negative : Bool) (rank : Nat) : Float :=
  Float.ofBits (UInt64.ofNat (rank + if negative then Nat.pow 2 63 else 0))

def rankMantissa (rank : Nat) : Nat :=
  if rank < Nat.pow 2 52 then rank else rank % Nat.pow 2 52 + Nat.pow 2 52

def rankScale (rank : Nat) : Nat :=
  rank / Nat.pow 2 52 - 1

/-- The magnitude of a finite rank, as a multiple of two to the power of -1074. -/
def rankUnits (rank : Nat) : Nat :=
  rankMantissa rank * Nat.pow 2 (rankScale rank)

def nearestInteger (numerator denominator : Nat) : Nat :=
  let floor := numerator / denominator
  let twice := 2 * (numerator % denominator)
  if twice < denominator then floor
  else if denominator < twice then floor + 1
  else floor + floor % 2

/-- The rank nearest to a fraction; a half goes to the even neighbour, and what lies beyond the
largest finite double becomes infinite. -/
def nearestRank (numerator denominator : Nat) : Nat :=
  let units := numerator * Nat.pow 2 1074
  let scale := Nat.log2 (units / denominator) - 52
  min infiniteRank (scale * Nat.pow 2 52 + nearestInteger units (denominator * Nat.pow 2 scale))

end PostfixSheet
