import Mathlib
import PostfixSheet.Number.Decimal

/-! Rounding depends on the value of a fraction alone, and gives every finite double back from any decimal
that has its value. -/

namespace PostfixSheet

theorem nearestInteger_mul (quotient denominator : Nat) (positive : 0 < denominator) :
    nearestInteger (quotient * denominator) denominator = quotient := by
  simp [nearestInteger, positive]

theorem nearestInteger_scale (numerator denominator factor : Nat) (positive : 0 < factor) :
    nearestInteger (numerator * factor) (denominator * factor) =
      nearestInteger numerator denominator := by
  have smaller : 2 * (numerator % denominator * factor) < denominator * factor ↔
      2 * (numerator % denominator) < denominator := by
    rw [← Nat.mul_assoc]
    exact Nat.mul_lt_mul_right positive
  have larger : denominator * factor < 2 * (numerator % denominator * factor) ↔
      denominator < 2 * (numerator % denominator) := by
    rw [← Nat.mul_assoc]
    exact Nat.mul_lt_mul_right positive
  simp only [nearestInteger, Nat.mul_div_mul_right _ _ positive, Nat.mul_mod_mul_right, smaller,
    larger]

def unitsPerOne : Nat := Nat.pow 2 1074

theorem unitsPerOne_eq : unitsPerOne = 2 ^ 1074 := by decide +kernel

theorem unitsPerOne_pos : 0 < unitsPerOne := by decide +kernel

theorem pow_mul_unitsPerOne (exponent : Nat) : 2 ^ exponent * unitsPerOne = 2 ^ (exponent + 1074) := by
  rw [unitsPerOne_eq, Nat.pow_add]

theorem nearestRank_eq (numerator denominator : Nat) :
    nearestRank numerator denominator =
      let scale := Nat.log2 (numerator * unitsPerOne / denominator) - 52
      min infiniteRank (scale * 2 ^ 52 +
        nearestInteger (numerator * unitsPerOne) (denominator * 2 ^ scale)) := by
  have units : Nat.pow 2 1074 = unitsPerOne := by decide +kernel
  rw [nearestRank, units]
  rfl

theorem nearestRank_scale (numerator denominator factor : Nat) (positive : 0 < factor) :
    nearestRank (numerator * factor) (denominator * factor) = nearestRank numerator denominator := by
  have units : numerator * factor * unitsPerOne = numerator * unitsPerOne * factor :=
    Nat.mul_right_comm _ _ _
  simp only [nearestRank_eq, units, Nat.mul_div_mul_right _ _ positive]
  rw [Nat.mul_right_comm denominator factor, nearestInteger_scale _ _ _ positive]

theorem nearestRank_congr (numerator denominator otherNumerator otherDenominator : Nat)
    (positive : 0 < denominator) (otherPositive : 0 < otherDenominator)
    (same : numerator * otherDenominator = otherNumerator * denominator) :
    nearestRank numerator denominator = nearestRank otherNumerator otherDenominator := by
  calc nearestRank numerator denominator
      = nearestRank (numerator * otherDenominator) (denominator * otherDenominator) :=
        (nearestRank_scale _ _ _ otherPositive).symm
    _ = nearestRank (otherNumerator * denominator) (otherDenominator * denominator) := by
        rw [same, Nat.mul_comm denominator]
    _ = nearestRank otherNumerator otherDenominator := nearestRank_scale _ _ _ positive

theorem div_le_nearestInteger (numerator denominator : Nat) :
    numerator / denominator ≤ nearestInteger numerator denominator := by
  simp only [nearestInteger]
  split
  · exact Nat.le_refl _
  · split <;> omega

theorem nearestRank_large (numerator denominator : Nat) (positive : 0 < denominator)
    (large : 2 ^ 1024 * denominator ≤ numerator) :
    nearestRank numerator denominator = infiniteRank := by
  rw [nearestRank_eq]
  generalize unitsEq : numerator * unitsPerOne = units
  have power : 2 ^ 1024 * unitsPerOne = 2 ^ 2098 := by decide +kernel
  have quotient : 2 ^ 1024 * unitsPerOne ≤ units / denominator := by
    rw [Nat.le_div_iff_mul_le positive, ← unitsEq, Nat.mul_right_comm]
    exact Nat.mul_le_mul_right _ large
  rw [power] at quotient
  have nonzero : units / denominator ≠ 0 := by
    have power := Nat.two_pow_pos 2098
    omega
  have length (count : Nat) (bound : 2 ^ count ≤ units / denominator) :
      count ≤ (units / denominator).log2 := (Nat.le_log2 nonzero).mpr bound
  have long := length 2098 quotient
  generalize scaleEq : (units / denominator).log2 - 52 = scale
  have whole : 2 ^ 52 ≤ units / (denominator * 2 ^ scale) := by
    rw [← Nat.div_div_eq_div_mul, Nat.le_div_iff_mul_le (Nat.two_pow_pos scale), ← Nat.pow_add]
    have exponent : 52 + scale = (units / denominator).log2 := by omega
    rw [exponent]
    exact Nat.log2_self_le nonzero
  have rounded := div_le_nearestInteger units (denominator * 2 ^ scale)
  have scaled : 2046 * 2 ^ 52 ≤ scale * 2 ^ 52 := Nat.mul_le_mul_right _ (by omega)
  apply Nat.min_eq_left
  simp only [infiniteRank, Nat.pow_eq]
  omega

theorem nearestRank_small (numerator denominator : Nat)
    (small : 2 * (numerator * unitsPerOne) < denominator) :
    nearestRank numerator denominator = 0 := by
  have quotient : numerator * unitsPerOne / denominator = 0 := Nat.div_eq_of_lt (by omega)
  have remainder : numerator * unitsPerOne % denominator = numerator * unitsPerOne :=
    Nat.mod_eq_of_lt (by omega)
  simp [nearestRank_eq, nearestInteger, quotient, remainder, small]

theorem pow_le_of_decimalLength (number : Nat) (positive : 0 < number) :
    10 ^ (decimalLength number - 1) ≤ number := by
  fun_induction decimalLength number with
  | case1 number small => exact positive
  | case2 number large ih =>
      have tenth := ih (by omega)
      have length : 0 < decimalLength (number / 10) := by
        unfold decimalLength
        split <;> omega
      have power : 10 ^ (decimalLength (number / 10) + 1 - 1) =
          10 ^ (decimalLength (number / 10) - 1) * 10 := by
        rw [← Nat.pow_succ]
        congr 1
        omega
      omega

theorem lt_pow_decimalLength (number : Nat) : number < 10 ^ decimalLength number := by
  fun_induction decimalLength number with
  | case1 number small => simpa using small
  | case2 number large ih =>
      rw [Nat.pow_succ]
      omega

namespace Decimal

theorem denominator_pos (decimal : Decimal) : 0 < decimal.denominator :=
  Nat.pow_pos (by decide)

theorem rank_of_large (decimal : Decimal) (nonzero : decimal.digits ≠ 0)
    (large : 310 < decimal.point) :
    nearestRank decimal.numerator decimal.denominator = infiniteRank := by
  apply nearestRank_large _ _ decimal.denominator_pos
  simp only [numerator, denominator, Nat.pow_eq]
  simp only [point] at large
  have digits := pow_le_of_decimalLength decimal.digits (by omega)
  calc 2 ^ 1024 * 10 ^ (-decimal.exponent).toNat
      ≤ 10 ^ 310 * 10 ^ (-decimal.exponent).toNat := Nat.mul_le_mul_right _ (by decide +kernel)
    _ = 10 ^ (310 + (-decimal.exponent).toNat) := by rw [Nat.pow_add]
    _ ≤ 10 ^ (decimalLength decimal.digits - 1 + decimal.exponent.toNat) :=
        Nat.pow_le_pow_right (by decide) (by omega)
    _ = 10 ^ (decimalLength decimal.digits - 1) * 10 ^ decimal.exponent.toNat := by rw [Nat.pow_add]
    _ ≤ decimal.digits * 10 ^ decimal.exponent.toNat := Nat.mul_le_mul_right _ digits

theorem rank_of_small (decimal : Decimal) (small : decimal.point < -330) :
    nearestRank decimal.numerator decimal.denominator = 0 := by
  apply nearestRank_small
  simp only [numerator, denominator, Nat.pow_eq]
  simp only [point] at small
  have digits := lt_pow_decimalLength decimal.digits
  have whole : decimal.exponent.toNat = 0 := by omega
  rw [whole, Nat.pow_zero, Nat.mul_one]
  calc 2 * (decimal.digits * unitsPerOne)
      = decimal.digits * (2 * unitsPerOne) := Nat.mul_left_comm _ _ _
    _ < 10 ^ decimalLength decimal.digits * (2 * unitsPerOne) :=
        Nat.mul_lt_mul_of_pos_right digits (Nat.mul_pos (by decide) unitsPerOne_pos)
    _ ≤ 10 ^ decimalLength decimal.digits * 10 ^ 331 := Nat.mul_le_mul_left _ (by decide +kernel)
    _ = 10 ^ (decimalLength decimal.digits + 331) := by rw [Nat.pow_add]
    _ ≤ 10 ^ (-decimal.exponent).toNat := Nat.pow_le_pow_right (by decide) (by omega)

theorem rank_eq_nearestRank (decimal : Decimal) :
    decimal.rank = nearestRank decimal.numerator decimal.denominator := by
  rw [rank]
  split
  · rename_i zero
    have nothing : decimal.numerator = 0 := by simp [numerator, zero]
    rw [nothing]
    exact (nearestRank_small 0 _ (by simpa using decimal.denominator_pos)).symm
  · rename_i nonzero
    split
    · rename_i large
      exact (decimal.rank_of_large nonzero large).symm
    · split
      · rename_i small
        exact (decimal.rank_of_small small).symm
      · rfl

theorem rank_congr (left right : Decimal)
    (same : left.numerator * right.denominator = right.numerator * left.denominator) :
    left.rank = right.rank := by
  rw [rank_eq_nearestRank, rank_eq_nearestRank]
  exact nearestRank_congr _ _ _ _ left.denominator_pos right.denominator_pos same

end Decimal

section Finite

variable (rank : Nat)

theorem rankMantissa_lt : rankMantissa rank < 2 ^ 53 := by
  simp only [rankMantissa, Nat.pow_eq]
  split <;> omega

theorem rankMantissa_cases :
    2 ^ 52 ≤ rankMantissa rank ∨ rankScale rank = 0 ∧ rank = rankMantissa rank := by
  simp only [rankMantissa, rankScale, Nat.pow_eq]
  split <;> omega

theorem rank_eq : rank = rankScale rank * 2 ^ 52 + rankMantissa rank := by
  simp only [rankMantissa, rankScale, Nat.pow_eq]
  split <;> omega

theorem log2_rankUnits : (rankUnits rank).log2 - 52 = rankScale rank := by
  have bound := rankMantissa_lt rank
  rcases rankMantissa_cases rank with full | ⟨lowest, _⟩
  · have length : (rankUnits rank).log2 = 52 + rankScale rank := by
      rw [rankUnits, Nat.pow_eq]
      have positive : rankMantissa rank * 2 ^ rankScale rank ≠ 0 :=
        Nat.mul_ne_zero (by omega) (Nat.two_pow_pos _).ne'
      refine (Nat.log2_eq_iff positive).mpr ⟨?_, ?_⟩
      · rw [Nat.pow_add]
        exact Nat.mul_le_mul_right _ full
      · rw [show 52 + rankScale rank + 1 = 53 + rankScale rank by omega, Nat.pow_add]
        exact Nat.mul_lt_mul_of_pos_right bound (Nat.two_pow_pos _)
    omega
  · rw [rankUnits, lowest, Nat.pow_eq, Nat.pow_zero, Nat.mul_one]
    by_cases zero : rankMantissa rank = 0
    · rw [zero, Nat.log2_zero]
    · have short := (Nat.log2_lt zero).mpr bound
      omega

theorem nearestRank_rankUnits (finite : rank < infiniteRank) :
    nearestRank (rankUnits rank) unitsPerOne = rank := by
  have exact : rankUnits rank * unitsPerOne =
      rankMantissa rank * (unitsPerOne * 2 ^ rankScale rank) := by
    rw [rankUnits, Nat.pow_eq, Nat.mul_assoc, Nat.mul_comm (2 ^ rankScale rank)]
  simp only [nearestRank_eq, Nat.mul_div_cancel _ unitsPerOne_pos, log2_rankUnits]
  rw [exact, nearestInteger_mul _ _ (Nat.mul_pos unitsPerOne_pos (Nat.two_pow_pos _)), ← rank_eq]
  exact Nat.min_eq_right (Nat.le_of_lt finite)

theorem exactDecimal_value :
    (exactDecimal rank).numerator * unitsPerOne = rankUnits rank * (exactDecimal rank).denominator := by
  simp only [exactDecimal, rankUnits, Nat.pow_eq]
  split
  · rename_i large
    have exponent : rankScale rank - 1074 + 1074 = rankScale rank := by omega
    simp only [Decimal.numerator, Decimal.denominator, Nat.pow_eq, Int.toNat_zero, Int.neg_zero,
      Nat.pow_zero, Nat.mul_one]
    rw [Nat.mul_assoc, pow_mul_unitsPerOne, exponent]
  · rename_i small
    generalize placesEq : 1074 - rankScale rank = places
    have exponent : 2 ^ rankScale rank * 2 ^ places = unitsPerOne := by
      have sum : rankScale rank + places = 1074 := by omega
      rw [unitsPerOne_eq, ← sum, Nat.pow_add]
    simp only [Decimal.numerator, Decimal.denominator, Nat.pow_eq, Int.neg_neg, Int.toNat_natCast,
      Int.toNat_neg_natCast, Nat.pow_zero, Nat.mul_one]
    calc rankMantissa rank * 5 ^ places * unitsPerOne
        = rankMantissa rank * 2 ^ rankScale rank * (2 ^ places * 5 ^ places) := by
          rw [← exponent]
          ring
      _ = rankMantissa rank * 2 ^ rankScale rank * 10 ^ places := by rw [← Nat.mul_pow]

theorem rank_exactDecimal (finite : rank < infiniteRank) : (exactDecimal rank).rank = rank := by
  rw [Decimal.rank_eq_nearestRank,
    nearestRank_congr _ _ (rankUnits rank) unitsPerOne (Decimal.denominator_pos _) unitsPerOne_pos
      (exactDecimal_value rank), nearestRank_rankUnits rank finite]

/-- The decimal that stands for a finite rank reads back as that rank. -/
theorem rank_shortestDecimal (finite : rank < infiniteRank) : (shortestDecimal rank).rank = rank := by
  rw [shortestDecimal]
  cases found : (List.range' 1 17).findSome? (decimalOfLength? rank (rankPoint rank)) with
  | none => exact rank_exactDecimal rank finite
  | some decimal =>
      obtain ⟨count, _, hit⟩ := List.exists_of_findSome?_eq_some found
      exact rank_decimalOfLength rank _ count decimal hit

end Finite

end PostfixSheet
