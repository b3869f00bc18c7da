import Mathlib
import PostfixSheet.Number.Rank

/-! The bits of a double determine it: what the sign and the rank of a double leave out is nothing, and
there is only one double that is no number. -/

namespace PostfixSheet

open Float.Model UnpackedFloat

section Packing

variable (bits : BitVec 64)

theorem packComponents_unpacked :
    packComponents Format.binary64 (.ofBitVec (@unpackSign Format.binary64 bits))
      (@unpackExponent Format.binary64 bits) (@unpackMantissa Format.binary64 bits) = bits := by
  have sign : (Sign.ofBitVec (@unpackSign Format.binary64 bits)).toBitVec =
      @unpackSign Format.binary64 bits := by
    generalize @unpackSign Format.binary64 bits = sign
    revert sign
    decide
  rw [packComponents, sign]
  ext index bound
  have inside : index < 64 := bound
  simp only [unpackSign, unpackExponent, unpackMantissa, BitVec.getElem_append]
  split
  · simp
    rw [BitVec.getLsbD_eq_getElem]
  · split
    · have same : 52 + (index - 52) = index := by omega
      simp [same]
      rw [BitVec.getLsbD_eq_getElem]
    · have same : 63 + (index - 52 - 11) = index := by omega
      simp [same]
      rw [BitVec.getLsbD_eq_getElem]

theorem toNat_leadingBit (mantissa : BitVec 52) :
    (1#1 ++ mantissa).toNat = 2 ^ 52 + mantissa.toNat := by
  rw [BitVec.toNat_append, ← Nat.shiftLeft_add_eq_or_of_lt mantissa.isLt, Nat.shiftLeft_eq]
  simp

theorem pack_unpack (valid : Format.binary64.Valid bits) :
    UnpackedFloat.pack Format.binary64 (UnpackedFloat.unpack Format.binary64 bits) = bits := by
  have whole := packComponents_unpacked bits
  generalize exponentEq : @unpackExponent Format.binary64 bits = exponent at whole
  generalize mantissaEq : @unpackMantissa Format.binary64 bits = mantissa at whole
  have exponentBound : exponent.toNat < 2048 := exponent.isLt
  have mantissaBound : mantissa.toNat < 2 ^ 52 := mantissa.isLt
  simp only [UnpackedFloat.unpack, exponentEq, mantissaEq]
  split
  · rename_i top
    split
    · rename_i noMantissa
      rw [top, noMantissa] at whole
      exact whole
    · rename_i someMantissa
      exact (valid.eq_packedNaN (exponentEq.trans top) (by rwa [mantissaEq])).symm
  · rename_i notTop
    split
    · rename_i bottom
      split
      · rename_i noMantissa
        rw [bottom, noMantissa] at whole
        exact whole
      · rename_i someMantissa
        have positive : mantissa.toNat ≠ 0 := by
          simpa [← BitVec.toNat_inj] using someMantissa
        have short : mantissa.toNat.log2 < 52 := (Nat.log2_lt positive).mpr mantissaBound
        simp only [UnpackedFloat.pack]
        rw [if_neg, if_neg]
        · rw [BitVec.ofNat_toNat]
          rw [bottom] at whole
          simpa using whole
        · simp [Format.mantissaBits]
          omega
        · simp [Format.exponentBias, bottom]
    · rename_i notBottom
      have long : (2 ^ 52 + mantissa.toNat).log2 = 52 :=
        (Nat.log2_eq_iff (by omega)).mpr ⟨by omega, by omega⟩
      have below : exponent.toNat < 2047 := by
        have different : exponent.toNat ≠ 2047 := by
          intro same
          exact notTop (BitVec.eq_of_toNat_eq same)
        omega
      simp only [UnpackedFloat.pack, toNat_leadingBit]
      rw [if_neg, if_pos]
      · have exponentKept : BitVec.ofNat 11 ((exponent.toNat : Int) -
            (Format.binary64.exponentBias + Format.binary64.mantissaBitsWithoutImplicit) +
            Format.binary64.exponentBias + Format.binary64.mantissaBitsWithoutImplicit).toNat =
              exponent := by
          apply BitVec.eq_of_toNat_eq
          simp [Format.exponentBias]
          omega
        have mantissaKept : BitVec.ofNat 52 (2 ^ 52 + mantissa.toNat) = mantissa := by
          apply BitVec.eq_of_toNat_eq
          simpa using mantissaBound
        rw [exponentKept, mantissaKept]
        exact whole
      · rw [long]
        rfl
      · simp [Format.exponentBias]
        omega

end Packing

theorem eq_of_toBits_eq (left right : Float) (same : left.toBits = right.toBits) :
    left = right := by
  cases left with
  | ofModel left =>
      cases right with
      | ofModel right =>
          cases left
          cases right
          simpa [Float.toBits] using same

theorem ofBits_toBits (value : Float) : Float.ofBits value.toBits = value := by
  obtain ⟨⟨bits, valid⟩⟩ := value
  have packed := pack_unpack bits.toBitVec valid
  apply congrArg Float.ofModel
  simp only [Float.Model.ofBits, Float.Model.pack, Float.toBits]
  congr 1
  rw [packed]

theorem floatOfRank_rank (value : Float) :
    floatOfRank (isNegative value) (rank value) = value := by
  have bound : value.toBits.toNat < 2 ^ 64 := value.toBits.toNat_lt
  have bits : rank value + (if isNegative value then Nat.pow 2 63 else 0) = value.toBits.toNat := by
    simp only [rank, isNegative, decide_eq_true_eq, Nat.pow_eq]
    split <;> omega
  rw [floatOfRank, bits, UInt64.ofNat_toNat, ofBits_toBits]

theorem eq_of_infiniteRank_lt_rank (value : Float) (large : infiniteRank < rank value) :
    value = floatOfRank false (infiniteRank + Nat.pow 2 51) := by
  obtain ⟨⟨bits, valid⟩⟩ := value
  simp only [rank, infiniteRank, Float.toBits, Nat.pow_eq] at large
  have bound := bits.toNat_lt
  have top : @unpackExponent Format.binary64 bits.toBitVec = -1#_ := by
    apply BitVec.eq_of_toNat_eq
    simp [unpackExponent, Nat.shiftRight_eq_div_pow]
    omega
  have someMantissa : @unpackMantissa Format.binary64 bits.toBitVec ≠ 0#_ := by
    intro noMantissa
    have zero := congrArg BitVec.toNat noMantissa
    simp [unpackMantissa] at zero
    omega
  have same : bits = 0x7FF8000000000000 := by
    apply UInt64.toBitVec_inj.mp
    rw [valid.eq_packedNaN top someMantissa]
    decide
  subst same
  rfl

end PostfixSheet
