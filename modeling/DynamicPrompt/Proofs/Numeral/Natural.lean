import Mathlib
import DynamicPrompt.Expression.Evaluation

/-!
# Natural numbers as doubles

The length of a text is a double in conditions, so a condition that compares it with zero rests on
what becomes of a natural number when it is rounded. However large the number is, the double nearest
to it is zero only if the number is.

Rounding cuts the mantissa down to fifty-three bits and never below them, so a number of at least
one stays at least one, through rounding, packing and multiplication; beyond the largest double it
becomes infinite.
-/

namespace DynamicPrompt.Numeral

open Float.Model Float.Model.UnpackedFloat

/-- Positive infinity, or a number of at least one with a full mantissa. -/
inductive AtLeastOne : UnpackedFloat → Prop where
  | infinity : AtLeastOne (.infinity .positive)
  | finite {mantissa : Nat} {exponent : Int} {positive : 0 < mantissa} (low : 2 ^ 52 ≤ mantissa)
      (high : mantissa < 2 ^ 53) (large : -52 ≤ exponent) :
      AtLeastOne (.finite .positive mantissa exponent positive)

/-- What is at least one comes after zero. -/
theorem AtLeastOne.compare_zero {x : UnpackedFloat} (large : AtLeastOne x) :
    UnpackedFloat.compare (.zero .positive) x = some .lt := by
  cases large with
  | infinity => rfl
  | finite low high large => rfl

section Format

/-- The mantissa of a double has fifty-three bits, the implicit one among them. -/
theorem mantissaBits_double : Format.binary64.mantissaBits = 53 := by decide

/-- The bias of the exponent of a double. -/
theorem exponentBias_double : Format.binary64.exponentBias = 1023 := by decide

/-- The exponent with which a number of at least one has a full mantissa. -/
theorem targetExponent_double {mantissa : Nat} {exponent : Int}
    (large : 0 ≤ mantissa.log2 + exponent) :
    Format.binary64.targetExponent (totalExponent mantissa exponent) =
      mantissa.log2 + exponent - 52 := by
  have lowest : Format.binary64.minExponent = -1074 := by decide
  rw [Format.targetExponent, totalExponent, lowest, mantissaBits_double]
  omega

end Format

section Rounding

/-- Shifting divides the mantissa by a power of two. -/
theorem mantissa_shiftRight (extended : ExtendedMantissa) (count : Nat) :
    (extended >>> count).mantissa = extended.mantissa / 2 ^ count := by
  induction count with
  | zero => exact (Nat.div_one extended.mantissa).symm
  | succ count inductionHypothesis =>
    rw [Nat.pow_succ, ← Nat.div_div_eq_div_mul, ← inductionHypothesis]
    rfl

/-- A mantissa of at least fifty-three bits is cut down to fifty-three. -/
theorem div_full {mantissa : Nat} (long : 2 ^ 52 ≤ mantissa) :
    2 ^ 52 ≤ mantissa / 2 ^ (mantissa.log2 - 52) ∧ mantissa / 2 ^ (mantissa.log2 - 52) < 2 ^ 53 := by
  have positive : mantissa ≠ 0 := by omega
  have bits : 52 ≤ mantissa.log2 := (Nat.le_log2 positive).2 long
  have low : 2 ^ (52 + (mantissa.log2 - 52)) ≤ mantissa := by
    rw [Nat.add_sub_cancel' bits]
    exact Nat.log2_self_le positive
  have high : mantissa < 2 ^ (53 + (mantissa.log2 - 52)) := by
    have next : 53 + (mantissa.log2 - 52) = mantissa.log2 + 1 := by omega
    rw [next]
    exact Nat.lt_log2_self
  rw [Nat.pow_add] at low high
  exact ⟨(Nat.le_div_iff_mul_le (Nat.two_pow_pos _)).2 low,
    (Nat.div_lt_iff_lt_mul (Nat.two_pow_pos _)).2 high⟩

/-- A number of at least one is shifted until its mantissa is full. -/
theorem shiftToTargetExponent_double {mantissa : Nat} {exponent : Int}
    (long : 2 ^ 52 ≤ mantissa) (large : 0 ≤ mantissa.log2 + exponent) :
    ∃ extended, shiftToTargetExponent Format.binary64 mantissa exponent .exact =
        (extended, mantissa.log2 + exponent - 52) ∧
      extended.mantissa = mantissa / 2 ^ (mantissa.log2 - 52) := by
  have bits : 52 ≤ mantissa.log2 := (Nat.le_log2 (by omega)).2 long
  have amount : (mantissa.log2 + exponent - 52 - exponent).toNat = mantissa.log2 - 52 := by omega
  have reached : exponent + (mantissa.log2 - 52 : Nat) = mantissa.log2 + exponent - 52 := by omega
  rw [shiftToTargetExponent, targetExponent_double large, shiftToExponent, amount, reached]
  exact ⟨_, rfl, mantissa_shiftRight _ _⟩

/-- Rounding a mantissa adds at most one. -/
theorem roundedMantissa_bounds (extended : ExtendedMantissa) :
    extended.mantissa ≤ extended.roundedMantissa ∧
      extended.roundedMantissa ≤ extended.mantissa + 1 := by
  obtain ⟨mantissa, roundBit, stickyBit⟩ := extended
  cases roundBit <;> cases stickyBit <;>
    simp only [ExtendedMantissa.roundedMantissa, ExtendedMantissa.accuracy,
      Accuracy.roundToNearestEven] <;> omega

/-- A number of at least one is rounded to one. Its mantissa is shifted twice: rounding may have
carried into a bit more. -/
theorem atLeastOne_round {mantissa : Nat} {exponent : Int} (long : 2 ^ 52 ≤ mantissa)
    (large : 0 ≤ mantissa.log2 + exponent) :
    AtLeastOne (roundWithAccuracy Format.binary64 .positive mantissa exponent .exact) := by
  have bits : 52 ≤ mantissa.log2 := (Nat.le_log2 (by omega)).2 long
  obtain ⟨first, shifted, kept⟩ := shiftToTargetExponent_double long large
  obtain ⟨low, high⟩ := div_full long
  obtain ⟨least, most⟩ := roundedMantissa_bounds first
  have longRounded : 2 ^ 52 ≤ first.roundedMantissa := by omega
  have bitsRounded : 52 ≤ first.roundedMantissa.log2 := (Nat.le_log2 (by omega)).2 longRounded
  have largeRounded : 0 ≤ first.roundedMantissa.log2 + (mantissa.log2 + exponent - 52) := by omega
  obtain ⟨second, shiftedRounded, keptRounded⟩ :=
    shiftToTargetExponent_double longRounded largeRounded
  obtain ⟨lowRounded, highRounded⟩ := div_full longRounded
  rw [← keptRounded] at lowRounded highRounded
  rw [roundWithAccuracy, shifted]
  dsimp only
  rw [shiftedRounded]
  dsimp only
  rw [dif_neg (by omega)]
  exact .finite lowRounded highRounded (by omega)

end Rounding

section Packing

/-- A mantissa with its implicit bit is full. -/
theorem toNat_implicitBit (mantissa : BitVec 52) :
    2 ^ 52 ≤ (1#1 ++ mantissa).toNat ∧ (1#1 ++ mantissa).toNat < 2 ^ 53 := by
  have small : mantissa.toNat < 2 ^ 52 := mantissa.isLt
  have sum : (1#1 ++ mantissa).toNat = 2 ^ 52 + mantissa.toNat := by
    rw [BitVec.toNat_append, ← Nat.shiftLeft_add_eq_or_of_lt small]
    rfl
  omega

/-- A positive double whose exponent is at least the bias is at least one. -/
theorem atLeastOne_components {biased : BitVec 11} (mantissa : BitVec 52)
    (large : 1023 ≤ biased.toNat) (finite : biased.toNat < 2047) :
    AtLeastOne (UnpackedFloat.unpack Format.binary64
      (packComponents Format.binary64 .positive biased mantissa)) := by
  have notLast : biased ≠ -1#11 := by
    rintro rfl
    exact absurd finite (by decide)
  have notFirst : biased ≠ 0#11 := by
    rintro rfl
    exact absurd large (by decide)
  obtain ⟨low, high⟩ := toNat_implicitBit mantissa
  simp only [UnpackedFloat.unpack, unpackExponent_packComponents, unpackMantissa_packComponents,
    unpackSign_packComponents, exponentBias_double, notLast, notFirst, if_false]
  refine .finite low high ?_
  omega

/-- What is at least one stays so when it is packed. -/
theorem atLeastOne_pack {x : UnpackedFloat} (large : AtLeastOne x) :
    AtLeastOne (Float.Model.pack x).unpack := by
  cases large with
  | infinity => exact .infinity
  | @finite mantissa exponent positive low high large =>
    have bits : mantissa.log2 + 1 = Format.binary64.mantissaBits := by
      have log := (Nat.log2_eq_iff (by omega)).2 ⟨low, high⟩
      rw [mantissaBits_double]
      omega
    change AtLeastOne (UnpackedFloat.unpack Format.binary64
      (UnpackedFloat.pack Format.binary64 (.finite .positive mantissa exponent positive)))
    simp only [UnpackedFloat.pack, bits, if_true]
    split
    · exact .infinity
    · next finite =>
      rw [exponentBias_double] at finite ⊢
      have biased : (BitVec.ofNat 11 (exponent + (1023 : Nat) + (52 : Nat)).toNat).toNat =
          (exponent + (1023 : Nat) + (52 : Nat)).toNat := by
        rw [BitVec.toNat_ofNat]
        omega
      apply atLeastOne_components
      · rw [biased]
        omega
      · rw [biased]
        omega

end Packing

/-- The product of what is at least one is so, too. -/
theorem atLeastOne_mul {x y : UnpackedFloat} (large : AtLeastOne x) (large' : AtLeastOne y) :
    AtLeastOne (UnpackedFloat.mul Format.binary64 x y) := by
  cases large with
  | infinity =>
    cases large' with
    | infinity => exact .infinity
    | finite => exact .infinity
  | @finite mantissa exponent _ low _ large =>
    cases large' with
    | infinity => exact .infinity
    | @finite mantissa' exponent' _ low' _ large' =>
      have product : 2 ^ 52 * 2 ^ 52 ≤ mantissa * mantissa' := Nat.mul_le_mul low low'
      have log : 104 ≤ (mantissa * mantissa').log2 := (Nat.le_log2 (by omega)).2 (by omega)
      exact atLeastOne_round (by omega) (by omega)

section Natural

variable {n : Nat} (positive : 0 < n)

include positive

/-- A number scaled by a power of two has that many bits more. -/
theorem log2_shiftLeft (count : Nat) :
    2 ^ (n.log2 + count) ≤ n <<< count ∧ n.log2 + count ≤ (n <<< count).log2 := by
  have low : 2 ^ (n.log2 + count) ≤ n <<< count := by
    rw [Nat.shiftLeft_eq, Nat.pow_add]
    exact Nat.mul_le_mul_right _ (Nat.log2_self_le (Nat.ne_of_gt positive))
  have filled : 0 < 2 ^ (n.log2 + count) := Nat.two_pow_pos _
  exact ⟨low, (Nat.le_log2 (by omega)).2 low⟩

/-- A whole number is rounded after its mantissa has been filled up. -/
theorem atLeastOne_ofNat : AtLeastOne (UnpackedFloat.ofNat Format.binary64 n) := by
  have sign : compare (n : Int) 0 = .gt := by
    rw [Int.compare_eq_gt]
    omega
  have target : Format.binary64.targetExponent (totalExponent n 0) = n.log2 + 0 - 52 :=
    targetExponent_double (by omega)
  have amount : (0 - ((n.log2 : Int) + 0 - 52)).toNat = 52 - n.log2 := by omega
  obtain ⟨low, log⟩ := log2_shiftLeft positive (52 - n.log2)
  have long : 2 ^ 52 ≤ 2 ^ (n.log2 + (52 - n.log2)) := Nat.pow_le_pow_right (by decide) (by omega)
  rw [UnpackedFloat.ofNat, UnpackedFloat.ofInt, UnpackedFloat.normalize, sign]
  dsimp only
  rw [UnpackedFloat.round, Int.toNat_natCast, target, decreaseExponent, amount]
  exact atLeastOne_round (Nat.le_trans long low) (by omega)

/-- A numeral without decimals is rounded after its mantissa has been scaled up. -/
theorem atLeastOne_ofScientific : AtLeastOne (UnpackedFloat.ofScientific Format.binary64 n 0) := by
  obtain ⟨low, log⟩ := log2_shiftLeft positive 53
  have long : 2 ^ 52 ≤ 2 ^ (n.log2 + 53) := Nat.pow_le_pow_right (by decide) (by omega)
  have nonzero : n ≠ 0 := Nat.ne_of_gt positive
  have notHuge : ¬ (0 : Int) > 2 ^ Format.binary64.exponentBits := by decide
  have notTiny : ¬ (0 : Int) < -((2 ^ Format.binary64.exponentBits : Int) + n.log2) := by omega
  rw [UnpackedFloat.ofScientific, dif_neg nonzero, if_neg notHuge, if_neg notTiny,
    if_pos (Int.le_refl 0), UnpackedFloat.mul, Int.toNat_zero, Nat.pow_zero, Nat.mul_one,
    mantissaBits_double]
  exact atLeastOne_round (Nat.le_trans long low) (by omega)

/-- The double nearest to a natural number is at least one unless the number is zero. Numbers that
doubles represent exactly are read as words and multiplied by one, all others as numerals. -/
theorem atLeastOne_double : AtLeastOne (Float.ofNat n).toModel.unpack := by
  by_cases small : n < 2 ^ 53
  · have product : (Float.ofNat n).toModel =
        (Float.Model.ofUInt64 n.toUInt64).mul (Float.Model.ofBits 0x3FF0000000000000) := by
      have both : n < 2 ^ 53 ∧ 0 ≤ 22 := ⟨small, Nat.zero_le 22⟩
      change (Float.ofScientific n false 0).toModel = _
      rw [Float.ofScientific, dif_pos both]
      rfl
    have one : AtLeastOne (Float.Model.ofBits 0x3FF0000000000000).unpack := by
      have unpacked : (Float.Model.ofBits 0x3FF0000000000000).unpack =
        .finite .positive (2 ^ 52) (-52) (by decide) := rfl
      rw [unpacked]
      exact .finite (by decide) (by decide) (by decide)
    have word : n.toUInt64.toNat = n := by
      rw [Nat.toUInt64_eq, UInt64.toNat_ofNat']
      omega
    rw [product]
    refine atLeastOne_pack (atLeastOne_mul (atLeastOne_pack ?_) one)
    rw [UnpackedFloat.ofUInt64, word]
    exact atLeastOne_ofNat positive
  · have scaled : (Float.ofNat n).toModel = Float.Model.ofScientific n 0 := by
      change (Float.ofScientific n false 0).toModel = _
      rw [Float.ofScientific, dif_neg (fun both => small both.1)]
      rfl
    rw [scaled]
    exact atLeastOne_pack (atLeastOne_ofScientific positive)

/-- The double nearest to a natural number is above zero unless the number is zero. -/
theorem zero_lt_ofNat : (0 : Float) < Float.ofNat n := by
  have zero : (Float.toModel 0).unpack = .zero .positive := rfl
  have before : (Float.toModel 0).unpack.lt (Float.ofNat n).toModel.unpack = true := by
    rw [zero, UnpackedFloat.lt, (atLeastOne_double positive).compare_zero]
    rfl
  change Float.lt 0 (Float.ofNat n) = true
  rw [Float.lt, decide_eq_true_eq]
  exact before

end Natural

end DynamicPrompt.Numeral

/-- As a double, no natural number but zero is equal to zero. -/
theorem DynamicPrompt.Expression.orderNumbers_ofNat (n : Nat) :
    orderNumbers (Float.ofNat n) 0 = .eq ↔ n = 0 := by
  constructor
  · intro equal
    apply Classical.byContradiction
    intro other
    have above : Float.ofNat n > 0 := Numeral.zero_lt_ofNat (Nat.pos_of_ne_zero other)
    rw [orderNumbers, if_pos above] at equal
    split at equal
    · cases equal
    · cases equal
  · rintro rfl
    decide +kernel
