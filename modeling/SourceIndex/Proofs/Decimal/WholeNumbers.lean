import SourceIndex.Decimal.Shortest
import SourceIndex.Json.Reading
import Mathlib.Tactic.Ring

/-! Whole numbers as floating-point numbers. Those of at most 53 bits are represented exactly, and
what is ten times such a number can be divided by ten without loss. -/

namespace SourceIndex.WholeNumber

open Float.Model Float.Model.UnpackedFloat

/-! ## Rounding -/

theorem log2_mul_two_pow {number : Nat} (positive : 0 < number) (places : Nat) :
    (number * 2 ^ places).log2 = number.log2 + places := by
  induction places with
  | zero => rw [Nat.pow_zero, Nat.mul_one, Nat.add_zero]
  | succ places induction =>
      have positive : number * 2 ^ places ≠ 0 :=
        Nat.pos_iff_ne_zero.mp (Nat.mul_pos positive (Nat.two_pow_pos places))
      rw [Nat.pow_succ, ← Nat.mul_assoc, Nat.mul_comm _ 2, Nat.log2_two_mul positive, induction]
      omega

/-- A whole number with a mantissa of 53 bits, which is the form in which numbers are packed. -/
def canonical {number : Nat} (positive : 0 < number) : UnpackedFloat :=
  .finite .positive (number * 2 ^ (52 - number.log2)) (number.log2 - 52)
    (Nat.mul_pos positive (Nat.two_pow_pos _))

/-- Places behind the point that are zero can be left out. -/
theorem shiftRight_mul_two_pow (mantissa shift : Nat) :
    (⟨mantissa * 2 ^ shift, false, false⟩ : ExtendedMantissa) >>> shift =
      ⟨mantissa, false, false⟩ := by
  induction shift generalizing mantissa with
  | zero => rw [Nat.pow_zero, Nat.mul_one]; rfl
  | succ shift induction =>
      have step : (⟨mantissa * 2 ^ (shift + 1), false, false⟩ : ExtendedMantissa) >>> (shift + 1) =
          ((⟨mantissa * 2 * 2 ^ shift, false, false⟩ : ExtendedMantissa) >>>
            shift).shiftRightOne := by
        rw [Nat.pow_succ, Nat.mul_comm _ 2, ← Nat.mul_assoc]
        rfl
      rw [step, induction, ExtendedMantissa.shiftRightOne]
      simp

theorem targetExponent_eq {number : Nat} (positive : 0 < number) (places : Nat) :
    Format.binary64.targetExponent (totalExponent (number * 2 ^ places) (-places)) =
      number.log2 - 52 := by
  have least : Format.binary64.minExponent = -1074 := rfl
  have bits : (Format.binary64.mantissaBits : Int) = 53 := rfl
  rw [Format.targetExponent, totalExponent, log2_mul_two_pow positive, least, bits]
  omega

theorem shiftToTargetExponent_eq {number : Nat} (positive : 0 < number) {places : Nat}
    (enough : 52 ≤ number.log2 + places) (small : number.log2 ≤ 52) :
    shiftToTargetExponent .binary64 (number * 2 ^ places) (-places) .exact =
      ((⟨number * 2 ^ (52 - number.log2), false, false⟩ : ExtendedMantissa),
        (number.log2 : Int) - 52) := by
  have shift : ((number.log2 : Int) - 52 - -places).toNat = number.log2 + places - 52 := by omega
  have split : number * 2 ^ places =
      number * 2 ^ (52 - number.log2) * 2 ^ (number.log2 + places - 52) := by
    rw [Nat.mul_assoc, ← Nat.pow_add]
    congr 2
    omega
  unfold shiftToTargetExponent shiftToExponent
  simp only
  rw [targetExponent_eq positive, shift, ExtendedMantissa.ofMantissaAndAccuracy, split,
    shiftRight_mul_two_pow]
  congr 1
  omega

/-- A whole number of at most 53 bits is not changed by rounding, however many zeros come behind its
point. -/
theorem roundWithAccuracy_eq {number : Nat} (positive : 0 < number) {places : Nat}
    (enough : 52 ≤ number.log2 + places) (small : number.log2 ≤ 52) :
    roundWithAccuracy .binary64 .positive (number * 2 ^ places) (-places) .exact =
      canonical positive := by
  have again := @shiftToTargetExponent_eq number positive (52 - number.log2) (by omega) small
  have exponent : -((52 - number.log2 : Nat) : Int) = number.log2 - 52 := by omega
  have mantissa : number * 2 ^ (52 - number.log2) ≠ 0 :=
    Nat.pos_iff_ne_zero.mp (Nat.mul_pos positive (Nat.two_pow_pos _))
  rw [exponent] at again
  unfold roundWithAccuracy
  rw [shiftToTargetExponent_eq positive enough small]
  have rounded : ∀ mantissa : Nat,
      (⟨mantissa, false, false⟩ : ExtendedMantissa).roundedMantissa = mantissa := fun _ => rfl
  dsimp only
  rw [rounded, again]
  exact dif_neg mantissa

theorem round_eq {number : Nat} (positive : 0 < number) (small : number.log2 ≤ 52) :
    UnpackedFloat.round .binary64 .positive number 0 = canonical positive := by
  have target : Format.binary64.targetExponent (totalExponent number 0) = number.log2 - 52 := by
    have whole := targetExponent_eq positive 0
    rwa [Nat.pow_zero, Nat.mul_one] at whole
  have shift : ((0 : Int) - (number.log2 - 52)).toNat = 52 - number.log2 := by omega
  have exponent : (0 : Int) - (52 - number.log2 : Nat) = -(52 - number.log2 : Nat) := by omega
  unfold UnpackedFloat.round
  simp only [target, decreaseExponent, shift, exponent, Nat.shiftLeft_eq]
  exact roundWithAccuracy_eq positive (by omega) small

theorem ofNat_eq {number : Nat} (positive : 0 < number) (small : number.log2 ≤ 52) :
    UnpackedFloat.ofNat .binary64 number = canonical positive := by
  have isPositive : compare (number : Int) 0 = .gt := by
    rw [Int.compare_eq_gt]
    omega
  unfold UnpackedFloat.ofNat UnpackedFloat.ofInt UnpackedFloat.normalize
  rw [isPositive]
  exact round_eq positive small

/-! ## Packing -/

section

variable {number : Nat} (positive : 0 < number) (small : number.log2 ≤ 52)

include positive small

/-- The first of the 53 bits of a mantissa is one. -/
theorem mantissa_bounds : 2 ^ 52 ≤ number * 2 ^ (52 - number.log2) ∧
    number * 2 ^ (52 - number.log2) < 2 ^ 53 := by
  have nonzero : number * 2 ^ (52 - number.log2) ≠ 0 :=
    Nat.pos_iff_ne_zero.mp (Nat.mul_pos positive (Nat.two_pow_pos _))
  apply (Nat.log2_eq_iff nonzero).mp
  rw [log2_mul_two_pow positive]
  omega

theorem pack_eq : UnpackedFloat.pack .binary64 (canonical positive) =
    packComponents .binary64 .positive (BitVec.ofNat 11 (number.log2 + 1023))
      (BitVec.ofNat 52 (number * 2 ^ (52 - number.log2))) := by
  have bits : (number * 2 ^ (52 - number.log2)).log2 + 1 = Format.binary64.mantissaBits := by
    rw [log2_mul_two_pow positive, Nat.add_sub_cancel' small]
    rfl
  have biased : ((number.log2 : Int) - 52 + Format.binary64.exponentBias +
      Format.binary64.mantissaBitsWithoutImplicit).toNat = number.log2 + 1023 := by
    change ((number.log2 : Int) - 52 + 1023 + 52).toNat = _
    omega
  have finite : ¬ 2 ^ Format.binary64.exponentBits ≤ number.log2 + 1023 + 1 := by
    change ¬ 2048 ≤ number.log2 + 1023 + 1
    omega
  unfold canonical UnpackedFloat.pack
  simp only [biased, if_neg finite, if_pos bits]

theorem unpack_pack : (Float.Model.pack (canonical positive)).unpack = canonical positive := by
  have bounds := mantissa_bounds positive small
  have exponent : (BitVec.ofNat 11 (number.log2 + 1023)).toNat = number.log2 + 1023 := by
    rw [BitVec.toNat_ofNat]
    omega
  have notLast : BitVec.ofNat 11 (number.log2 + 1023) ≠ -1#11 := by
    intro same
    have equal := congrArg BitVec.toNat same
    rw [exponent] at equal
    change number.log2 + 1023 = 2047 at equal
    omega
  have notFirst : BitVec.ofNat 11 (number.log2 + 1023) ≠ 0#11 := by
    intro same
    have equal := congrArg BitVec.toNat same
    rw [exponent] at equal
    change number.log2 + 1023 = 0 at equal
    omega
  have sign : ∀ (exponent : BitVec 11) (mantissa : BitVec 52),
      unpackSign (packComponents .binary64 .positive exponent mantissa) = 0#1 := by
    intro exponent mantissa
    change (0#1 ++ exponent ++ mantissa).extractLsb' 63 1 = 0#1
    rw [BitVec.extractLsb'_append_eq_of_le (by decide),
      BitVec.extractLsb'_append_eq_of_le (by decide)]
    rfl
  have mantissa : (1#1 ++ BitVec.ofNat 52 (number * 2 ^ (52 - number.log2))).toNat =
      number * 2 ^ (52 - number.log2) := by
    rw [BitVec.toNat_append, BitVec.toNat_ofNat, BitVec.toNat_ofNat, Nat.shiftLeft_eq]
    change 2 ^ 52 ||| number * 2 ^ (52 - number.log2) % 2 ^ 52 = _
    rw [Nat.or_comm, Nat.or_two_pow_eq_add_of_lt (Nat.mod_lt _ (Nat.two_pow_pos 52))]
    omega
  change UnpackedFloat.unpack .binary64 (UnpackedFloat.pack .binary64 (canonical positive)) = _
  rw [pack_eq positive small]
  unfold UnpackedFloat.unpack
  dsimp only
  rw [if_neg (by rw [unpackExponent_packComponents]; exact notLast),
    if_neg (by rw [unpackExponent_packComponents]; exact notFirst)]
  unfold canonical
  rw [UnpackedFloat.finite.injEq, sign, unpackMantissa_packComponents,
    unpackExponent_packComponents, exponent]
  refine ⟨rfl, mantissa, ?_⟩
  change ((number.log2 + 1023 : Nat) : Int) - (1023 + 52) = _
  omega

theorem toNat_pack : (Float.Model.pack (canonical positive)).toBits.toNat =
    (number.log2 + 1023) * 2 ^ 52 + number * 2 ^ (52 - number.log2) % 2 ^ 52 := by
  have fraction : number * 2 ^ (52 - number.log2) % 2 ^ 52 < 2 ^ 52 :=
    Nat.mod_lt _ (Nat.two_pow_pos 52)
  have exponent : (number.log2 + 1023) % 2 ^ 11 = number.log2 + 1023 :=
    Nat.mod_eq_of_lt (by omega)
  change (UnpackedFloat.pack .binary64 (canonical positive)).toNat = _
  rw [pack_eq positive small]
  change (0#1 ++ BitVec.ofNat 11 (number.log2 + 1023) ++
    BitVec.ofNat 52 (number * 2 ^ (52 - number.log2))).toNat = _
  simp only [BitVec.toNat_append, BitVec.toNat_ofNat, Nat.shiftLeft_eq]
  rw [Nat.zero_mod, Nat.zero_mul, Nat.zero_or, exponent, Nat.mul_comm]
  exact (Nat.two_pow_add_eq_or_of_lt fraction _).symm

/-- The magnitude that the bits of a whole number stand for. -/
theorem ofBits_pack : ∃ narrow, Binary.ofBits (Float.Model.pack (canonical positive)).toBits =
    ⟨number * 2 ^ (52 - number.log2), number.log2 - 52, narrow⟩ := by
  have bounds := mantissa_bounds positive small
  have bits := toNat_pack positive small
  generalize (Float.Model.pack (canonical positive)).toBits = packed at bits
  have exponent : ((packed >>> 52) &&& 0x7ff).toNat = number.log2 + 1023 := by
    rw [UInt64.toNat_and, UInt64.toNat_shiftRight, bits]
    change _ >>> 52 &&& 2 ^ 11 - 1 = _
    rw [Nat.and_two_pow_sub_one_eq_mod, Nat.shiftRight_eq_div_pow]
    omega
  have fraction : (packed &&& 0xfffffffffffff).toNat =
      number * 2 ^ (52 - number.log2) - 2 ^ 52 := by
    rw [UInt64.toNat_and, bits]
    change _ &&& 2 ^ 52 - 1 = _
    rw [Nat.and_two_pow_sub_one_eq_mod]
    omega
  unfold Binary.ofBits
  simp only [exponent, fraction]
  rw [if_neg (by omega)]
  have mantissa : 0x10000000000000 + (number * 2 ^ (52 - number.log2) - 2 ^ 52) =
      number * 2 ^ (52 - number.log2) := by omega
  have power : ((number.log2 + 1023 : Nat) : Int) - 1075 = number.log2 - 52 := by omega
  rw [mantissa, power]
  exact ⟨_, rfl⟩

end

/-! ## Conversions -/

/-- A whole number of at most 53 bits as a floating-point number. -/
def float {number : Nat} (positive : 0 < number) : Float :=
  .ofModel (.pack (canonical positive))

theorem toFloat_toUInt64 {number : Nat} (positive : 0 < number) (small : number.log2 ≤ 52) :
    number.toUInt64.toFloat = float positive := by
  have below : number < 2 ^ 53 :=
    (Nat.log2_lt (Nat.pos_iff_ne_zero.mp positive)).mp (Nat.lt_succ_of_le small)
  have word : number.toUInt64.toNat = number := by
    change number % 2 ^ 64 = number
    omega
  unfold UInt64.toFloat Float.Model.ofUInt64 UnpackedFloat.ofUInt64
  rw [word, ofNat_eq positive small]
  rfl

theorem toFloat_eq {number : Nat} (positive : 0 < number) (small : number.log2 ≤ 52) :
    number.toFloat = float positive := by
  have below : number < 2 ^ 53 :=
    (Nat.log2_lt (Nat.pos_iff_ne_zero.mp positive)).mp (Nat.lt_succ_of_le small)
  have product : number.toFloat = number.toUInt64.toFloat * Float.ofBits 0x3FF0000000000000 :=
    dif_pos ⟨below, by decide⟩
  have one : (Float.Model.ofBits 0x3FF0000000000000).unpack =
      .finite .positive (2 ^ 52) (-52) (by decide) := rfl
  rw [product, toFloat_toUInt64 positive small]
  change Float.ofModel (.pack (UnpackedFloat.mul .binary64 (Float.Model.pack
    (canonical positive)).unpack (Float.Model.ofBits 0x3FF0000000000000).unpack)) = _
  rw [one, unpack_pack positive small]
  change Float.ofModel (.pack (roundWithAccuracy .binary64 .positive
    (number * 2 ^ (52 - number.log2) * 2 ^ 52) (number.log2 - 52 + -52) .exact)) = _
  have exponent : (number.log2 : Int) - 52 + -52 = -(52 - number.log2 + 52 : Nat) := by omega
  rw [Nat.mul_assoc, ← Nat.pow_add, exponent, roundWithAccuracy_eq positive (by omega) small]
  rfl

theorem isFinite_float {number : Nat} (positive : 0 < number) (small : number.log2 ≤ 52) :
    (float positive).isFinite = true := by
  change (Float.Model.pack (canonical positive)).unpack.isFinite = true
  rw [unpack_pack positive small]
  rfl

theorem powerOfTen_one : Json.powerOfTen 1 = float (by decide : 0 < 10) := rfl

theorem divCore_ten {number : Nat} (positive : 0 < number * 10) (small : (number * 10).log2 ≤ 52) :
    divCore .binary64 (number * 10 * 2 ^ (52 - (number * 10).log2)) ((number * 10).log2 - 52)
        (10 * 2 ^ 49) (3 - 52) =
      (number * 2 ^ (56 - (number * 10).log2), -((56 - (number * 10).log2 : Nat) : Int),
        .exact) := by
  generalize isTens : (number * 10).log2 = bits at small ⊢
  have total : totalExponent (number * 10 * 2 ^ (52 - bits)) (bits - 52) = bits + 1 := by
    rw [totalExponent, log2_mul_two_pow positive, isTens]
    omega
  have ten : totalExponent (10 * 2 ^ 49) (3 - 52) = 4 := by decide
  have least : Format.binary64.minExponent = -1074 := rfl
  have width : (Format.binary64.mantissaBits : Int) = 53 := rfl
  have target : min ((bits : Int) - 52 - (3 - 52))
      (Format.binary64.targetExponent (bits + 1 - 4)) = -(56 - bits : Nat) := by
    rw [Format.targetExponent, least, width]
    omega
  have shift : ((bits : Int) - 52 - (3 - 52) - -(56 - bits : Nat)).toNat = 53 := by omega
  have product : number * 10 * 2 ^ (52 - bits) * 2 ^ 53 =
      number * 2 ^ (56 - bits) * (10 * 2 ^ 49) := by
    have powers : 2 ^ (52 - bits) * 2 ^ 53 = 2 ^ (56 - bits) * 2 ^ 49 := by
      rw [← Nat.pow_add, ← Nat.pow_add]
      congr 1
      omega
    calc number * 10 * 2 ^ (52 - bits) * 2 ^ 53
        = number * 10 * (2 ^ (52 - bits) * 2 ^ 53) := by rw [Nat.mul_assoc]
      _ = number * 2 ^ (56 - bits) * (10 * 2 ^ 49) := by rw [powers]; ring
  have divisor : 0 < 10 * 2 ^ 49 := by decide
  unfold divCore
  simp only [total, ten, target, shift, Nat.shiftLeft_eq]
  rw [product, Nat.mul_div_cancel _ divisor, Nat.mul_mod_left]
  rfl

/-- What is ten times a whole number is divided by ten without being rounded. -/
theorem float_div_ten {number : Nat} (positive : 0 < number) (tens : 0 < number * 10)
    (small : (number * 10).log2 ≤ 52) : float tens / Json.powerOfTen 1 = float positive := by
  have larger : number.log2 + 3 ≤ (number * 10).log2 ∧ (number * 10).log2 ≤ number.log2 + 4 := by
    have low := Nat.log2_self_le (Nat.pos_iff_ne_zero.mp positive)
    have high := @Nat.lt_log2_self number
    have nonzero := Nat.pos_iff_ne_zero.mp tens
    constructor
    · rw [Nat.le_log2 nonzero, Nat.pow_add]
      omega
    · rw [← Nat.lt_succ_iff, Nat.log2_lt nonzero, Nat.succ_eq_add_one, Nat.pow_add, Nat.pow_add]
      omega
  have ten := @unpack_pack 10 (by decide) (by decide)
  rw [powerOfTen_one]
  change Float.ofModel (.pack (UnpackedFloat.div .binary64 (Float.Model.pack
    (canonical tens)).unpack (Float.Model.pack (canonical (by decide : 0 < 10))).unpack)) = _
  rw [ten, unpack_pack tens small]
  change Float.ofModel (.pack (
    let quotient := divCore .binary64 (number * 10 * 2 ^ (52 - (number * 10).log2))
      ((number * 10).log2 - 52) (10 * 2 ^ 49) (3 - 52)
    roundWithAccuracy .binary64 .positive quotient.1 quotient.2.1 quotient.2.2)) = _
  simp only [divCore_ten tens small]
  rw [roundWithAccuracy_eq positive (by omega) (by omega)]
  rfl

end SourceIndex.WholeNumber
