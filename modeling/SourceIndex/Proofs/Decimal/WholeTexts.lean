import SourceIndex.Proofs.Decimal.WholeNumbers
import SourceIndex.Proofs.Json.RoundTrip

/-! Whole numbers as texts with a fraction. They are written with all their digits and a zero behind
the point, and read back as they were. -/

namespace SourceIndex.WholeNumber

/-! ## The shortest decimal -/

/-- Whether a decimal stands for a whole number, some zeros at its end being left out. -/
def IsWritten (number : Nat) (decimal : Decimal) : Prop :=
  ∃ zeros : Nat, decimal.exponent = zeros ∧ decimal.digits * 10 ^ zeros = number

theorem compareScaled_eq (count zeros mantissa places : Nat) :
    compareScaled count zeros mantissa (-places) =
      compare (count * 10 ^ zeros * 2 ^ places) mantissa := by
  unfold compareScaled
  have noZeros : (-(zeros : Int)).toNat = 0 := by omega
  have noPlaces : (-(places : Int)).toNat = 0 := by omega
  have thePlaces : (- -(places : Int)).toNat = places := by omega
  rw [noZeros, noPlaces, thePlaces, Int.toNat_natCast]
  change compare (count * 10 ^ zeros * 2 ^ places) (mantissa * 2 ^ 0 * 10 ^ 0) = _
  rw [Nat.pow_zero, Nat.pow_zero, Nat.mul_one, Nat.mul_one]

section

variable {number : Nat} (positive : 0 < number) (small : number.log2 ≤ 48) (narrow : Bool)

/-- The binary number that the bits of a whole number stand for. -/
def binary (number : Nat) (narrow : Bool) : Binary :=
  ⟨number * 2 ^ (52 - number.log2), number.log2 - 52, narrow⟩

include positive small

/-- No other whole number is so near to one that it could be read as that. -/
theorem readsBack_iff (count zeros : Nat) :
    (binary number narrow).readsBack ⟨count, zeros⟩ = true ↔ count * 10 ^ zeros = number := by
  have exponent : (number.log2 : Int) - 52 - 2 = -(54 - number.log2 : Nat) := by omega
  have scaled : 4 * (number * 2 ^ (52 - number.log2)) = number * 2 ^ (54 - number.log2) := by
    have places : 54 - number.log2 = 52 - number.log2 + 2 := by omega
    rw [places, Nat.pow_add]
    ring
  have wide : 2 ^ 2 ≤ 2 ^ (54 - number.log2) := Nat.pow_le_pow_right (by decide) (by omega)
  unfold Binary.readsBack binary
  simp only [exponent, compareScaled_eq, scaled]
  generalize count * 10 ^ zeros = candidate
  generalize 2 ^ (54 - number.log2) = width at wide ⊢
  -- One unit of the candidate is more than the distance of either midpoint.
  rcases Nat.lt_trichotomy candidate number with less | rfl | more
  · have apart : candidate * width + width ≤ number * width := by
      rw [← Nat.succ_mul]
      exact Nat.mul_le_mul_right width less
    have below : compare (candidate * width)
        (if narrow then number * width - 1 else number * width - 2) = .lt := by
      rw [Nat.compare_eq_lt]
      split <;> omega
    simp only [below]
    simp [Nat.ne_of_lt less]
  · have above : compare (candidate * width)
        (if narrow then candidate * width - 1 else candidate * width - 2) = .gt := by
      have some : 0 < candidate * width := Nat.mul_pos positive (by omega)
      rw [Nat.compare_eq_gt]
      split <;> omega
    have below : compare (candidate * width) (candidate * width + 2) = .lt := by
      rw [Nat.compare_eq_lt]
      omega
    simp only [above, below]
    simp
  · have apart : number * width + width ≤ candidate * width := by
      rw [← Nat.succ_mul]
      exact Nat.mul_le_mul_right width more
    have above : compare (candidate * width) (number * width + 2) = .gt := by
      rw [Nat.compare_eq_gt]
      omega
    simp only [above]
    simp [Nat.ne_of_gt more]

theorem onGrid?_eq (zeros : Nat) : (binary number narrow).onGrid? zeros =
    if number / 10 ^ zeros * 10 ^ zeros = number then some ⟨number / 10 ^ zeros, zeros⟩
    else none := by
  have below : (binary number narrow).floorScaled zeros = number / 10 ^ zeros := by
    have places : (-((number.log2 : Int) - 52)).toNat = 52 - number.log2 := by omega
    have noPlaces : ((number.log2 : Int) - 52).toNat = 0 := by omega
    have noZeros : (-(zeros : Int)).toNat = 0 := by omega
    unfold Binary.floorScaled binary
    simp only [places, noPlaces, noZeros, Int.toNat_natCast]
    change number * 2 ^ (52 - number.log2) * 1 * 1 / (2 ^ (52 - number.log2) * 10 ^ zeros) = _
    rw [Nat.mul_one, Nat.mul_one, Nat.mul_comm number,
      Nat.mul_div_mul_left _ _ (Nat.two_pow_pos _)]
  have above : (binary number narrow).readsBack ⟨number / 10 ^ zeros + 1, zeros⟩ = false := by
    have beyond : number < (number / 10 ^ zeros + 1) * 10 ^ zeros := by
      rw [Nat.succ_mul]
      exact Nat.lt_div_mul_add (Nat.pow_pos (by decide))
    rw [← Bool.not_eq_true, readsBack_iff positive small]
    exact Nat.ne_of_gt beyond
  have down := readsBack_iff positive small narrow (number / 10 ^ zeros) zeros
  unfold Binary.onGrid?
  simp only [below, above, ← down]
  cases (binary number narrow).readsBack ⟨number / 10 ^ zeros, zeros⟩ <;> rfl

/-- The search comes upon the number at the latest on the grid of all whole numbers. -/
theorem exists_search (zeros tries : Nat) (enough : zeros < tries) :
    ∃ decimal, (binary number narrow).search tries zeros = some decimal ∧
      IsWritten number decimal := by
  induction zeros generalizing tries with
  | zero =>
      rcases Nat.exists_eq_add_of_lt enough with ⟨later, rfl⟩
      have here := onGrid?_eq positive small narrow 0
      rw [Nat.pow_zero, Nat.div_one, Nat.mul_one, if_pos rfl] at here
      refine ⟨⟨number, (0 : Nat)⟩, ?_, 0, rfl, Nat.mul_one number⟩
      rw [Binary.search, here]
      rfl
  | succ zeros induction =>
      rcases Nat.exists_eq_add_of_lt enough with ⟨later, rfl⟩
      have here := onGrid?_eq positive small narrow (zeros + 1)
      rw [Binary.search]
      split at here
      · next isHere =>
          rw [here]
          exact ⟨_, rfl, zeros + 1, rfl, isHere⟩
      · have next : ((zeros + 1 : Nat) : Int) - 1 = zeros := by omega
        rw [here, next]
        exact induction _ (by omega)

omit positive small in
theorem IsWritten.strip {decimal : Decimal} (written : IsWritten number decimal) (limit : Nat) :
    IsWritten number (decimal.strip limit) := by
  induction limit generalizing decimal with
  | zero => exact written
  | succ limit induction =>
      rw [Decimal.strip]
      split
      · next divides =>
          rcases written with ⟨zeros, exponent, isNumber⟩
          apply induction
          refine ⟨zeros + 1, by rw [exponent]; rfl, ?_⟩
          have last : decimal.digits % 10 = 0 := by
            simp only [Bool.and_eq_true, decide_eq_true_eq] at divides
            exact divides.1
          rw [Nat.pow_succ, ← isNumber, Nat.mul_comm _ 10, ← Nat.mul_assoc,
            Nat.div_mul_cancel (Nat.dvd_of_mod_eq_zero last)]
      · exact written

theorem isWritten_shortest : IsWritten number (binary number narrow).shortest := by
  have top : (((number * 2 ^ (52 - number.log2)).log2 : Int) + (number.log2 - 52)) * 30103 / 100000
      + 2 = (number.log2 * 30103 / 100000 + 2 : Nat) := by
    rw [log2_mul_two_pow positive]
    omega
  rcases exists_search positive small narrow (number.log2 * 30103 / 100000 + 2) 24 (by omega) with
    ⟨decimal, found, written⟩
  have isFound : (binary number narrow).shortest = decimal.strip 24 := by
    unfold Binary.shortest
    simp only [binary, top]
    simp only [binary] at found
    rw [found]
    rfl
  rw [isFound]
  exact written.strip 24

end

/-! ## Digits -/

theorem toDigits_mul_pow {number : Nat} (positive : 0 < number) (zeros : Nat) :
    Nat.toDigits 10 (number * 10 ^ zeros) =
      Nat.toDigits 10 number ++ List.replicate zeros '0' := by
  induction zeros with
  | zero => rw [Nat.pow_zero, Nat.mul_one, List.replicate_zero, List.append_nil]
  | succ zeros induction =>
      have next : number * 10 ^ (zeros + 1) = 10 * (number * 10 ^ zeros) + 0 := by
        rw [Nat.pow_succ]
        ring
      have larger : 0 < number * 10 ^ zeros := Nat.mul_pos positive (Nat.pow_pos (by decide))
      rw [next, ← Nat.toDigits_append_toDigits (by decide) larger (by decide), induction,
        List.replicate_succ', List.append_assoc]
      rfl

theorem render_eq {number : Nat} (positive : 0 < number) (small : number < 10 ^ 16)
    {decimal : Decimal} (written : IsWritten number decimal) :
    decimal.render = Nat.toDigits 10 number ++ ['.', '0'] := by
  rcases written with ⟨zeros, exponent, isNumber⟩
  have some : 0 < decimal.digits := by
    apply Nat.pos_of_ne_zero
    intro none
    rw [none, Nat.zero_mul] at isNumber
    omega
  have digits := toDigits_mul_pow some zeros
  rw [isNumber] at digits
  have length : (Nat.toDigits 10 decimal.digits).length + zeros =
      (Nat.toDigits 10 number).length := by
    rw [digits, List.length_append, List.length_replicate]
  have bounds : 0 < (Nat.toDigits 10 number).length ∧ (Nat.toDigits 10 number).length ≤ 16 :=
    ⟨Nat.length_toDigits_pos, (Nat.length_toDigits_le_iff (by decide) (by decide)).mpr small⟩
  have point : ((Nat.toDigits 10 decimal.digits).length : Int) + zeros =
      (Nat.toDigits 10 number).length := by
    rw [← length]
    rfl
  unfold Decimal.render
  simp only [exponent, point, Int.toNat_natCast, ← digits]
  rw [if_pos (by omega), placePoint, List.take_length, List.drop_length]
  rfl

theorem renderFloat_eq {number : Nat} (positive : 0 < number) (small : number < 2 ^ 49) :
    Decimal.renderFloat (float positive) = Nat.toDigits 10 number ++ ['.', '0'] := by
  have log2 : number.log2 ≤ 48 :=
    Nat.lt_succ_iff.mp ((Nat.log2_lt (Nat.pos_iff_ne_zero.mp positive)).mpr small)
  have bounds := mantissa_bounds positive (Nat.le_trans log2 (by decide))
  have bits := toNat_pack positive (Nat.le_trans log2 (by decide))
  rcases ofBits_pack positive (Nat.le_trans log2 (by decide)) with ⟨narrow, magnitude⟩
  have unsigned : (float positive).toBits >>> 63 ≠ 1 := by
    intro signed
    have shifted := congrArg UInt64.toNat signed
    rw [UInt64.toNat_shiftRight] at shifted
    change (Float.Model.pack (canonical positive)).toBits.toNat >>> 63 = 1 at shifted
    rw [bits, Nat.shiftRight_eq_div_pow] at shifted
    omega
  have isBinary : Binary.ofBits (float positive).toBits = binary number narrow := magnitude
  have nonzero : (binary number narrow).mantissa ≠ 0 := by
    change number * 2 ^ (52 - number.log2) ≠ 0
    omega
  unfold Decimal.renderFloat
  simp only [isBinary, if_neg unsigned, if_neg nonzero, List.nil_append]
  exact render_eq positive (by omega) (isWritten_shortest positive log2 narrow)

/-! ## Reading -/

open Json in
theorem numeralRest_fraction {number : Nat} (positive : 0 < number) :
    numeralRest false (Nat.toDigits 10 number ++ ['.', '0']) =
      .ok (⟨false, Nat.toDigits 10 number, some ['0'], none⟩, []) := by
  have digits : ∀ character ∈ Nat.toDigits 10 number, isDigit character = true :=
    fun character member => isDigit_of_mem_toDigits member
  have whole : digitsRest (Nat.toDigits 10 number ++ ['.', '0']) =
      .ok (Nat.toDigits 10 number, ['.', '0']) := by
    unfold digitsRest
    rw [List.takeWhile_append_of_pos digits, List.dropWhile_append_of_pos digits]
    have taken : ['.', '0'].takeWhile isDigit = [] := rfl
    have dropped : ['.', '0'].dropWhile isDigit = ['.', '0'] := rfl
    simp [taken, dropped, Nat.toDigits_ne_nil]
  have plain : ¬ ((Nat.toDigits 10 number).head? = some '0' &&
      (Nat.toDigits 10 number).length > 1) = true := by
    simp [head?_toDigits_ne positive]
  refine bind_eq_ok.mpr ⟨_, whole, ?_⟩
  simp only [if_neg plain]
  rfl

theorem takeWhole_eq {digits : List Char} {significand : Nat} :
    digits.foldl (fun value digit => value * 10 + Json.digitValue digit) significand ≤
      Json.wordMax →
    Json.takeWhole significand digits =
      (digits.foldl (fun value digit => value * 10 + Json.digitValue digit) significand, 0) := by
  have grows : ∀ (digits : List Char) (significand : Nat), significand ≤
      digits.foldl (fun value digit => value * 10 + Json.digitValue digit) significand := by
    intro digits
    induction digits with
    | nil => exact fun significand => Nat.le_refl significand
    | cons digit digits induction =>
        intro significand
        exact Nat.le_trans (by omega) (induction (significand * 10 + Json.digitValue digit))
  induction digits generalizing significand with
  | nil => exact fun _ => rfl
  | cons digit digits induction =>
      intro fits
      have next := Nat.le_trans (grows digits (significand * 10 + Json.digitValue digit)) fits
      rw [Json.takeWhole, if_neg (Nat.not_lt.mpr next)]
      exact induction fits

theorem float?_eq {number : Nat} (positive : 0 < number) (small : number < 2 ^ 49) :
    Json.Numeral.float? ⟨false, Nat.toDigits 10 number, some ['0'], none⟩ =
      some (float positive) := by
  have whole : Json.takeWhole 0 (Nat.toDigits 10 number) = (number, 0) := by
    have value := Json.digitsValue_toDigits number
    unfold Json.Numeral.digitsValue at value
    rw [takeWhole_eq, value]
    rw [value, Json.wordMax]
    omega
  have fraction : Json.takeFraction number ['0'] = (number * 10, 1) := by
    have fits : ¬ number * 10 + Json.digitValue '0' > Json.wordMax := by
      change ¬ number * 10 + 0 > 0xffffffffffffffff
      omega
    rw [Json.takeFraction]
    simp only [if_neg fits]
    rfl
  have tens : 0 < number * 10 := Nat.mul_pos positive (by decide)
  have log2 : (number * 10).log2 ≤ 52 :=
    Nat.lt_succ_iff.mp ((Nat.log2_lt (Nat.pos_iff_ne_zero.mp tens)).mpr (by omega))
  unfold Json.Numeral.float?
  simp only [whole, Option.getD_some, fraction]
  change (Json.scale? (number * 10) (-1)).map _ = _
  have scaled : Json.scale? (number * 10) (-1) =
      some ((number * 10).toUInt64.toFloat / Json.powerOfTen 1) := by
    unfold Json.scale?
    rw [if_neg (by decide), Json.shrink]
    rfl
  rw [scaled, toFloat_toUInt64 tens log2, float_div_ten positive tens log2]
  rfl

end SourceIndex.WholeNumber

namespace SourceIndex.Json

/-- Whole numbers that are written with a fraction are read back, as long as they are small. -/
theorem isLossless_toFloat {number : Nat} (positive : 0 < number) (small : number < 2 ^ 49) :
    (decimal number.toFloat).IsLossless := by
  have log2 : number.log2 ≤ 52 := by
    have bits := (Nat.log2_lt (Nat.pos_iff_ne_zero.mp positive)).mpr small
    omega
  have written : writeDecimal number.toFloat = Nat.toDigits 10 number ++ ['.', '0'] := by
    rw [WholeNumber.toFloat_eq positive log2, writeDecimal,
      if_pos (WholeNumber.isFinite_float positive log2), WholeNumber.renderFloat_eq positive small]
  have spelled : Spells (decimal number.toFloat) (Nat.toDigits 10 number ++ ['.', '0']) := by
    refine Spells.number (WholeNumber.numeralRest_fraction positive) ?_
    have noInteger : Numeral.integer? ⟨false, Nat.toDigits 10 number, some ['0'], none⟩ = none :=
      rfl
    rw [Draft.value?, noInteger, WholeNumber.float?_eq positive small,
      WholeNumber.toFloat_eq positive log2]
    rfl
  constructor
  change read? (String.ofList (writeDecimal number.toFloat)) = _
  rw [written]
  exact read?_of_spells spelled

end SourceIndex.Json
