import Mathlib.Data.Nat.Bitwise
import SourceIndex.Embedding.Vector

/-! Vectors and their bytes. Nothing of a vector is lost in its bytes, whatever numbers its bits
stand for; of bytes only those are lost that fill no whole word at the end. -/

namespace SourceIndex.Embedding

/-! ## Words -/

/-- Bits that are set above all bits of a number are added to it. -/
theorem toNat_or_shiftLeft (low : UInt32) (places : Nat) (free : low.toNat < 2 ^ places)
    (fits : places ≤ 24) (byte : UInt8) :
    (low ||| byte.toUInt32 <<< UInt32.ofNat places).toNat =
      low.toNat + 2 ^ places * byte.toNat := by
  have few : places < UInt32.size := by
    have size : UInt32.size = 4294967296 := rfl
    omega
  have bound : 2 ^ places * byte.toNat < 2 ^ 32 := by
    calc 2 ^ places * byte.toNat
        < 2 ^ places * 2 ^ 8 := Nat.mul_lt_mul_of_pos_left byte.toNat_lt (Nat.two_pow_pos places)
      _ = 2 ^ (places + 8) := (Nat.pow_add 2 places 8).symm
      _ ≤ 2 ^ 32 := Nat.pow_le_pow_right (by decide) (by omega)
  have shifted : (byte.toUInt32 <<< UInt32.ofNat places).toNat = 2 ^ places * byte.toNat := by
    rw [UInt32.toNat_shiftLeft, UInt8.toNat_toUInt32, UInt32.toNat_ofNat_of_lt' few,
      Nat.mod_eq_of_lt (by omega : places < 32), Nat.shiftLeft_eq, Nat.mul_comm,
      Nat.mod_eq_of_lt bound]
  rw [UInt32.toNat_or, shifted, Nat.lor_comm, ← Nat.two_pow_add_eq_or_of_lt free, Nat.add_comm]

/-- The first byte of a word counts least. -/
theorem toNat_wordOf (a b c d : UInt8) :
    (wordOf a b c d).toNat =
      a.toNat + 2 ^ 8 * b.toNat + 2 ^ 16 * c.toNat + 2 ^ 24 * d.toNat := by
  have first := a.toNat_lt
  have second := b.toNat_lt
  have third := c.toNat_lt
  have one : a.toUInt32.toNat = a.toNat := UInt8.toNat_toUInt32 a
  have two := toNat_or_shiftLeft a.toUInt32 8 (by omega) (by decide) b
  have three := toNat_or_shiftLeft _ 16 (by rw [two]; omega) (by decide) c
  have four := toNat_or_shiftLeft _ 24 (by rw [three, two]; omega) (by decide) d
  rw [three, two, one] at four
  exact four

theorem bytesOf_eq_iff {word : UInt32} {a b c d : UInt8} :
    bytesOf word = [a, b, c, d] ↔
      word.toNat % 2 ^ 8 = a.toNat ∧ word.toNat / 2 ^ 8 % 2 ^ 8 = b.toNat ∧
        word.toNat / 2 ^ 16 % 2 ^ 8 = c.toNat ∧ word.toNat / 2 ^ 24 % 2 ^ 8 = d.toNat := by
  have shifts : (8 : UInt32).toNat = 8 ∧ (16 : UInt32).toNat = 16 ∧ (24 : UInt32).toNat = 24 :=
    ⟨rfl, rfl, rfl⟩
  simp only [bytesOf, List.cons.injEq, and_true, ← UInt8.toNat_inj, UInt32.toNat_toUInt8,
    UInt32.toNat_shiftRight, shifts, Nat.shiftRight_eq_div_pow]

theorem bytesOf_wordOf (a b c d : UInt8) : bytesOf (wordOf a b c d) = [a, b, c, d] := by
  have first := a.toNat_lt
  have second := b.toNat_lt
  have third := c.toNat_lt
  have fourth := d.toNat_lt
  rw [bytesOf_eq_iff, toNat_wordOf]
  omega

theorem wordOf_bytesOf {word : UInt32} {a b c d : UInt8} (bytes : bytesOf word = [a, b, c, d]) :
    wordOf a b c d = word := by
  have size := word.toNat_lt
  rcases bytesOf_eq_iff.mp bytes with ⟨first, second, third, fourth⟩
  rw [← UInt32.toNat_inj, toNat_wordOf]
  omega

/-! ## Vectors -/

theorem ofBytes_toBytes (vector : Embedding) : ofBytes (toBytes vector) = vector := by
  induction vector with
  | nil => rfl
  | cons word vector induction =>
      have step : ofBytes (toBytes (word :: vector)) =
          wordOf _ _ _ _ :: ofBytes (toBytes vector) := rfl
      rw [step, induction, @wordOf_bytesOf word _ _ _ _ rfl]

/-- What a vector keeps of bytes, and the up to three bytes that it does not keep. -/
theorem toBytes_ofBytes_append (bytes : List UInt8) :
    ∃ tail, toBytes (ofBytes bytes) ++ tail = bytes ∧ tail.length < 4 ∧
      4 ∣ (toBytes (ofBytes bytes)).length := by
  fun_induction ofBytes bytes with
  | case1 a b c d rest induction =>
      rcases induction with ⟨tail, whole, short, words⟩
      have step : toBytes (wordOf a b c d :: ofBytes rest) =
          [a, b, c, d] ++ toBytes (ofBytes rest) := by
        rw [toBytes, List.flatMap_cons, bytesOf_wordOf]
        rfl
      refine ⟨tail, ?_, short, ?_⟩
      · rw [step, List.append_assoc, whole]
        rfl
      · rw [step, List.length_append]
        exact Nat.dvd_add (Nat.dvd_refl 4) words
  | case2 bytes few =>
      refine ⟨bytes, rfl, ?_, Nat.dvd_zero 4⟩
      match bytes, few with
      | [], _ | [_], _ | [_, _], _ | [_, _, _], _ => simp only [List.length]; decide
      | a :: b :: c :: d :: rest, few => exact absurd rfl (few a b c d rest)

/-- The bytes of a vector give it back, bit for bit, and the vector of any bytes gives the longest
front of them that consists of whole words. -/
theorem bytes_lose_only_tail (vector : Embedding) (bytes : List UInt8) :
    ofBytes (toBytes vector) = vector ∧
      toBytes (ofBytes bytes) <+: bytes ∧
      4 ∣ (toBytes (ofBytes bytes)).length ∧
      ∀ front, front <+: bytes → 4 ∣ front.length → front <+: toBytes (ofBytes bytes) := by
  rcases toBytes_ofBytes_append bytes with ⟨tail, whole, short, words⟩
  have isFront : toBytes (ofBytes bytes) <+: bytes := ⟨tail, whole⟩
  refine ⟨ofBytes_toBytes vector, isFront, words, ?_⟩
  intro front isOther otherWords
  have sizes := congrArg List.length whole
  rw [List.length_append] at sizes
  have within := isOther.length_le
  exact List.prefix_of_prefix_length_le isOther isFront (by omega)

example : toBytes (ofBytes [1, 2, 3, 4, 5]) = [1, 2, 3, 4] := by decide

end SourceIndex.Embedding
