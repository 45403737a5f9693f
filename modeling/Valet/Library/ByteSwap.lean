import Mathlib.Data.Nat.Bitwise

/-!
# Reversing the bytes of a word

A word of four bytes and one of two such words.  Reversing all bytes of the long word
is to reverse each half and to exchange the halves.
-/

namespace Valet.Library

/-- The four bytes of a number in the other order. -/
def reverseBytes (n : Nat) : Nat :=
  n % 256 * 256 ^ 3 + n / 256 % 256 * 256 ^ 2 + n / 256 ^ 2 % 256 * 256 + n / 256 ^ 3

theorem reverseBytes_bytes {a b c d : Nat} (first : a < 256) (second : b < 256)
    (third : c < 256) :
    reverseBytes (a + 256 * (b + 256 * (c + 256 * d))) =
      d + 256 * (c + 256 * (b + 256 * a)) := by
  have low : (a + 256 * (b + 256 * (c + 256 * d))) % 256 = a ∧
      (b + 256 * (c + 256 * d)) % 256 = b ∧ (c + 256 * d) % 256 = c := by omega
  have one : (a + 256 * (b + 256 * (c + 256 * d))) / 256 = b + 256 * (c + 256 * d) := by omega
  have two : (a + 256 * (b + 256 * (c + 256 * d))) / 256 ^ 2 = c + 256 * d := by omega
  have three : (a + 256 * (b + 256 * (c + 256 * d))) / 256 ^ 3 = d := by omega
  rw [reverseBytes, one, two, three, low.1, low.2.1, low.2.2]
  omega

theorem reverseBytes_lt {n : Nat} (bound : n < 2 ^ 32) : reverseBytes n < 2 ^ 32 := by
  unfold reverseBytes
  omega

theorem reverseBytes_reverseBytes {n : Nat} (bound : n < 2 ^ 32) :
    reverseBytes (reverseBytes n) = n := by
  obtain ⟨a, b, c, d, first, second, third, fourth, rfl⟩ :
      ∃ a b c d, a < 256 ∧ b < 256 ∧ c < 256 ∧ d < 256 ∧
        n = a + 256 * (b + 256 * (c + 256 * d)) := by
    refine ⟨n % 256, n / 256 % 256, n / 256 / 256 % 256, n / 256 / 256 / 256, ?_⟩
    omega
  rw [reverseBytes_bytes first second third, reverseBytes_bytes fourth third second]

/-- A word with its bytes in the other order. -/
def swab32 (x : UInt32) : UInt32 := UInt32.ofNat (reverseBytes x.toNat)

theorem toNat_swab32 (x : UInt32) : (swab32 x).toNat = reverseBytes x.toNat := by
  rw [swab32, UInt32.toNat_ofNat', Nat.mod_eq_of_lt (reverseBytes_lt x.toNat_lt)]

@[simp] theorem swab32_swab32 (x : UInt32) : swab32 (swab32 x) = x := by
  apply UInt32.toNat_inj.mp
  rw [toNat_swab32, toNat_swab32, reverseBytes_reverseBytes x.toNat_lt]

@[simp] theorem swab32_zero : swab32 0 = 0 := rfl

theorem swab32_eq_zero {x : UInt32} : swab32 x = 0 ↔ x = 0 := by
  constructor
  · intro zero
    rw [← swab32_swab32 x, zero, swab32_zero]
  · rintro rfl
    exact swab32_zero

/-- The long word of two halves. -/
def join (high low : UInt32) : UInt64 := (high.toUInt64 <<< 32) ||| low.toUInt64

theorem toNat_join (high low : UInt32) :
    (join high low).toNat = high.toNat * 2 ^ 32 + low.toNat := by
  have highBound := high.toNat_lt
  have lowBound := low.toNat_lt
  have shift : (32 : UInt64).toNat % 64 = 32 := rfl
  rw [join, UInt64.toNat_or, UInt64.toNat_shiftLeft, UInt32.toNat_toUInt64,
    UInt32.toNat_toUInt64, shift, Nat.mod_eq_of_lt (by rw [Nat.shiftLeft_eq]; omega),
    ← Nat.shiftLeft_add_eq_or_of_lt lowBound, Nat.shiftLeft_eq]

@[simp] theorem low_join (high low : UInt32) : (join high low).toUInt32 = low := by
  apply UInt32.toNat_inj.mp
  have bound := low.toNat_lt
  rw [UInt64.toNat_toUInt32, toNat_join]
  omega

@[simp] theorem high_join (high low : UInt32) : ((join high low) >>> 32).toUInt32 = high := by
  apply UInt32.toNat_inj.mp
  have highBound := high.toNat_lt
  have lowBound := low.toNat_lt
  have shift : (32 : UInt64).toNat % 64 = 32 := rfl
  rw [UInt64.toNat_toUInt32, UInt64.toNat_shiftRight, toNat_join, shift,
    Nat.shiftRight_eq_div_pow]
  omega

@[simp] theorem join_halves (x : UInt64) : join (x >>> 32).toUInt32 x.toUInt32 = x := by
  apply UInt64.toNat_inj.mp
  have bound := x.toNat_lt
  have shift : (32 : UInt64).toNat % 64 = 32 := rfl
  rw [toNat_join, UInt64.toNat_toUInt32, UInt64.toNat_toUInt32, UInt64.toNat_shiftRight, shift,
    Nat.shiftRight_eq_div_pow]
  omega

/-- Shifting the low half up and down again cuts the high half off. -/
theorem low_shifts (x : UInt64) : ((x <<< 32) >>> 32).toUInt32 = x.toUInt32 := by
  apply UInt32.toNat_inj.mp
  have bound := x.toNat_lt
  have shift : (32 : UInt64).toNat % 64 = 32 := rfl
  rw [UInt64.toNat_toUInt32, UInt64.toNat_toUInt32, UInt64.toNat_shiftRight,
    UInt64.toNat_shiftLeft, shift, Nat.shiftRight_eq_div_pow, Nat.shiftLeft_eq]
  omega

/-- Masking the low half. -/
theorem low_and (x : UInt64) : (x &&& 0xFFFFFFFF).toUInt32 = x.toUInt32 := by
  apply UInt32.toNat_inj.mp
  have mask : (0xFFFFFFFF : UInt64).toNat = 2 ^ 32 - 1 := rfl
  rw [UInt64.toNat_toUInt32, UInt64.toNat_toUInt32, UInt64.toNat_and, mask,
    Nat.and_two_pow_sub_one_eq_mod, Nat.mod_mod]

end Valet.Library
