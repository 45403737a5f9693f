import Mathlib.Data.Nat.Bitwise
import Mathlib.Logic.Function.Basic

/-!
# Bitmaps in arrays of words

Bit `i` of a bitmap is bit `i &&& (2 ^ shift - 1)` of word `i >>> shift`, for
words of `2 ^ shift` bits.
-/

namespace Valet.Library

variable {shift : Nat}

/-- A word with the bit of `i` set alone. -/
def bitOf (shift i : Nat) : BitVec (2 ^ shift) := 1#(2 ^ shift) <<< (i &&& (2 ^ shift - 1))

def setBit (words : Nat → BitVec (2 ^ shift)) (i : Nat) : Nat → BitVec (2 ^ shift) :=
  Function.update words (i >>> shift) (words (i >>> shift) ||| bitOf shift i)

def clearBit (words : Nat → BitVec (2 ^ shift)) (i : Nat) : Nat → BitVec (2 ^ shift) :=
  Function.update words (i >>> shift) (words (i >>> shift) &&& ~~~ bitOf shift i)

def testBit (words : Nat → BitVec (2 ^ shift)) (i : Nat) : Bool :=
  (words (i >>> shift) &&& bitOf shift i) != 0#(2 ^ shift)

/-- Set `count` bits one after the other. -/
def setBits (words : Nat → BitVec (2 ^ shift)) (start : Nat) : Nat → Nat → BitVec (2 ^ shift)
  | 0 => words
  | count + 1 => setBits (setBit words start) (start + 1) count

/-- Clear `count` bits one after the other. -/
def clearBits (words : Nat → BitVec (2 ^ shift)) (start : Nat) : Nat → Nat → BitVec (2 ^ shift)
  | 0 => words
  | count + 1 => clearBits (clearBit words start) (start + 1) count

theorem bitOf_eq (i : Nat) : bitOf shift i = BitVec.twoPow (2 ^ shift) (i % 2 ^ shift) := by
  rw [bitOf, Nat.and_two_pow_sub_one_eq_mod, BitVec.twoPow_eq]

theorem place_lt (i : Nat) : i % 2 ^ shift < 2 ^ shift := Nat.mod_lt _ (Nat.two_pow_pos shift)

theorem getLsbD_bitOf (i place : Nat) :
    (bitOf shift i).getLsbD place = decide (place = i % 2 ^ shift) := by
  rw [bitOf_eq, BitVec.getLsbD_twoPow]
  simp [place_lt, eq_comm]

theorem testBit_eq (words : Nat → BitVec (2 ^ shift)) (i : Nat) :
    testBit words i = (words (i >>> shift)).getLsbD (i % 2 ^ shift) := by
  rw [testBit, bitOf_eq, BitVec.and_twoPow]
  cases (words (i >>> shift)).getLsbD (i % 2 ^ shift) with
  | false => simp
  | true =>
      have one : (BitVec.twoPow (2 ^ shift) (i % 2 ^ shift)).getLsbD (i % 2 ^ shift) = true := by
        rw [BitVec.getLsbD_twoPow]
        simp [place_lt]
      rw [if_pos rfl, bne_iff_ne]
      intro zero
      rw [zero] at one
      simp at one

/-- Word and place tell the bit. -/
theorem eq_of_word_of_place {i j : Nat} (word : i >>> shift = j >>> shift)
    (place : i % 2 ^ shift = j % 2 ^ shift) : i = j := by
  rw [Nat.shiftRight_eq_div_pow, Nat.shiftRight_eq_div_pow] at word
  rw [← Nat.div_add_mod i (2 ^ shift), ← Nat.div_add_mod j (2 ^ shift), word, place]

theorem testBit_setBit (words : Nat → BitVec (2 ^ shift)) (i j : Nat) :
    testBit (setBit words i) j = (decide (j = i) || testBit words j) := by
  rw [testBit_eq, testBit_eq, setBit]
  rcases eq_or_ne (j >>> shift) (i >>> shift) with word | apart
  · rw [word, Function.update_self, BitVec.getLsbD_or, getLsbD_bitOf, Bool.or_comm]
    rcases eq_or_ne j i with rfl | different
    · simp
    · have places : j % 2 ^ shift ≠ i % 2 ^ shift :=
        fun place => different (eq_of_word_of_place word place)
      simp only [different, places, decide_false, Bool.false_or]
  · have different : j ≠ i := fun same => apart (congrArg (· >>> shift) same)
    simp [Function.update_of_ne apart, different]

theorem testBit_clearBit (words : Nat → BitVec (2 ^ shift)) (i j : Nat) :
    testBit (clearBit words i) j = (!decide (j = i) && testBit words j) := by
  rw [testBit_eq, testBit_eq, clearBit]
  rcases eq_or_ne (j >>> shift) (i >>> shift) with word | apart
  · rw [word, Function.update_self, BitVec.getLsbD_and, BitVec.getLsbD_not, getLsbD_bitOf,
      Bool.and_comm]
    rcases eq_or_ne j i with rfl | different
    · simp
    · have places : j % 2 ^ shift ≠ i % 2 ^ shift :=
        fun place => different (eq_of_word_of_place word place)
      simp [different, places, place_lt]
  · have different : j ≠ i := fun same => apart (congrArg (· >>> shift) same)
    simp [Function.update_of_ne apart, different]

/-- Setting a range sets the bits of the range and keeps the others. -/
theorem testBit_setBits (words : Nat → BitVec (2 ^ shift)) (start count j : Nat) :
    testBit (setBits words start count) j =
      (decide (start ≤ j ∧ j < start + count) || testBit words j) := by
  induction count generalizing words start with
  | zero =>
      have none : ¬ (start ≤ j ∧ j < start + 0) := by omega
      simp only [setBits, none, decide_false, Bool.false_or]
  | succ count ih =>
      rw [setBits, ih, testBit_setBit, ← Bool.or_assoc, ← Bool.decide_or]
      congr 2
      rw [eq_iff_iff]
      omega

/-- Clearing a range clears the bits of the range and keeps the others. -/
theorem testBit_clearBits (words : Nat → BitVec (2 ^ shift)) (start count j : Nat) :
    testBit (clearBits words start count) j =
      (!decide (start ≤ j ∧ j < start + count) && testBit words j) := by
  induction count generalizing words start with
  | zero =>
      have none : ¬ (start ≤ j ∧ j < start + 0) := by omega
      simp only [clearBits, none, decide_false, Bool.not_false, Bool.true_and]
  | succ count ih =>
      rw [clearBits, ih, testBit_clearBit, ← Bool.and_assoc, ← Bool.not_or, ← Bool.decide_or]
      congr 3
      rw [eq_iff_iff]
      omega

end Valet.Library
