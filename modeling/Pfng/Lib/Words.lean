import Mathlib.Algebra.Group.Nat.Defs
import Mathlib.Data.Nat.Bitwise
import Mathlib.Tactic.Common

/-! Masks of fixed-width words, written as natural numbers, and words as their fields and bytes. -/
namespace Words

/-- Clearing the low `k` bits of a `w`-bit word rounds it down to a multiple of `2^k`. -/
theorem and_not_low {w k x : ℕ} (hx : x < 2^w) :
    x &&& (2^w - 1 - (2^k - 1)) = x / 2^k * 2^k := by
  apply Nat.eq_of_testBit_eq
  intro i
  by_cases hk : k ≤ w
  · have low : 2^k - 1 < 2^w := by
      have := Nat.pow_le_pow_right (n := 2) (by omega) hk
      have := Nat.two_pow_pos k
      omega
    rw [show 2^w - 1 - (2^k - 1) = 2^w - (2^k - 1 + 1) by omega, Nat.testBit_and,
      Nat.testBit_two_pow_sub_succ low, Nat.testBit_two_pow_sub_one, Nat.testBit_mul_two_pow,
      Nat.testBit_div_two_pow]
    by_cases hi : k ≤ i
    · by_cases small : i < w
      · simp [hi, small, Nat.not_lt.mpr hi, Nat.sub_add_cancel hi]
      · have : x.testBit i = false := Nat.testBit_lt_two_pow
          (Nat.lt_of_lt_of_le hx (Nat.pow_le_pow_right (by omega) (by omega)))
        simp [hi, this, Nat.sub_add_cancel hi]
    · simp [hi, Nat.lt_of_not_le hi]
  · have small : x < 2^k := Nat.lt_trans hx (Nat.pow_lt_pow_right (by omega) (by omega))
    have := Nat.pow_le_pow_right (n := 2) (by omega) (Nat.le_of_not_le hk)
    rw [show 2^w - 1 - (2^k - 1) = 0 by omega, Nat.div_eq_of_lt small]
    simp

theorem and_pred_eq_zero_iff {value : ℕ} :
    (value ≠ 0 ∧ value &&& (value - 1) = 0) ↔ ∃ k, value = 2^k :=
  Nat.ne_zero_and_sub_one_eq_zero_iff_isPowerOfTwo

/-- Rounding up to a multiple of `m`: the result is the least multiple that is not below. -/
theorem round_up_least {v m x : ℕ} (hx : m ∣ x) (low : v ≤ x) : (v + m - 1) / m * m ≤ x := by
  obtain ⟨c, rfl⟩ := hx
  rcases Nat.eq_zero_or_pos m with rfl | pos
  · simp
  · have : (v + m - 1) / m ≤ c := by
      rw [Nat.div_le_iff_le_mul pos]
      rw [Nat.mul_comm] at low
      omega
    rw [Nat.mul_comm m]
    exact Nat.mul_le_mul_right m this

theorem le_round_up {v m : ℕ} (pos : 0 < m) : v ≤ (v + m - 1) / m * m := by
  have := Nat.div_add_mod' (v + m - 1) m
  have := Nat.mod_lt (v + m - 1) pos
  omega

section Fields

variable {n s : ℕ} {low high : BitVec n}

theorem getLsbD_small (small : low.toNat < 2^s) {i : ℕ} (hi : s ≤ i) : low.getLsbD i = false :=
  Nat.testBit_lt_two_pow (Nat.lt_of_lt_of_le small (Nat.pow_le_pow_right (by decide) hi))

theorem fields_and_mask (small : low.toNat < 2^s) :
    (low ||| high <<< s) &&& BitVec.ofNat n (2^s - 1) = low := by
  apply BitVec.eq_of_getLsbD_eq
  intro i hi
  rw [BitVec.getLsbD_and, BitVec.getLsbD_or, BitVec.getLsbD_shiftLeft, BitVec.getLsbD_ofNat,
    Nat.testBit_two_pow_sub_one]
  by_cases below : i < s
  · simp [below, hi]
  · simp [below, getLsbD_small small (Nat.le_of_not_lt below)]

theorem fields_ushiftRight (small : low.toNat < 2^s) (room : high.toNat < 2^(n - s)) :
    (low ||| high <<< s) >>> s = high := by
  apply BitVec.eq_of_getLsbD_eq
  intro i hi
  rw [BitVec.getLsbD_ushiftRight, BitVec.getLsbD_or, BitVec.getLsbD_shiftLeft,
    getLsbD_small small (Nat.le_add_right s i), Nat.add_sub_cancel_left]
  by_cases inside : s + i < n
  · simp [inside]
  · simp [inside, getLsbD_small room (show n - s ≤ i by omega)]

end Fields

section Bytes

/-- Byte `i` in memory. -/
def byteOf (w : BitVec 32) (i : ℕ) : BitVec 8 := (w >>> (8 * i)).setWidth 8

def ofBytes (b : ℕ → BitVec 8) : BitVec 32 := b 3 ++ b 2 ++ b 1 ++ b 0

variable {v w m : BitVec 32} {b : ℕ → BitVec 8} {i j s : ℕ}

theorem getLsbD_byteOf (hj : j < 8) : (byteOf w i).getLsbD j = w.getLsbD (8 * i + j) := by
  rw [byteOf, BitVec.getLsbD_setWidth, BitVec.getLsbD_ushiftRight, decide_eq_true hj, Bool.true_and]

theorem ofBytes_byteOf (w : BitVec 32) {b : ℕ → BitVec 8} (bytes : ∀ i < 4, b i = byteOf w i) :
    ofBytes b = w := by
  unfold ofBytes
  rw [bytes 0 (by decide), bytes 1 (by decide), bytes 2 (by decide), bytes 3 (by decide)]
  apply BitVec.eq_of_getLsbD_eq
  intro i hi
  simp only [byteOf, BitVec.getLsbD_append, BitVec.getLsbD_setWidth, BitVec.getLsbD_ushiftRight]
  split
  · next low => simp [low]
  split
  · next low =>
      rw [show 8 * 1 + (i - 8) = i by omega]
      simp [low]
  split
  · next low =>
      rw [show 8 * 2 + (i - 8 - 8) = i by omega]
      simp [low]
  · have top : i - 8 - 8 - 8 < 8 := by omega
    rw [show 8 * 3 + (i - 8 - 8 - 8) = i by omega, decide_eq_true top, Bool.true_and]

theorem byteOf_ofBytes (hi : i < 4) : byteOf (ofBytes b) i = b i := by
  have four : i = 0 ∨ i = 1 ∨ i = 2 ∨ i = 3 := by omega
  apply BitVec.eq_of_getLsbD_eq
  intro j hj
  rw [getLsbD_byteOf hj, ofBytes]
  simp only [BitVec.getLsbD_append]
  rcases four with rfl | rfl | rfl | rfl
  · rw [if_pos (by omega), Nat.mul_zero, Nat.zero_add]
  · rw [if_neg (by omega), if_pos (by omega)]
    congr 1
    omega
  · rw [if_neg (by omega), if_neg (by omega), if_pos (by omega)]
    congr 1
    omega
  · rw [if_neg (by omega), if_neg (by omega), if_neg (by omega)]
    congr 1
    omega

theorem byteOf_and : byteOf (v &&& w) i = byteOf v i &&& byteOf w i := by
  apply BitVec.eq_of_getLsbD_eq
  intro j hj
  simp only [BitVec.getLsbD_and, getLsbD_byteOf hj]

theorem byteOf_or : byteOf (v ||| w) i = byteOf v i ||| byteOf w i := by
  apply BitVec.eq_of_getLsbD_eq
  intro j hj
  simp only [BitVec.getLsbD_or, getLsbD_byteOf hj]

/-- A shift of the word is a shift of every byte when the mask clears what crosses a byte. -/
theorem byteOf_ushiftRight_and (mask : ∀ j < 8, m.getLsbD (8 * i + j) = decide (s + j < 8)) :
    byteOf ((w >>> s) &&& m) i = byteOf w i >>> s := by
  apply BitVec.eq_of_getLsbD_eq
  intro j hj
  rw [getLsbD_byteOf hj, BitVec.getLsbD_and, mask j hj, BitVec.getLsbD_ushiftRight,
    BitVec.getLsbD_ushiftRight]
  by_cases inside : s + j < 8
  · rw [getLsbD_byteOf inside, decide_eq_true inside, Bool.and_true]
    congr 1
    omega
  · rw [decide_eq_false inside, Bool.and_false, BitVec.getLsbD_of_ge _ _ (by omega)]

theorem byteOf_shiftLeft (hi : i < 4) (clear : ∀ x, 8 ≤ x % 8 + s → w.getLsbD x = false) :
    byteOf (w <<< s) i = byteOf w i <<< s := by
  apply BitVec.eq_of_getLsbD_eq
  intro j hj
  rw [getLsbD_byteOf hj, BitVec.getLsbD_shiftLeft, BitVec.getLsbD_shiftLeft,
    decide_eq_true (show 8 * i + j < 32 by omega), decide_eq_true hj, Bool.true_and, Bool.true_and]
  by_cases low : j < s
  · rw [decide_eq_true low, Bool.not_true, Bool.false_and]
    by_cases first : 8 * i + j < s
    · rw [decide_eq_true first, Bool.not_true, Bool.false_and]
    · rw [clear _ (by omega), Bool.and_false]
  · rw [decide_eq_false low, decide_eq_false (show ¬ 8 * i + j < s by omega),
      getLsbD_byteOf (by omega)]
    congr 2
    omega

section Eight

def ofEightBytes (b : ℕ → BitVec 8) : BitVec 64 :=
  b 7 ++ b 6 ++ b 5 ++ b 4 ++ b 3 ++ b 2 ++ b 1 ++ b 0

/-- `(w >> (i * 8)) & 0xff`, as an int8. -/
def maskedByte (w : BitVec 64) (i : ℕ) : BitVec 8 := ((w >>> (i * 8)) &&& 0xff#64).setWidth 8

theorem getLsbD_ofEightBytes (hi : i < 8) (hj : j < 8) :
    (ofEightBytes b).getLsbD (i * 8 + j) = (b i).getLsbD j := by
  have eight : i = 0 ∨ i = 1 ∨ i = 2 ∨ i = 3 ∨ i = 4 ∨ i = 5 ∨ i = 6 ∨ i = 7 := by omega
  rw [ofEightBytes]
  simp only [BitVec.getLsbD_append]
  rcases eight with rfl | rfl | rfl | rfl | rfl | rfl | rfl | rfl
  all_goals
    repeat
      first
      | rw [if_pos (by omega)]
      | rw [if_neg (by omega)]
    congr 1
    omega

theorem maskedByte_ofEightBytes (hi : i < 8) : maskedByte (ofEightBytes b) i = b i := by
  have mask : ∀ j < 8, (0xff#64).getLsbD j = true := by decide
  apply BitVec.eq_of_getLsbD_eq
  intro j hj
  rw [maskedByte, BitVec.getLsbD_setWidth, decide_eq_true hj, Bool.true_and, BitVec.getLsbD_and,
    mask j hj, Bool.and_true, BitVec.getLsbD_ushiftRight, getLsbD_ofEightBytes hi hj]

end Eight

end Bytes

end Words
