import Mathlib.Algebra.BigOperators.Group.Finset.Basic
import Mathlib.Algebra.Order.Field.Basic
import Mathlib.Tactic.NormNum
import Pfng.Lib.Folds
import Pfng.Lib.Register
import Pfng.Lib.Rounding

/-! Q4_0 weights, Q8_0 activations, and the reference quantiser and dot product of the latter. -/
namespace Pfng.Q40
open Rounding Register Finset Folds

structure BlockQ40 (α : Type) where
  d : α
  qs : ℕ → BitVec 8

structure BlockQ80 (α : Type) where
  d : α
  qs : ℕ → BitVec 8

variable {α : Type} [Field α] [LinearOrder α]

/-- `absolute_max` of a block. -/
def absoluteMax (x : ℕ → α) : α := (List.range 32).foldl (fun m i => max m |x i|) 0

/-- `scale ? 1 / scale : 0`. -/
def inverse (scale : α) : α := if scale ≠ 0 then 1 / scale else 0

/-- The block that `quantize_row_q8_0` writes; `half` rounds a scale to FP16. -/
def quantizeBlock [FloorRing α] (half : α → α) (x : ℕ → α) : BlockQ80 α :=
  let scale := absoluteMax x / 127
  ⟨half scale, fun i => BitVec.ofInt 8 (away (x i * inverse scale))⟩

/-- `quantize_row_q8_0`, block by block. -/
def quantizeRowQ80 [FloorRing α] (half : α → α) (input : ℕ → α) (block : ℕ) : BlockQ80 α :=
  quantizeBlock half fun i => input (block * 32 + i)

/-- `quantize_row_q8_0` on each row of an activation of `blocks` blocks a row. -/
def quantizedActivation [FloorRing α] (half : α → α) (activation : ℕ → α) (blocks row block : ℕ) :
    BlockQ80 α :=
  quantizeRowQ80 half (fun i => activation (row * (blocks * 32) + i)) block

/-- Element `k` of a Q4_0 block, without its offset of eight. -/
def nibble (w : BlockQ40 α) (k : ℕ) : BitVec 8 :=
  if k < 16 then w.qs k &&& 0x0f else w.qs (k - 16) >>> 4

/-- `integer_sum` of `dot_q4_0_q8_0`. -/
def integerSum (w : BlockQ40 α) (a : BlockQ80 α) : ℤ :=
  (List.range 16).foldl (fun sum i =>
    sum + (((w.qs i &&& 0x0f).toNat : ℤ) - 8) * (a.qs i).toInt +
      (((w.qs i >>> 4).toNat : ℤ) - 8) * (a.qs (i + 16)).toInt) 0

def dotQ40Q80 (weight : ℕ → BlockQ40 α) (activation : ℕ → BlockQ80 α) (blocks : ℕ) : α :=
  (List.range blocks).foldl (fun sum block =>
    sum + integerSum (weight block) (activation block) * (weight block).d * (activation block).d) 0

omit [Field α] [LinearOrder α] in
theorem nibble_le (w : BlockQ40 α) (k : ℕ) : (nibble w k).toNat ≤ 15 := by
  rw [nibble]
  split
  · rw [BitVec.toNat_and]
    exact Nat.and_le_right
  · rw [BitVec.toNat_ushiftRight, Nat.shiftRight_eq_div_pow]
    have := (w.qs (k - 16)).isLt
    omega

omit [Field α] [LinearOrder α] in
theorem integerSum_eq (w : BlockQ40 α) (a : BlockQ80 α) :
    integerSum w a = ∑ k ∈ range 32, (((nibble w k).toNat : ℤ) - 8) * (a.qs k).toInt := by
  have pairs : ∀ i ∈ range 16,
      (((nibble w i).toNat : ℤ) - 8) * (a.qs i).toInt +
        (((nibble w (16 + i)).toNat : ℤ) - 8) * (a.qs (16 + i)).toInt =
      (((w.qs i &&& 0x0f).toNat : ℤ) - 8) * (a.qs i).toInt +
        (((w.qs i >>> 4).toNat : ℤ) - 8) * (a.qs (i + 16)).toInt := by
    intro i hi
    rw [nibble, if_pos (mem_range.mp hi), nibble, if_neg (by omega), Nat.add_sub_cancel_left,
      Nat.add_comm 16 i]
    rfl
  rw [integerSum]
  simp only [add_assoc]
  rw [foldl_add_eq, sum_range_add _ 16 16, ← sum_add_distrib]
  exact (sum_congr rfl pairs).symm

omit [LinearOrder α] in
theorem dotQ40Q80_eq (weight : ℕ → BlockQ40 α) (activation : ℕ → BlockQ80 α) (blocks : ℕ) :
    dotQ40Q80 weight activation blocks =
      ∑ b ∈ range blocks, integerSum (weight b) (activation b) * (weight b).d * (activation b).d :=
  foldl_add_eq _ blocks

theorem abs_le_absoluteMax (x : ℕ → α) {i : ℕ} (h : i < 32) : |x i| ≤ absoluteMax x :=
  ((foldl_max_le_iff (f := fun i => |x i|) (List.range 32)).mp le_rfl).2 i (List.mem_range.mpr h)

theorem absoluteMax_nonneg (x : ℕ → α) : 0 ≤ absoluteMax x :=
  ((foldl_max_le_iff (f := fun i => |x i|) (List.range 32)).mp le_rfl).1

theorem mul_inverse (v d : α) : v * inverse d = v / d := by
  rw [inverse]
  split_ifs with nonzero
  · rw [mul_one_div]
  · rw [not_not.mp nonzero, mul_zero, div_zero]

theorem mul_inverse_eq (x : ℕ → α) (i : ℕ) :
    x i * inverse (absoluteMax x / 127) = x i * 127 / absoluteMax x := by
  rw [mul_inverse, div_div_eq_mul_div]

variable [IsStrictOrderedRing α]

theorem abs_ratio_le {x m : α} (h : |x| ≤ m) : |x / (m / 127)| ≤ 127 := by
  have nonneg : 0 ≤ m := (abs_nonneg x).trans h
  rw [abs_div, abs_div, abs_of_nonneg nonneg, abs_of_pos (by norm_num : (0 : α) < 127)]
  refine div_le_of_le_mul₀ (div_nonneg nonneg (by norm_num)) (by norm_num) ?_
  rwa [mul_div_cancel₀ _ (by norm_num : (127 : α) ≠ 0)]

theorem abs_away_ratio_le [FloorRing α] {x m : α} (h : |x| ≤ m) : |away (x / (m / 127))| ≤ 127 := by
  obtain ⟨low, high⟩ := abs_le.mp (abs_ratio_le h)
  refine abs_le.mpr ⟨le_away (by decide) ?_, away_le (by decide) ?_⟩
  · exact_mod_cast low
  · exact_mod_cast high

theorem abs_scaled_le (x : ℕ → α) {i : ℕ} (h : i < 32) :
    |x i * inverse (absoluteMax x / 127)| ≤ 127 := by
  rw [mul_inverse]
  exact abs_ratio_le (abs_le_absoluteMax x h)

theorem abs_away_scaled_le [FloorRing α] (x : ℕ → α) {i : ℕ} (h : i < 32) :
    |away (x i * inverse (absoluteMax x / 127))| ≤ 127 := by
  rw [mul_inverse]
  exact abs_away_ratio_le (abs_le_absoluteMax x h)

end Pfng.Q40
