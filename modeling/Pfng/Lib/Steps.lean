import Mathlib.Tactic.FieldSimp
import Pfng.Lib.Rounding

/-! Numbers as integer multiples of a step: the nearest multiple, and the multiple that truncation
finds below a top code. -/
namespace Steps
open Rounding Int

variable {α : Type*} [Field α] [LinearOrder α] [FloorRing α]

def truncate (x : α) : ℤ := if 0 ≤ x then ⌊x⌋ else ⌈x⌉

theorem truncate_of_nonneg {x : α} (h : 0 ≤ x) : truncate x = ⌊x⌋ := if_pos h

/-- The code of `y` steps when codes count from minus eight to a top code of seven. -/
def clampedCode (y : α) : ℤ := min 15 ⌊y + 17 / 2⌋

variable [IsStrictOrderedRing α] {x y d c : α}

theorem truncate_intCast (n : ℤ) : truncate (n : α) = n := by
  rw [truncate, floor_intCast, ceil_intCast, ite_self]

theorem abs_away_sub_le (x : α) : |(away x : α) - x| ≤ 1 / 2 := by
  rw [abs_sub_comm]
  rcases le_or_gt 0 x with nonneg | neg
  · rw [away_of_nonneg nonneg]
    exact abs_sub_round x
  · rw [away, if_neg (not_le.mpr neg), ← abs_neg]
    have near := abs_sub_round (-x)
    rwa [show -(x - ((-round (-x) : ℤ) : α)) = -x - round (-x) by push_cast; ring]

omit [FloorRing α] in
theorem abs_mul_sub (nonzero : d ≠ 0) : |d * c - x| = |d| * |c - x / d| := by
  rw [← abs_mul]
  congr 1
  field_simp

theorem abs_nearest_sub_le (nonzero : d ≠ 0) : |d * away (x / d) - x| ≤ |d| / 2 := by
  rw [abs_mul_sub nonzero]
  have half := mul_le_mul_of_nonneg_left (abs_away_sub_le (x / d)) (abs_nonneg d)
  linarith

omit [FloorRing α] in
/-- The errors of a step, of a code and of an offset add up; the first counts once for each step. -/
theorem abs_affine_sub_le {scale step code top offset low a b e : α} (nonneg : 0 ≤ code)
    (le : code ≤ top) (steps : |scale - step| ≤ a) (near : |step * code - (x - low)| ≤ b)
    (shift : |offset + low| ≤ e) : |scale * code - offset - x| ≤ top * a + b + e := by
  have split : scale * code - offset - x =
      (scale - step) * code + (step * code - (x - low)) - (offset + low) := by ring
  have scaled : |(scale - step) * code| ≤ top * a := by
    rw [abs_mul, abs_of_nonneg nonneg, mul_comm]
    exact mul_le_mul le steps (abs_nonneg _) (nonneg.trans le)
  rw [split]
  calc |(scale - step) * code + (step * code - (x - low)) - (offset + low)|
      ≤ |(scale - step) * code + (step * code - (x - low))| + |offset + low| := abs_sub _ _
    _ ≤ |(scale - step) * code| + |step * code - (x - low)| + |offset + low| :=
        add_le_add_left (abs_add_le _ _) _
    _ ≤ top * a + b + e := add_le_add (add_le_add scaled near) shift

section Codes

theorem clampedCode_range (low : -8 ≤ y) : 0 ≤ clampedCode y ∧ clampedCode y ≤ 15 := by
  have below : 0 ≤ ⌊y + 17 / 2⌋ := floor_nonneg.mpr (by linarith)
  rw [clampedCode]
  omega

theorem floor_range (low : -8 ≤ y) (high : y ≤ 8) : 0 ≤ ⌊y + 17 / 2⌋ ∧ ⌊y + 17 / 2⌋ ≤ 16 := by
  have top : ⌊y + 17 / 2⌋ < 17 := floor_lt.mpr (by push_cast; linarith)
  exact ⟨floor_nonneg.mpr (by linarith), by omega⟩

/-- Only the top code is further away than half a step. -/
theorem abs_clampedCode_sub_le (high : y ≤ 15 / 2) : |(clampedCode y : α) - 8 - y| ≤ 1 / 2 := by
  have low := floor_le (y + 17 / 2)
  have above := lt_floor_add_one (y + 17 / 2)
  rcases le_or_gt ⌊y + 17 / 2⌋ 15 with inside | top
  · rw [clampedCode, min_eq_right inside, abs_le]
    constructor <;> linarith
  · have reach : (16 : α) ≤ ⌊y + 17 / 2⌋ := by exact_mod_cast top
    have tie : y = 15 / 2 := by linarith
    rw [clampedCode, min_eq_left top.le, tie, abs_le]
    push_cast
    constructor <;> norm_num

theorem abs_clampedCode_sub_le_one (high : y ≤ 8) : |(clampedCode y : α) - 8 - y| ≤ 1 := by
  rcases le_or_gt y (15 / 2) with inside | top
  · have half := abs_clampedCode_sub_le inside
    linarith
  · have reach : (15 : ℤ) ≤ ⌊y + 17 / 2⌋ := le_floor.mpr (by push_cast; linarith)
    rw [clampedCode, min_eq_left reach, abs_le]
    push_cast
    constructor <;> linarith

end Codes

end Steps
