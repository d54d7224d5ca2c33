import Pfng.Lib.Layout
import Pfng.Q40.Reference

/-! The matrix units. Both generations multiply two int8 operands into square int32 accumulators;
they differ in the width of the square and in the depth of a row. -/
namespace Pfng.Ime
open Register Finset Q40

/-- XSMTVDot of the A60, and XSMTVDotII of the A100. -/
inductive MatrixUnit
  | ime1 | ime2
  deriving DecidableEq

/-- Rows and columns of an accumulator. -/
def MatrixUnit.width : MatrixUnit → ℕ
  | ime1 => 4
  | ime2 => 8

/-- Bytes in a row of an operand. -/
def MatrixUnit.depth : MatrixUnit → ℕ
  | ime1 => 8
  | ime2 => 16

/-- `smt.vmadot` on int8 operands: lane `m * width + n` of the accumulator takes row `m` of the
first operand and row `n` of the second. -/
def vmadot (unit : MatrixUnit) (c : ℕ → ℤ) (a b : ℕ → BitVec 8) (lane : ℕ) : ℤ :=
  wrap 32 (c lane + ∑ k ∈ range unit.depth, (a (lane / unit.width * unit.depth + k)).toInt *
    (b (lane % unit.width * unit.depth + k)).toInt)

/-- `smt.vfwmadot` of the second generation on 8x8 operands of fp16. -/
def vfwmadot {α : Type} [Field α] (c a b : ℕ → α) (lane : ℕ) : α :=
  c lane + ∑ k ∈ range 8, a (lane / 8 * 8 + k) * b (lane % 8 * 8 + k)

/-- `vslidedown.vx` in a register group of `vlmax` lanes. -/
def vslidedown {α : Type} [Zero α] (vlmax : ℕ) (v : ℕ → α) (offset lane : ℕ) : α :=
  if lane + offset < vlmax then v (lane + offset) else 0

def lowWeights (packed : ℕ → BitVec 8) (lane : ℕ) : BitVec 8 := (packed lane &&& 15) + (-8)

def highWeights (packed : ℕ → BitVec 8) (lane : ℕ) : BitVec 8 := packed lane >>> 4 + (-8)

theorem low_toInt : ∀ x : BitVec 8, ((x &&& 15) + (-8)).toInt = ((x &&& 15).toNat : ℤ) - 8 := by
  decide

theorem high_toInt : ∀ x : BitVec 8, (x >>> 4 + (-8)).toInt = ((x >>> 4).toNat : ℤ) - 8 := by
  decide

/-- One accumulator after `n` windows: in window `i` the low weights meet the operand `a0 i`, the
high weights `a1 i`. -/
def accumulator (unit : MatrixUnit) (a0 a1 lo hi : ℕ → ℕ → BitVec 8) : ℕ → ℕ → ℤ
  | 0 => fun _ => 0
  | i+1 => vmadot unit (vmadot unit (accumulator unit a0 a1 lo hi i) (a0 i) (lo i)) (a1 i) (hi i)

/-- What one window adds to a lane. -/
def windowSum (unit : MatrixUnit) (a0 a1 lo hi : ℕ → BitVec 8) (lane : ℕ) : ℤ :=
  ∑ k ∈ range unit.depth, (a0 (lane / unit.width * unit.depth + k)).toInt *
      (lo (lane % unit.width * unit.depth + k)).toInt +
    ∑ k ∈ range unit.depth, (a1 (lane / unit.width * unit.depth + k)).toInt *
      (hi (lane % unit.width * unit.depth + k)).toInt

theorem accumulator_eq (unit : MatrixUnit) (a0 a1 lo hi : ℕ → ℕ → BitVec 8) (n lane : ℕ) :
    accumulator unit a0 a1 lo hi n lane =
      wrap 32 (∑ i ∈ range n, windowSum unit (a0 i) (a1 i) (lo i) (hi i) lane) := by
  induction n with
  | zero => simp [accumulator]
  | succ n ih =>
      rw [accumulator, vmadot, vmadot, wrap_wrap_add, ih, add_assoc, wrap_wrap_add, sum_range_succ]
      rfl

theorem vmadot_congr {unit : MatrixUnit} {c c' : ℕ → ℤ} {a a' b b' : ℕ → BitVec 8} {lane : ℕ}
    (hl : lane < unit.width * unit.width) (hc : c lane = c' lane)
    (ha : ∀ l < unit.width * unit.depth, a l = a' l)
    (hb : ∀ l < unit.width * unit.depth, b l = b' l) :
    vmadot unit c a b lane = vmadot unit c' a' b' lane := by
  have pos : 0 < unit.width := by
    apply Nat.pos_of_ne_zero
    intro zero
    rw [zero, Nat.zero_mul] at hl
    exact Nat.not_lt_zero _ hl
  unfold vmadot
  rw [hc]
  congr 2
  apply sum_congr rfl
  intro k hk
  have inside := mem_range.mp hk
  rw [ha _ (Layout.index_lt (Layout.row_lt hl) inside),
    hb _ (Layout.index_lt (Nat.mod_lt _ pos) inside)]

/-- The windows of a K block make its exact sum: window `i` of the unit holds the elements from
`i * 2 * depth` on, its low weights the first half of them. -/
theorem accumulator_sum (unit : MatrixUnit) (a0 a1 lo hi : ℕ → ℕ → BitVec 8) {n lane : ℕ}
    (whole : n * (2 * unit.depth) = 32) (q v : ℕ → ℤ)
    (fits : Fits 32 (∑ k ∈ range 32, v k * q k))
    (first : ∀ i < n, ∀ k < unit.depth, (a0 i (lane / unit.width * unit.depth + k)).toInt =
      q (i * (2 * unit.depth) + k))
    (second : ∀ i < n, ∀ k < unit.depth, (a1 i (lane / unit.width * unit.depth + k)).toInt =
      q (i * (2 * unit.depth) + (unit.depth + k)))
    (low : ∀ i < n, ∀ k < unit.depth, (lo i (lane % unit.width * unit.depth + k)).toInt =
      v (i * (2 * unit.depth) + k))
    (high : ∀ i < n, ∀ k < unit.depth, (hi i (lane % unit.width * unit.depth + k)).toInt =
      v (i * (2 * unit.depth) + (unit.depth + k))) :
    accumulator unit a0 a1 lo hi n lane = ∑ k ∈ range 32, v k * q k := by
  have windows : ∑ i ∈ range n, windowSum unit (a0 i) (a1 i) (lo i) (hi i) lane =
      ∑ k ∈ range 32, v k * q k := by
    rw [← whole, Layout.sum_rows]
    apply sum_congr rfl
    intro i hi
    have inside := mem_range.mp hi
    rw [windowSum, two_mul, sum_range_add, ← two_mul]
    congr 1
    · apply sum_congr rfl
      intro k hk
      rw [first i inside k (mem_range.mp hk), low i inside k (mem_range.mp hk), mul_comm]
    · apply sum_congr rfl
      intro k hk
      rw [second i inside k (mem_range.mp hk), high i inside k (mem_range.mp hk), mul_comm]
  rw [accumulator_eq, windows]
  exact (wrap_eq_self_iff (by decide) _).mpr fits

variable {α β : Type}

def blockSum (w : BlockQ40 α) (a : BlockQ80 β) : ℤ :=
  ∑ k ∈ range 32, (((nibble w k).toNat : ℤ) - 8) * (a.qs k).toInt

theorem blockSum_fits (w : BlockQ40 α) (a : BlockQ80 β) : Fits 32 (blockSum w a) := by
  have nibbles : ∀ k, |((nibble w k).toNat : ℤ) - 8| ≤ 264 := by
    intro k
    have := (nibble w k).isLt
    rw [abs_le]
    omega
  unfold blockSum
  refine sum_fits (b := 33792) ?_ (by decide)
  intro k _
  rw [abs_mul]
  calc |((nibble w k).toNat : ℤ) - 8| * |(a.qs k).toInt| ≤ 264 * 128 :=
        mul_le_mul (nibbles k) (abs_toInt_le _) (abs_nonneg _) (by decide)
    _ = 33792 := by decide

def weightByte (w : BlockQ40 α) (k : ℕ) : BitVec 8 := nibble w k + (-8)

theorem weightByte_toInt (w : BlockQ40 α) (k : ℕ) :
    (weightByte w k).toInt = ((nibble w k).toNat : ℤ) - 8 := by
  unfold weightByte nibble
  split
  · exact low_toInt _
  · exact high_toInt _

/-- The registers of a K block whose weights are packed two to a byte. -/
theorem accumulator_block (unit : MatrixUnit) (a0 a1 packed : ℕ → ℕ → BitVec 8) {n lane : ℕ}
    (whole : n * (2 * unit.depth) = 32) (w : BlockQ40 α) (a : BlockQ80 α)
    (first : ∀ i < n, ∀ k < unit.depth, a0 i (lane / unit.width * unit.depth + k) =
      a.qs (i * (2 * unit.depth) + k))
    (second : ∀ i < n, ∀ k < unit.depth, a1 i (lane / unit.width * unit.depth + k) =
      a.qs (i * (2 * unit.depth) + (unit.depth + k)))
    (low : ∀ i < n, ∀ k < unit.depth, packed i (lane % unit.width * unit.depth + k) &&& 15 =
      nibble w (i * (2 * unit.depth) + k))
    (high : ∀ i < n, ∀ k < unit.depth, packed i (lane % unit.width * unit.depth + k) >>> 4 =
      nibble w (i * (2 * unit.depth) + (unit.depth + k))) :
    accumulator unit a0 a1 (fun i => lowWeights (packed i)) (fun i => highWeights (packed i)) n lane =
      integerSum w a := by
  rw [integerSum_eq]
  refine accumulator_sum unit a0 a1 _ _ whole (fun k => (a.qs k).toInt)
    (fun k => ((nibble w k).toNat : ℤ) - 8) (blockSum_fits w a) ?_ ?_ ?_ ?_
  · intro i hi k hk
    rw [first i hi k hk]
  · intro i hi k hk
    rw [second i hi k hk]
  · intro i hi k hk
    rw [lowWeights, low_toInt, low i hi k hk]
  · intro i hi k hk
    rw [highWeights, high_toInt, high i hi k hk]

theorem vfwmadot_outer [Field α] {a b : ℕ → α} {lane : ℕ}
    (zero : ∀ k < 8, k ≠ 0 → b (lane % 8 * 8 + k) = 0) :
    vfwmadot (fun _ => 0) a b lane = a (lane / 8 * 8) * b (lane % 8 * 8) := by
  rw [vfwmadot, zero_add, sum_eq_single 0]
  · rfl
  · intro k hk other
    rw [zero k (mem_range.mp hk) other, mul_zero]
  · intro no
    exact absurd (mem_range.mpr (by decide)) no

end Pfng.Ime
