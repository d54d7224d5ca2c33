import Mathlib.Algebra.Field.Defs
import Pfng.Lib.Register

/-! The widening multiply-accumulate instructions of the RVV kernels, lane by lane, and the two
shapes of the int16 accumulation loops. -/
namespace Pfng.Rvv
open Register Finset

/-- `__riscv_vwmul_vx_i16m2`. -/
def vwmul (w : ℕ → BitVec 8) (a : BitVec 8) (lane : ℕ) : ℤ := wrap 16 ((w lane).toInt * a.toInt)

/-- `__riscv_vwmacc_vx_i16m2`. -/
def vwmacc (sum : ℕ → ℤ) (a : BitVec 8) (w : ℕ → BitVec 8) (lane : ℕ) : ℤ :=
  wrap 16 (sum lane + a.toInt * (w lane).toInt)

/-- `__riscv_vwmul_vv_i32m4`. -/
def vwmulVV (a b : ℕ → ℤ) (lane : ℕ) : ℤ := wrap 32 (a lane * b lane)

/-- `__riscv_vwmacc_vv_i32m4`. -/
def vwmaccVV (sum a b : ℕ → ℤ) (lane : ℕ) : ℤ := wrap 32 (sum lane + a lane * b lane)

/-- What an int16 accumulator does with a result that does not fit: the instructions wrap it, a
checked run stops there. -/
inductive Overflow
  | wraps | fails

def Overflow.int16 : Overflow → ℤ → Option ℤ
  | .wraps, x => some (wrap 16 x)
  | .fails, x => if Fits 16 x then some x else none

theorem Overflow.int16_fits (overflow : Overflow) {x : ℤ} (h : Fits 16 x) :
    overflow.int16 x = some x := by
  cases overflow with
  | wraps => exact congrArg some ((wrap_eq_self_iff (by decide) x).mpr h)
  | fails => exact if_pos h

/-- The float steps; nothing is assumed of them. -/
structure FloatOps (F H : Type) where
  zero : F
  widen : H → F
  ofInt : ℤ → F
  mul : F → F → F
  fma : F → F → F → F
  sub : F → F → F

/-- The float steps without rounding. -/
def FloatOps.exact (α : Type) [Field α] : FloatOps α α where
  zero := 0
  widen x := x
  ofInt x := x
  mul x y := x * y
  fma c x y := c + x * y
  sub x y := x - y

/-- The accumulator after round `k`, when the first round multiplies and the next ones
accumulate; `operands k` loads what round `k` uses. -/
def mulRounds (operands : ℕ → Option ((ℕ → BitVec 8) × BitVec 8)) : ℕ → Option (ℕ → ℤ)
  | 0 => (operands 0).map fun (w, a) => vwmul w a
  | k+1 =>
      (mulRounds operands k).bind fun sum =>
      (operands (k+1)).map fun (w, a) => vwmacc sum a w

/-- The accumulator after `k` rounds, when it starts at zero. -/
def macRounds (operands : ℕ → Option ((ℕ → BitVec 8) × BitVec 8)) : ℕ → Option (ℕ → ℤ)
  | 0 => some fun _ => 0
  | k+1 =>
      (macRounds operands k).bind fun sum =>
      (operands k).map fun (w, a) => vwmacc sum a w

variable {operands : ℕ → Option ((ℕ → BitVec 8) × BitVec 8)} {w : ℕ → ℕ → BitVec 8}
variable {a : ℕ → BitVec 8} {n vl : ℕ}

/-- Round `k` loads the weights `w k` in its lanes below `vl`, and the quant `a k`. -/
def Loads (operands : ℕ → Option ((ℕ → BitVec 8) × BitVec 8)) (w : ℕ → ℕ → BitVec 8)
    (a : ℕ → BitVec 8) (n vl : ℕ) : Prop :=
  ∀ k < n, ∃ r, operands k = some (r, a k) ∧ ∀ lane < vl, r lane = w k lane

theorem macRounds_eq (loads : Loads operands w a n vl) {k : ℕ} (hk : k ≤ n) :
    ∃ sum, macRounds operands k = some sum ∧ ∀ lane < vl,
      sum lane = accumulate 16 (fun k => (w k lane).toInt * (a k).toInt) k := by
  induction k with
  | zero => exact ⟨_, rfl, fun _ _ => rfl⟩
  | succ k ih =>
      obtain ⟨sum, run, sums⟩ := ih (by omega)
      obtain ⟨r, hr, lanes⟩ := loads k hk
      refine ⟨vwmacc sum (a k) r, by rw [macRounds, run, Option.bind_some, hr]; rfl, ?_⟩
      intro lane hl
      rw [vwmacc, sums lane hl, lanes lane hl, Int.mul_comm]
      rfl

theorem mulRounds_eq (loads : Loads operands w a n vl) {k : ℕ} (hk : k < n) :
    ∃ sum, mulRounds operands k = some sum ∧ ∀ lane < vl,
      sum lane = accumulate 16 (fun k => (w k lane).toInt * (a k).toInt) (k + 1) := by
  induction k with
  | zero =>
      obtain ⟨r, hr, lanes⟩ := loads 0 hk
      refine ⟨vwmul r (a 0), by rw [mulRounds, hr]; rfl, ?_⟩
      intro lane hl
      rw [vwmul, lanes lane hl, accumulate, accumulate, Int.zero_add]
  | succ k ih =>
      obtain ⟨sum, run, sums⟩ := ih (by omega)
      obtain ⟨r, hr, lanes⟩ := loads (k + 1) hk
      refine ⟨vwmacc sum (a (k + 1)) r, by rw [mulRounds, run, Option.bind_some, hr]; rfl, ?_⟩
      intro lane hl
      rw [vwmacc, sums lane hl, lanes lane hl, Int.mul_comm]
      rfl

end Pfng.Rvv
