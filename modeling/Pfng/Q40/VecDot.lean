import Pfng.Q40.Adapter
import Pfng.VecDot

/-! `ggml_vec_dot_q4_0_q8_0` on vectors of 256 bits, against the reference. -/
namespace Pfng.Q40.VecDot
open Checked Register Pfng.VecDot Finset

variable {F H : Type}

/-- `sumi` of one block. -/
def sumi (x : BlockQ40 H) (y : BlockQ80 H) : ℤ :=
  let vl := 16
  let y0 := y.qs
  let y1 := fun lane => y.qs (16 + lane)
  let x_a := fun lane => x.qs lane &&& 0x0f
  let x_l := fun lane => x.qs lane >>> 4
  let v0 := fun lane => x_a lane - 8
  let v1 := fun lane => x_l lane - 8
  let vec_mul1 := vwmul v0 y0
  let vec_mul2 := vwmacc vec_mul1 v1 y1
  vwredsum vec_mul2 vl

/-- One round of the block loop; `add sum i dx dy` is `sum += i * dx * dy` in floats. -/
def vecDotBlock (add : F → ℤ → H → H → F) (sumf : F) (x : BlockQ40 H) (y : BlockQ80 H) : Option F :=
  some (add sumf (sumi x y) x.d y.d)

/-- `ggml_vec_dot_q4_0_q8_0`. -/
def vecDot (add : F → ℤ → H → H → F) (zero : F) (nb vx vy : ℕ)
    (memory : DotMemory (BlockQ40 H) (BlockQ80 H) F) : Option F :=
  overBlocks (vecDotBlock add) zero nb vx vy memory

/-- `dot_q4_0_q8_0` with the same float step. -/
def referenceDot (add : F → ℤ → H → H → F) (zero : F) (weight : ℕ → BlockQ40 H)
    (activation : ℕ → BlockQ80 H) (blocks : ℕ) : F :=
  (List.range blocks).foldl (fun sum block =>
    add sum (integerSum (weight block) (activation block)) (weight block).d (activation block).d) zero

example {α : Type} [Field α] [LinearOrder α] :
    referenceDot (fun (sum : α) i w a => sum + i * w * a) 0 = dotQ40Q80 := rfl

section Lanes

theorem offset_lane : ∀ b : BitVec 8, ((b &&& 0x0f) - 8).toInt = ((b &&& 0x0f).toNat : ℤ) - 8 ∧
    ((b >>> 4) - 8).toInt = ((b >>> 4).toNat : ℤ) - 8 := by decide

theorem offset_abs_le : ∀ b : BitVec 8, |((b &&& 0x0f).toNat : ℤ) - 8| ≤ 8 ∧
    |((b >>> 4).toNat : ℤ) - 8| ≤ 8 := by decide

def pairProduct (x : BlockQ40 H) (y : BlockQ80 H) (i : ℕ) : ℤ :=
  (((x.qs i &&& 0x0f).toNat : ℤ) - 8) * (y.qs i).toInt +
    (((x.qs i >>> 4).toNat : ℤ) - 8) * (y.qs (16 + i)).toInt

theorem abs_pairProduct_le (x : BlockQ40 H) (y : BlockQ80 H) (i : ℕ) : |pairProduct x y i| ≤ 2048 := by
  have product : ∀ v q : ℤ, |v| ≤ 8 → |q| ≤ 128 → |v * q| ≤ 1024 := by
    intro v q hv hq
    rw [abs_mul]
    exact mul_le_mul hv hq (abs_nonneg q) (by decide)
  obtain ⟨low, high⟩ := offset_abs_le (x.qs i)
  have first := product _ _ low (abs_toInt_le (y.qs i))
  have second := product _ _ high (abs_toInt_le (y.qs (16 + i)))
  exact (abs_add_le _ _).trans (add_le_add first second)

theorem sumi_eq (x : BlockQ40 H) (y : BlockQ80 H) : sumi x y = integerSum x y := by
  have lane : ∀ i, vwmacc (vwmul (fun lane => (x.qs lane &&& 0x0f) - 8) y.qs)
      (fun lane => (x.qs lane >>> 4) - 8) (fun lane => y.qs (16 + lane)) i = pairProduct x y i := by
    intro i
    rw [vwmacc, vwmul_eq, (offset_lane _).1, (offset_lane _).2]
    exact (wrap_eq_self_iff (by decide) _).mpr
      (fits_of_abs_lt ((abs_pairProduct_le x y i).trans_lt (by decide)))
  have fits : Fits 32 (∑ i ∈ range 16, pairProduct x y i) :=
    sum_fits (fun i _ => abs_pairProduct_le x y i) (by decide)
  have sums := (accumulate_exact_iff (by decide) (pairProduct x y) 16).mpr fits
  simp only [sumi]
  rw [vwredsum, funext lane, sums, integerSum, ← Folds.foldl_add_eq]
  simp only [pairProduct, Nat.add_comm 16, add_assoc]

end Lanes

variable {request : Bench.BenchmarkRequest} {add : F → ℤ → H → H → F} {zero : F}
variable {weight : ℕ → BlockQ40 H} {activation : ℕ → ℕ → BlockQ80 H}

theorem vecDot_computes : Computes request (request.k / 32) weight activation
    (fun m n => referenceDot add zero (fun b => weight (n * (request.k / 32) + b)) (activation m)
      (request.k / 32)) (vecDot add zero (request.k / 32)) := by
  intro memory sizes holds m hm n hn
  have block : ∀ i < request.k / 32, ∀ s, vecDotBlock add s (weight (n * (request.k / 32) + i))
      (activation m i) = some (add s (sumi (weight (n * (request.k / 32) + i)) (activation m i))
        (weight (n * (request.k / 32) + i)).d (activation m i).d) := fun _ _ _ => rfl
  have folded := overBlocks_eq (fun sumf x y => add sumf (sumi x y) x.d y.d) zero sizes holds hm hn block
  refine folded.trans (congrArg some ?_)
  simp only [sumi_eq]
  rfl

end Pfng.Q40.VecDot
