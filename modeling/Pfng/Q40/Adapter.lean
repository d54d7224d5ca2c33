import Mathlib.Data.List.Perm.Basic
import Pfng.Bench.Run
import Pfng.Q40.Reference

/-! What the Q4_0 adapters share: the check of a shape, their input, and the product that a run
has to leave. -/
namespace Pfng.Q40
open Finset

/-- `validate_shape<MMultiple, NMultiple, KMultiple>`. -/
def validateShape (mMultiple nMultiple kMultiple : ℕ) (request : Bench.BenchmarkRequest) :
    Bench.ValidationResult :=
  if request.m = 0 ∨ request.n = 0 ∨ request.k = 0 then ⟨false, "M, N and K must be positive"⟩
  else if request.m % mMultiple ≠ 0 then ⟨false, "M must be divisible by " ++ toString mMultiple⟩
  else if request.n % nMultiple ≠ 0 then ⟨false, "N must be divisible by " ++ toString nMultiple⟩
  else if request.k % kMultiple ≠ 0 then ⟨false, "K must be divisible by " ++ toString kMultiple⟩
  else ⟨true, ""⟩

/-- `Q4_0Q8_0Input`: `weight` holds the blocks of one column after those of another. -/
structure Input (α : Type) where
  activation : ℕ → α
  weight : ℕ → BlockQ40 α

/-- Where a thread's scratch buffer lies: in what `tcm::allocate` returned, or on the stack when
it returned nothing. -/
inductive Place
  | tcm | stack
  deriving DecidableEq

/-- What a run does not decide itself: the order in which the threads take the `tiles` tiles of an
iteration, which allocations succeed, and what a scratch buffer holds when a tile begins. -/
structure Schedule (tiles : ℕ) (β : Type) where
  order : ℕ → List ℕ
  complete : ∀ iteration, (order iteration).Perm (List.range tiles)
  allocated : ℕ → ℕ → Bool
  scratch : ℕ → ℕ → ℕ → β

def Schedule.place {tiles : ℕ} {β : Type} (schedule : Schedule tiles β) (iteration tile : ℕ) :
    Place :=
  if schedule.allocated iteration tile then .tcm else .stack

variable {α : Type} [Field α]

def product (weight : ℕ → BlockQ40 α) (activation : ℕ → BlockQ80 α) (blocks : ℕ) : α :=
  ∑ b ∈ range blocks, (activation b).d * (weight b).d *
    ((∑ k ∈ range 32, (((nibble (weight b) k).toNat : ℤ) - 8) * ((activation b).qs k).toInt : ℤ) : α)

theorem validateShape_supported {mMultiple nMultiple kMultiple : ℕ}
    {request : Bench.BenchmarkRequest}
    (h : (validateShape mMultiple nMultiple kMultiple request).supported = true) :
    (0 < request.m ∧ 0 < request.n ∧ 0 < request.k) ∧
      request.m / mMultiple * mMultiple = request.m ∧
      request.n / nMultiple * nMultiple = request.n ∧
      request.k / kMultiple * kMultiple = request.k := by
  rw [validateShape] at h
  split_ifs at h with zero hm hn hk
  refine ⟨by omega, ?_, ?_, ?_⟩
  · exact Nat.div_mul_cancel (Nat.dvd_of_mod_eq_zero (not_not.mp hm))
  · exact Nat.div_mul_cancel (Nat.dvd_of_mod_eq_zero (not_not.mp hn))
  · exact Nat.div_mul_cancel (Nat.dvd_of_mod_eq_zero (not_not.mp hk))

theorem dotQ40Q80_eq_product [LinearOrder α] (weight : ℕ → BlockQ40 α)
    (activation : ℕ → BlockQ80 α) (blocks : ℕ) :
    dotQ40Q80 weight activation blocks = product weight activation blocks := by
  rw [dotQ40Q80_eq, product]
  apply sum_congr rfl
  intro b _
  rw [integerSum_eq, mul_assoc, mul_comm]
  congr 1
  exact mul_comm _ _

def variedInput : Input ℚ where
  activation := fun i => (i * 7 % 61 : ℕ) - 30
  weight := fun x => ⟨(x % 5 + 1 : ℕ), fun j => BitVec.ofNat 8 (x * 37 + j * 11)⟩

def variedBlock {F : Type} [NatCast F] (row b : ℕ) : BlockQ80 F :=
  ⟨(row + 2 * b + 1 : ℕ), fun k => BitVec.ofNat 8 (row * 31 + b * 17 + k * 5)⟩

end Pfng.Q40
