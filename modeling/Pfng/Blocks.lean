import Mathlib.Algebra.Order.Group.Int
import Mathlib.Algebra.Order.Group.Unbundled.Abs

/-! The quantised blocks. Scales are elements of the scalar type; quants are the bytes of the
source. -/
namespace Pfng

variable (α : Type)

structure BlockQ8K where
  d : α
  qs : ℕ → BitVec 8

structure BlockIq2xxs where
  d : α
  qs : ℕ → BitVec 8

structure BlockQ4K where
  d : α
  dmin : α
  scales : ℕ → BitVec 8
  qs : ℕ → BitVec 8

variable {α}

/-- The quants that `quantize_row_q8_K` writes. -/
def Quantised (activation : ℕ → BlockQ8K α) : Prop := ∀ x k, |((activation x).qs k).toInt| ≤ 127

end Pfng
