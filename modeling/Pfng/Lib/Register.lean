import Mathlib.Algebra.BigOperators.Ring.Finset
import Mathlib.Algebra.Order.BigOperators.Group.Finset
import Mathlib.Algebra.Order.Ring.Abs
import Mathlib.Tactic.Ring

/-! Signed registers of a fixed width: a wrapping multiply-accumulate chain against the exact
sum of its terms. -/
namespace Register
open Finset

/-- The integer that a signed register of width `w` holds for `x`. -/
def wrap (w : ℕ) (x : ℤ) : ℤ := Int.bmod x (2^w)

def Fits (w : ℕ) (x : ℤ) : Prop := -2^(w-1) ≤ x ∧ x < 2^(w-1)

instance (w : ℕ) (x : ℤ) : Decidable (Fits w x) := inferInstanceAs (Decidable (_ ∧ _))

/-- A register after `n` accumulations. -/
def accumulate (w : ℕ) (term : ℕ → ℤ) : ℕ → ℤ
  | 0 => 0
  | n+1 => wrap w (accumulate w term n + term n)

@[simp] theorem wrap_zero (w : ℕ) : wrap w 0 = 0 := Int.zero_bmod

theorem wrap_wrap_add (w : ℕ) (x y : ℤ) : wrap w (wrap w x + y) = wrap w (x + y) :=
  Int.bmod_add_bmod

theorem wrap_add_wrap (w : ℕ) (x y : ℤ) : wrap w (x + wrap w y) = wrap w (x + y) :=
  Int.add_bmod_bmod

theorem abs_wrap_le {w : ℕ} (pos : 0 < w) (x : ℤ) : |wrap w x| ≤ 2^(w-1) := by
  obtain ⟨v, rfl⟩ : ∃ v, w = v + 1 := ⟨w - 1, by omega⟩
  have half : ((2^(v+1) : ℕ) : ℤ) = 2 * 2^v := by
    push_cast
    ring
  have low := Int.le_bmod (x := x) (m := 2^(v+1)) (Nat.two_pow_pos _)
  have high := Int.bmod_le (x := x) (m := 2^(v+1)) (Nat.two_pow_pos _)
  rw [half] at low high
  rw [wrap, Nat.add_sub_cancel, abs_le]
  omega

theorem wrap_eq_self_iff {w : ℕ} (pos : 0 < w) (x : ℤ) : wrap w x = x ↔ Fits w x := by
  obtain ⟨v, rfl⟩ : ∃ v, w = v + 1 := ⟨w - 1, by omega⟩
  have half : ((2^(v+1) : ℕ) : ℤ) = 2 * 2^v := by
    push_cast
    ring
  rw [wrap, Fits, Int.bmod_eq_iff (Nat.two_pow_pos _), half, Nat.add_sub_cancel, Int.sub_self]
  constructor
  · intro h
    omega
  · intro h
    refine ⟨by omega, by omega, dvd_zero _⟩

theorem accumulate_eq (w : ℕ) (term : ℕ → ℤ) (n : ℕ) :
    accumulate w term n = wrap w (∑ k ∈ range n, term k) := by
  induction n with
  | zero => simp [accumulate]
  | succ n ih => rw [accumulate, ih, wrap_wrap_add, sum_range_succ]

theorem toInt_foldl_add {w : ℕ} (f : ℕ → BitVec w) (n : ℕ) :
    ((List.range n).foldl (fun sum k => sum + f k) 0).toInt = wrap w (∑ k ∈ range n, (f k).toInt) := by
  induction n with
  | zero => exact BitVec.toInt_zero.trans (wrap_zero w).symm
  | succ n ih =>
      rw [List.range_succ, List.foldl_append, List.foldl_cons, List.foldl_nil, BitVec.toInt_add, ih,
        sum_range_succ]
      exact wrap_wrap_add w _ _

theorem foldl_accumulate (w : ℕ) (term : ℕ → ℤ) (n : ℕ) :
    (List.range n).foldl (fun sum k => wrap w (sum + term k)) 0 = accumulate w term n := by
  induction n with
  | zero => rfl
  | succ n ih =>
      rw [List.range_succ, List.foldl_append, ih]
      rfl

theorem accumulate_exact_iff {w : ℕ} (pos : 0 < w) (term : ℕ → ℤ) (n : ℕ) :
    accumulate w term n = ∑ k ∈ range n, term k ↔ Fits w (∑ k ∈ range n, term k) := by
  rw [accumulate_eq, wrap_eq_self_iff pos]

theorem fits_of_abs_lt {w : ℕ} {x : ℤ} (h : |x| < 2^(w-1)) : Fits w x :=
  ⟨(abs_lt.mp h).1.le, (abs_lt.mp h).2⟩

theorem abs_sum_le {n : ℕ} {term : ℕ → ℤ} {b : ℤ} (each : ∀ k < n, |term k| ≤ b) :
    |∑ k ∈ range n, term k| ≤ n * b := by
  refine (abs_sum_le_sum_abs _ _).trans ?_
  have le := sum_le_card_nsmul (range n) (fun k => |term k|) b fun k hk => each k (mem_range.mp hk)
  rwa [card_range, nsmul_eq_mul] at le

theorem sum_fits {w n : ℕ} {term : ℕ → ℤ} {b : ℤ} (each : ∀ k < n, |term k| ≤ b)
    (small : n * b < 2^(w-1)) : Fits w (∑ k ∈ range n, term k) :=
  fits_of_abs_lt ((abs_sum_le each).trans_lt small)

theorem abs_toInt_le (b : BitVec 8) : |b.toInt| ≤ 128 := by
  have low := BitVec.le_toInt b
  have high := BitVec.toInt_lt (x := b)
  rw [abs_le]
  omega

theorem abs_toInt_mul_toInt_le (a b : BitVec 8) : |a.toInt * b.toInt| ≤ 16384 := by
  rw [abs_mul]
  calc |a.toInt| * |b.toInt| ≤ 128 * 128 :=
        mul_le_mul (abs_toInt_le a) (abs_toInt_le b) (abs_nonneg _) (by decide)
    _ = 16384 := by decide

theorem abs_dot_le {a b : ℕ → ℤ} {bound : ℤ} {n : ℕ} (hb : ∀ k < n, |b k| ≤ bound) :
    |∑ k ∈ range n, a k * b k| ≤ (∑ k ∈ range n, |a k|) * bound := by
  refine (abs_sum_le_sum_abs _ _).trans ?_
  rw [sum_mul]
  apply sum_le_sum
  intro k hk
  rw [abs_mul]
  exact mul_le_mul_of_nonneg_left (hb k (mem_range.mp hk)) (abs_nonneg _)

theorem dot_sign (a : ℕ → ℤ) (bound : ℤ) (n : ℕ) :
    ∑ k ∈ range n, a k * (bound * (a k).sign) = (∑ k ∈ range n, |a k|) * bound := by
  rw [sum_mul]
  apply sum_congr rfl
  intro k _
  calc a k * (bound * (a k).sign) = a k * (a k).sign * bound := by ring
    _ = |a k| * bound := by rw [Int.mul_sign_self, Int.natCast_natAbs]

end Register
