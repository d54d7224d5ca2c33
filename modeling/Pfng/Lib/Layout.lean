import Mathlib.Algebra.BigOperators.Group.Finset.Basic

/-! Row-major indices: the two coordinates of `q * n + r`, and sums over rows. -/
namespace Layout
open Finset

variable {n q r : ℕ}

theorem row (h : r < n) : (q * n + r) / n = q := by
  rw [Nat.mul_comm, Nat.mul_add_div (by omega), Nat.div_eq_of_lt h, Nat.add_zero]

theorem column (h : r < n) : (q * n + r) % n = r := by
  rw [Nat.mul_comm, Nat.mul_add_mod, Nat.mod_eq_of_lt h]

theorem unique {q' r' : ℕ} (hr : r < n) (hr' : r' < n) (same : q * n + r = q' * n + r') :
    q = q' ∧ r = r' := by
  have rows := congrArg (· / n) same
  have columns := congrArg (· % n) same
  simp only [row hr, row hr'] at rows
  simp only [column hr, column hr'] at columns
  exact ⟨rows, columns⟩

theorem index_lt {m : ℕ} (hq : q < m) (hr : r < n) : q * n + r < m * n := by
  have next : (q + 1) * n ≤ m * n := Nat.mul_le_mul_right n hq
  rw [Nat.add_mul, Nat.one_mul] at next
  omega

theorem row_lt {m x : ℕ} (h : x < m * n) : x / n < m := Nat.div_lt_of_lt_mul (by rwa [Nat.mul_comm])

theorem lt_iff {m x : ℕ} : x < m * n ↔ ∃ q < m, ∃ r < n, x = q * n + r := by
  constructor
  · intro h
    have pos : 0 < n := by
      apply Nat.pos_of_ne_zero
      intro zero
      rw [zero, Nat.mul_zero] at h
      exact Nat.not_lt_zero _ h
    exact ⟨x / n, row_lt h, x % n, Nat.mod_lt _ pos, (Nat.div_add_mod' x n).symm⟩
  · rintro ⟨q, hq, r, hr, rfl⟩
    exact index_lt hq hr

/-- The elements of a matrix with `n` columns, row after row. -/
def matrix {M : Type*} (n : ℕ) (element : ℕ → ℕ → M) (x : ℕ) : M := element (x / n) (x % n)

theorem matrix_at {M : Type*} (element : ℕ → ℕ → M) (h : r < n) :
    matrix n element (q * n + r) = element q r := by
  rw [matrix, row h, column h]

theorem sum_rows {M : Type*} [AddCommMonoid M] (m n : ℕ) (f : ℕ → M) :
    ∑ x ∈ range (m * n), f x = ∑ q ∈ range m, ∑ r ∈ range n, f (q * n + r) := by
  induction m with
  | zero => simp
  | succ m ih => rw [Nat.add_mul, Nat.one_mul, sum_range_add, ih, sum_range_succ]

end Layout
