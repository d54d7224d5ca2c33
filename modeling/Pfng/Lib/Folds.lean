import Mathlib.Algebra.BigOperators.Group.Finset.Basic
import Mathlib.Data.Finset.Lattice.Fold

/-! Accumulating loops: a running minimum and maximum as the extremes of a finite set, a running
sum as the sum. -/
namespace Folds
open Finset

variable {α β : Type*} [LinearOrder α] {f : ℕ → α} {a c : α}

theorem foldl_max_le_iff (l : List ℕ) :
    l.foldl (fun m i => max m (f i)) a ≤ c ↔ a ≤ c ∧ ∀ i ∈ l, f i ≤ c := by
  induction l generalizing a with
  | nil => simp
  | cons i l ih =>
      rw [List.foldl_cons, ih, max_le_iff, List.forall_mem_cons, and_assoc]

theorem le_foldl_min_iff (l : List ℕ) :
    c ≤ l.foldl (fun m i => min m (f i)) a ↔ c ≤ a ∧ ∀ i ∈ l, c ≤ f i := by
  induction l generalizing a with
  | nil => simp
  | cons i l ih =>
      rw [List.foldl_cons, ih, le_min_iff, List.forall_mem_cons, and_assoc]

theorem nonempty_range_8 : (range 8).Nonempty := nonempty_range_iff.mpr (by decide)

theorem nonempty_range_32 : (range 32).Nonempty := nonempty_range_iff.mpr (by decide)

theorem foldl_pair (g h : β → ℕ → β) (l : List ℕ) (x y : β) :
    l.foldl (fun (x, y) i => (g x i, h y i)) (x, y) = (l.foldl g x, l.foldl h y) := by
  induction l generalizing x y with
  | nil => rfl
  | cons i l ih => exact ih (g x i) (h y i)

theorem foldl_max_eq {n : ℕ} (pos : (range n).Nonempty) :
    (List.range n).foldl (fun m i => max m (f i)) a = max a ((range n).sup' pos f) := by
  apply eq_of_forall_ge_iff
  intro c
  simp only [foldl_max_le_iff, List.mem_range, max_le_iff, sup'_le_iff, mem_range]

/-- The extremes of a loop that starts at the first element. -/
theorem foldl_extremes_eq {n : ℕ} (pos : (range (n + 1)).Nonempty) :
    (List.range' 1 n).foldl (fun (lo, hi) j => (min lo (f j), max hi (f j))) (f 0, f 0) =
      ((range (n + 1)).inf' pos f, (range (n + 1)).sup' pos f) := by
  have split : ∀ p : ℕ → Prop, (p 0 ∧ ∀ i ∈ List.range' 1 n, p i) ↔ ∀ i ∈ range (n + 1), p i := by
    intro p
    simp only [List.mem_range'_1, mem_range]
    constructor
    · intro all i hi
      rcases Nat.eq_zero_or_pos i with rfl | later
      · exact all.1
      · exact all.2 i ⟨later, by omega⟩
    · intro all
      exact ⟨all 0 (by omega), fun i hi => all i (by omega)⟩
  rw [foldl_pair (fun lo j => min lo (f j)) (fun hi j => max hi (f j))]
  congr 1
  · apply eq_of_forall_le_iff
    intro c
    rw [le_foldl_min_iff, le_inf'_iff]
    exact split fun i => c ≤ f i
  · apply eq_of_forall_ge_iff
    intro c
    rw [foldl_max_le_iff, sup'_le_iff]
    exact split fun i => f i ≤ c

section Sum

variable {M : Type*} [AddCommMonoid M]

theorem foldl_add_start (g : ℕ → M) (x : M) (n : ℕ) :
    (List.range n).foldl (fun sum i => sum + g i) x = x + ∑ i ∈ range n, g i := by
  induction n with
  | zero => exact (add_zero x).symm
  | succ n ih =>
      rw [List.range_succ, List.foldl_append, ih, sum_range_succ, ← add_assoc]
      rfl

theorem foldl_add_eq (g : ℕ → M) (n : ℕ) :
    (List.range n).foldl (fun sum i => sum + g i) 0 = ∑ i ∈ range n, g i :=
  (foldl_add_start g 0 n).trans (zero_add _)

end Sum

end Folds
