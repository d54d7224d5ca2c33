import Pfng.Lib.Layout
import Pfng.Lib.Memory

/-! Arrays of registers: row `i` is the `width` cells from `i * width` on. -/
namespace Checked

variable {κ : Type*} {V : κ → Type*}

/-- Row `i` of an array. -/
def RowCells (width : ℕ) (k : κ) (i : ℕ) : Region κ := fun k' x =>
  k' = k ∧ ∃ lane < width, x = i * width + lane

/-- An array of `rows` rows. -/
def ArrayCells (width : ℕ) (k : κ) (rows : ℕ) : Region κ := fun k' x => k' = k ∧ x < rows * width

variable {width : ℕ} {k k' : κ}

theorem arrayCells_iff {rows x : ℕ} :
    ArrayCells width k rows k' x ↔ ∃ i < rows, RowCells width k i k' x := by
  constructor
  · rintro ⟨rfl, inside⟩
    obtain ⟨i, hi, lane, hl, rfl⟩ := Layout.lt_iff.mp inside
    exact ⟨i, hi, rfl, lane, hl, rfl⟩
  · rintro ⟨i, hi, rfl, lane, hl, rfl⟩
    exact ⟨rfl, Layout.index_lt hi hl⟩

theorem rowCells_apart {i j x : ℕ} (other : i ≠ j) (cell : RowCells width k i k' x) :
    ¬ RowCells width k j k' x := by
  obtain ⟨rfl, lane, hl, rfl⟩ := cell
  rintro ⟨_, lane', hl', same⟩
  exact other (Layout.unique hl hl' same).1

variable {size : κ → ℕ} {u v : Contents κ V} {A : ℕ → Region κ} {n : ℕ}
variable {body : ℕ → Memory κ V → Option (Memory κ V)}

theorem Effect.rows (place : ℕ → ℕ) (different : ∀ i j, i < j → j < n → place i ≠ place j)
    (each : ∀ i < n, Effect size u (A i) (body i) v (RowCells width k (place i))
      (RowCells width k (place i)))
    (apart : ∀ i j, i < j → j < n → ∀ k' x, A j k' x → ¬ RowCells width k (place i) k' x) :
    Effect size u (fun k' x => ∃ i < n, A i k' x) (Checked.forUp body 0 n) v
      (fun k' x => ∃ i < n, RowCells width k (place i) k' x)
      fun k' x => ∃ i < n, RowCells width k (place i) k' x :=
  Effect.loopOwn each fun i j lt hj =>
    ⟨apart i j lt hj, fun _ _ cell => rowCells_apart (different i j lt hj) cell⟩

/-- Rounds that write all rows of an array, one after another. -/
theorem Effect.array {B : Region κ}
    (each : ∀ i < n, Effect size u (A i) (body i) v (RowCells width k i) (RowCells width k i))
    (apart : ∀ i j, i < j → j < n → ∀ k' x, A j k' x → ¬ RowCells width k i k' x)
    (inside : ∀ i < n, ∀ k' x, A i k' x → B k' x) :
    Effect size u B (Checked.forUp body 0 n) v (ArrayCells width k n) (ArrayCells width k n) := by
  refine (Effect.rows id (fun i j lt _ => Nat.ne_of_lt lt) each apart).weaken ?_ ?_ ?_
  · rintro k' x ⟨i, hi, cell⟩
    exact ⟨inside i hi k' x cell, rfl⟩
  · intro k' x cell
    exact .inl ⟨arrayCells_iff.mp cell, rfl⟩
  · intro k' x cell
    exact arrayCells_iff.mpr cell

end Checked
