import Pfng.Q40.BatchOperands

/-! Four rows against four columns on the first generation: two windows of sixteen elements make the
sum of a K block. -/
namespace Pfng.Q40
open Ime BatchReduction

variable {α β : Type} {rows : ℕ → BlockQ80 α} {columns : ℕ → BlockQ40 β} {i : ℕ}

/-- The registers that window `i` is loaded to. -/
structure WindowRegisters (rows : ℕ → BlockQ80 α) (columns : ℕ → BlockQ40 β) (i : ℕ)
    (first second packed : ℕ → BitVec 8) : Prop where
  first : ∀ lane < 32, first lane = (rows (lane / 8)).qs (i * 16 + lane % 8)
  second : ∀ lane < 32, second lane = (rows (lane / 8)).qs (i * 16 + (8 + lane % 8))
  packed : ∀ lane < 32, packed lane = packedByte .ime1 (columns (lane / 8)) (i * 16 + lane % 8)

/-- An accumulator after the first `i` windows. -/
def Windows (rows : ℕ → BlockQ80 α) (columns : ℕ → BlockQ40 β) (i : ℕ) (acc : ℕ → ℤ) : Prop :=
  ∀ lane < 16, acc lane = accumulator .ime1
    (fun i lane => (rows (lane / 8)).qs (i * 16 + lane % 8))
    (fun i lane => (rows (lane / 8)).qs (i * 16 + (8 + lane % 8)))
    (fun i lane => weightByte (columns (lane / 8)) (i * 16 + lane % 8))
    (fun i lane => weightByte (columns (lane / 8)) (i * 16 + (8 + lane % 8))) i lane

theorem Windows.zero : Windows rows columns 0 fun _ => 0 := fun _ _ => rfl

theorem Windows.next {acc : ℕ → ℤ} {first second packed : ℕ → BitVec 8}
    (h : Windows rows columns i acc) (r : WindowRegisters rows columns i first second packed) :
    Windows rows columns (i + 1) (vmadot .ime1 (vmadot .ime1 acc first (lowWeights packed)) second
      (highWeights packed)) := by
  intro lane hl
  refine vmadot_congr hl (vmadot_congr hl (h lane hl) r.first ?_) r.second ?_
  · intro l inside
    rw [lowWeights, r.packed l inside, packedByte_low]
    rfl
  · intro l inside
    rw [highWeights, r.packed l inside, packedByte_high, Nat.add_left_comm]
    rfl

theorem Windows.sum {acc : ℕ → ℤ} (h : Windows rows columns 2 acc) {lane : ℕ} (hl : lane < 16) :
    acc lane = blockSum (columns (lane % 4)) (rows (lane / 4)) := by
  have row : ∀ k < 8, (lane / 4 * 8 + k) / 8 = lane / 4 ∧ (lane / 4 * 8 + k) % 8 = k := by
    intro k hk
    exact ⟨Layout.row hk, Layout.column hk⟩
  have column : ∀ k < 8, (lane % 4 * 8 + k) / 8 = lane % 4 ∧ (lane % 4 * 8 + k) % 8 = k := by
    intro k hk
    exact ⟨Layout.row hk, Layout.column hk⟩
  refine (h lane hl).trans (accumulator_sum .ime1 _ _ _ _ rfl
    (fun k => ((rows (lane / 4)).qs k).toInt)
    (fun k => ((nibble (columns (lane % 4)) k).toNat : ℤ) - 8)
    (blockSum_fits (columns (lane % 4)) (rows (lane / 4))) ?_ ?_ ?_ ?_)
  · intro i _ k hk
    obtain ⟨same, rest⟩ := row k hk
    dsimp only [MatrixUnit.width, MatrixUnit.depth]
    rw [same, rest]
  · intro i _ k hk
    obtain ⟨same, rest⟩ := row k hk
    dsimp only [MatrixUnit.width, MatrixUnit.depth]
    rw [same, rest]
  · intro i _ k hk
    obtain ⟨same, rest⟩ := column k hk
    dsimp only [MatrixUnit.width, MatrixUnit.depth]
    rw [same, rest, weightByte_toInt]
  · intro i _ k hk
    obtain ⟨same, rest⟩ := column k hk
    dsimp only [MatrixUnit.width, MatrixUnit.depth]
    rw [same, rest, weightByte_toInt]

end Pfng.Q40
