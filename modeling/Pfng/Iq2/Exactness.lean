import Mathlib.Data.Rat.Init
import Pfng.Iq2.Accumulator

/-! When the int16 accumulators are exact. The grid magnitudes 8, 25 and 43 leave room for 32
products with quants up to 127 only if all of them are 8. -/
namespace Pfng.Iq2
open Checked Register Finset

variable {α : Type} {p : Problem α}

def Generated (p : Problem α) : Prop :=
  ∀ column < p.tilesN * 32, ∀ block < p.blocks, ∀ i_qsk < 8, ∀ group < 4,
    p.gridIndex column block i_qsk group < 32

/-- At every element and round both kernels hold the partial sum of the reference. -/
def Exact (p : Problem α) : Prop :=
  ∀ row < p.tilesM * 12, ∀ column < p.tilesN * 32, ∀ block < p.blocks, ∀ i_qsk < 8, ∀ i_k < 32,
    (∀ memory, memory.size = brSize p → brAccumulator p row column block i_qsk i_k memory =
      subblockSum (p.blockW column block) (p.blockA row block) i_qsk (i_k + 1)) ∧
    ∀ memory, memory.size = irSize p → irAccumulator p row column block i_qsk i_k memory =
      subblockSum (p.blockW column block) (p.blockA row block) i_qsk (i_k + 1)

def InRange (p : Problem α) : Prop :=
  ∀ row < p.tilesM * 12, ∀ column < p.tilesN * 32, ∀ block < p.blocks, ∀ i_qsk < 8, ∀ i_k < 32,
    Fits 16 (∑ k ∈ range (i_k + 1), p.product row column block i_qsk k)

/-- Some memory of the wanted sizes. -/
def someMemory (p : Problem α) (size : Buffer → ℕ) : Memory Buffer (Cell α) where
  size := size
  cell
    | .activationD, _ => (p.activation 0).d
    | .activationQs, _ => 0
    | .weightQs, _ => 0
    | .weightScale, _ => 0
    | .weightD, _ => (p.weight 0).d

theorem exact_iff_inRange (grid : Generated p) : Exact p ↔ InRange p := by
  constructor
  · intro exact row hr column hc block hb i_qsk hq i_k hk
    have run := (exact row hr column hc block hb i_qsk hq i_k hk).1 (someMemory p (brSize p)) rfl
    rw [brAccumulator_eq rfl hr hb hq hk, subblockSum_eq (grid column hc block hb i_qsk hq) hk,
      Option.some_inj] at run
    exact (accumulate_exact_iff (by decide) _ _).mp run
  · intro fits row hr column hc block hb i_qsk hq i_k hk
    have same := (accumulate_exact_iff (by decide) _ _).mpr
      (fits row hr column hc block hb i_qsk hq i_k hk)
    constructor
    · intro memory sizes
      rw [brAccumulator_eq sizes hr hb hq hk, subblockSum_eq (grid column hc block hb i_qsk hq) hk,
        same]
    · intro memory sizes
      rw [irAccumulator_eq sizes hr hc hb hq hk, subblockSum_eq (grid column hc block hb i_qsk hq) hk,
        same]

theorem abs_value (p : Problem α) (column block i_qsk : ℕ) {k : ℕ} (hk : k < 32)
    (grid : ∀ group < 4, p.gridIndex column block i_qsk group < 32) :
    |p.value column block i_qsk k| = magnitude (p.gridIndex column block i_qsk (k / 8)) (k % 8) := by
  have bytes : (decompressSubblock (fun j => (p.blockW column block).qs (i_qsk * 8 + j)) k).toInt.natAbs =
      _ := abs_decompressSubblock (grid (k / 8) (by omega))
  rw [Problem.value, ← Int.natCast_natAbs, bytes]
  rfl

theorem sum_abs_value {column block i_qsk : ℕ}
    (grid : ∀ group < 4, p.gridIndex column block i_qsk group < 32) :
    ∑ k ∈ range 32, |p.value column block i_qsk k| =
      ∑ group ∈ range 4, ∑ lane ∈ range 8, (magnitude (p.gridIndex column block i_qsk group) lane : ℤ) := by
  rw [show 32 = 4 * 8 from rfl, Layout.sum_rows]
  apply sum_congr rfl
  intro group hg
  apply sum_congr rfl
  intro lane hl
  have hg := mem_range.mp hg
  have hl := mem_range.mp hl
  rw [abs_value p _ _ _ (by omega) grid, Layout.row hl, Layout.column hl]

theorem sum_abs_value_ge {column block i_qsk group : ℕ} (hg : group < 4)
    (grid : ∀ group < 4, p.gridIndex column block i_qsk group < 32)
    (pos : 0 < p.gridIndex column block i_qsk group) :
    290 ≤ ∑ k ∈ range 32, |p.value column block i_qsk k| := by
  have each := fun g hg => sum_magnitude_ge (grid g hg)
  have this := sum_magnitude_pos _ (grid group hg) pos
  rw [sum_abs_value grid]
  norm_cast
  rw [sum_range_succ, sum_range_succ, sum_range_succ, sum_range_succ, sum_range_zero]
  have zero := each 0 (by decide)
  have one := each 1 (by decide)
  have two := each 2 (by decide)
  have three := each 3 (by decide)
  have which : group = 0 ∨ group = 1 ∨ group = 2 ∨ group = 3 := by omega
  rcases which with rfl | rfl | rfl | rfl
  all_goals omega

theorem inRange_of_zero (quants : Quantised p.activation)
    (zero : ∀ column < p.tilesN * 32, ∀ block < p.blocks, ∀ i_qsk < 8, ∀ group < 4,
      p.gridIndex column block i_qsk group = 0) : InRange p := by
  intro row hr column hc block hb i_qsk hq i_k hk
  refine sum_fits (b := 8 * 127) (fun k hk' => ?_) ?_
  · have index := zero column hc block hb i_qsk hq
    have small : ∀ group < 4, p.gridIndex column block i_qsk group < 32 := fun g hg => by
      rw [index g hg]
      decide
    have eight : ∀ lane < 8, magnitude 0 lane = 8 := by decide
    have value := abs_value p column block i_qsk (show k < 32 by omega) small
    rw [index (k / 8) (by omega), eight (k % 8) (by omega)] at value
    rw [Problem.product, abs_mul, value]
    exact mul_le_mul_of_nonneg_left (quants _ _) (by decide)
  · have : ((i_k + 1 : ℕ) : ℤ) * (8 * 127) ≤ 32 * (8 * 127) := by omega
    exact lt_of_le_of_lt this (by decide)

def signedQuants (p : Problem α) (column block i_qsk : ℕ) : ℕ → BlockQ8K α := fun x =>
  { d := (p.activation x).d
    qs := fun j => BitVec.ofInt 8 (127 * (p.value column block i_qsk (j % 32)).sign) }

theorem toInt_ofInt_sign (x : ℤ) : (BitVec.ofInt 8 (127 * x.sign)).toInt = 127 * x.sign := by
  rcases Int.sign_trichotomy x with h | h | h <;> rw [h] <;> decide

theorem signedQuants_toInt (p : Problem α) (column block i_qsk x k : ℕ) :
    ((signedQuants p column block i_qsk x).qs k).toInt =
      127 * (p.value column block i_qsk (k % 32)).sign :=
  toInt_ofInt_sign _

theorem quantised_signed (p : Problem α) (column block i_qsk : ℕ) :
    Quantised (signedQuants p column block i_qsk) := by
  intro x k
  rw [signedQuants_toInt]
  rcases Int.sign_trichotomy (p.value column block i_qsk (k % 32)) with h | h | h <;>
    rw [h] <;> decide

theorem product_withActivation (p : Problem α) (activation : ℕ → BlockQ8K α)
    (row column block i_qsk k : ℕ) :
    (p.withActivation activation).product row column block i_qsk k =
      p.value column block i_qsk k *
        ((activation (row * p.blocks + block)).qs (i_qsk * 32 + k)).toInt := rfl

theorem generated_withActivation (activation : ℕ → BlockQ8K α) (grid : Generated p) :
    Generated (p.withActivation activation) := grid

theorem sum_signed (p : Problem α) (row column block i_qsk : ℕ) :
    ∑ k ∈ range 32, (p.withActivation (signedQuants p column block i_qsk)).product
        row column block i_qsk k =
      (∑ k ∈ range 32, |p.value column block i_qsk k|) * 127 := by
  rw [← dot_sign]
  apply sum_congr rfl
  intro k hk
  have index : (i_qsk * 32 + k) % 32 = k := Layout.column (mem_range.mp hk)
  rw [product_withActivation, signedQuants_toInt, index]

theorem exact_for_all_iff (grid : Generated p) (rows : 0 < p.tilesM) :
    (∀ activation, Quantised activation → Exact (p.withActivation activation)) ↔
      ∀ column < p.tilesN * 32, ∀ block < p.blocks, ∀ i_qsk < 8, ∀ group < 4,
        p.gridIndex column block i_qsk group = 0 := by
  constructor
  · intro all column hc block hb i_qsk hq group hg
    by_contra nonzero
    have exact := all _ (quantised_signed p column block i_qsk)
    have fits := (exact_iff_inRange (generated_withActivation _ grid)).mp exact
      0 (Nat.mul_pos rows (by decide)) column hc block hb i_qsk hq 31 (by decide)
    have large := sum_abs_value_ge hg (grid column hc block hb i_qsk hq) (Nat.pos_of_ne_zero nonzero)
    have high := fits.2
    rw [sum_signed] at high
    have limit : (2 : ℤ)^(16-1) = 32768 := by decide
    omega
  · intro zero activation quants
    exact (exact_iff_inRange (generated_withActivation activation grid)).mpr
      (inRange_of_zero quants zero)

/-- The accumulators are exact just when all partial sums fit into int16; a weight matrix
guarantees this for every activation just when all its grid indices are zero. -/
theorem accumulators_exact_iff (grid : Generated p) :
    (Exact p ↔ InRange p) ∧
    (0 < p.tilesM →
      ((∀ activation, Quantised activation → Exact (p.withActivation activation)) ↔
        ∀ column < p.tilesN * 32, ∀ block < p.blocks, ∀ i_qsk < 8, ∀ group < 4,
          p.gridIndex column block i_qsk group = 0)) :=
  ⟨exact_iff_inRange grid, exact_for_all_iff grid⟩

/-- One tile of one block: every grid index is `index`, every sign is plus, every quant is 127. -/
def constantInput (index : BitVec 8) : Problem ℚ where
  tilesM := 1
  tilesN := 1
  blocks := 1
  weight := fun _ => ⟨1, fun j => if j % 8 < 4 then index else 0⟩
  activation := fun _ => ⟨1, fun _ => 127⟩

theorem gridIndex_constant {index : BitVec 8} {column block i_qsk group : ℕ} (hg : group < 4) :
    (constantInput index).gridIndex column block i_qsk group = index.toNat := by
  have lane : (i_qsk * 8 + group) % 8 < 4 := by omega
  simp only [Problem.gridIndex, Problem.blockW, constantInput, if_pos lane]

theorem quantised_constant (index : BitVec 8) : Quantised (constantInput index).activation :=
  fun _ _ => show |(127 : BitVec 8).toInt| ≤ 127 by decide

/-- Grid index 30 and quants 127: the sum 85852 is held as 20316. -/
theorem accumulator_wraps :
    Generated (constantInput 30) ∧ Quantised (constantInput 30).activation ∧
    (∀ memory, memory.size = brSize (constantInput 30) →
      brAccumulator (constantInput 30) 0 0 0 0 31 memory = some 20316) ∧
    (∀ memory, memory.size = irSize (constantInput 30) →
      irAccumulator (constantInput 30) 0 0 0 0 31 memory = some 20316) ∧
    subblockSum ((constantInput 30).blockW 0 0) ((constantInput 30).blockA 0 0) 0 32 = some 85852 ∧
    ¬ Exact (constantInput 30) := by
  have grid : Generated (constantInput 30) := fun column _ block _ i_qsk _ group hg => by
    rw [gridIndex_constant hg]
    decide
  have held : accumulate 16 ((constantInput 30).product 0 0 0 0) 32 = 20316 := by decide +kernel
  have br : ∀ memory, memory.size = brSize (constantInput 30) →
      brAccumulator (constantInput 30) 0 0 0 0 31 memory = some 20316 := fun memory sizes => by
    rw [brAccumulator_eq sizes (by decide) (by decide) (by decide) (by decide), held]
  have ir : ∀ memory, memory.size = irSize (constantInput 30) →
      irAccumulator (constantInput 30) 0 0 0 0 31 memory = some 20316 := fun memory sizes => by
    rw [irAccumulator_eq sizes (by decide) (by decide) (by decide) (by decide) (by decide), held]
  have wanted : subblockSum ((constantInput 30).blockW 0 0) ((constantInput 30).blockA 0 0) 0 32 =
      some 85852 := by decide +kernel
  refine ⟨grid, quantised_constant 30, br, ir, wanted, fun exact => ?_⟩
  have same := (exact 0 (by decide) 0 (by decide) 0 (by decide) 0 (by decide) 31 (by decide)).1
    (someMemory (constantInput 30) (brSize (constantInput 30))) rfl
  rw [br _ rfl, wanted] at same
  exact absurd same (by decide)

theorem uniform_exact : Exact (constantInput 0) := by
  have grid : Generated (constantInput 0) := fun column _ block _ i_qsk _ group hg => by
    rw [gridIndex_constant hg]
    decide
  exact ((accumulators_exact_iff grid).2 (by decide)).mpr
    (fun _ _ _ _ _ _ _ hg => gridIndex_constant hg) _ (quantised_constant 0)

end Pfng.Iq2
