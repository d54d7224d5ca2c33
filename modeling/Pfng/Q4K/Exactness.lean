import Mathlib.Algebra.Order.BigOperators.Group.Finset
import Mathlib.Data.Rat.Init
import Pfng.Q4K.Accumulator

/-! When the int16 accumulators of the Q4_K kernels are exact. Nibbles up to 15 and quants up to
127 leave room only for sub-blocks whose nibbles add up to at most 258. -/
namespace Pfng.Q4K
open Checked Register Finset

variable {α : Type} {p : Problem α}

/-- At every element and round the 12-row kernel holds the exact partial sum. -/
def MyExact (p : Problem α) : Prop :=
  ∀ row < p.tilesM * 12, ∀ column < p.tilesN * 32, ∀ block < p.blocks, ∀ i_qsk < 8, ∀ i_k < 32,
    ∀ memory, memory.size = bufferSize 12 p → myAccumulator p row column block i_qsk i_k memory =
      some (∑ k ∈ range (i_k + 1), p.product row column block i_qsk k)

/-- At every element and round the grouped kernel holds the exact partial sum. -/
def GroupExact (p : Problem α) : Prop :=
  ∀ row < p.tilesM * 4, ∀ column < p.tilesN * 32, ∀ block < p.blocks, ∀ i_qsk < 8, ∀ i_k < 32,
    ∀ memory, memory.size = bufferSize 4 p → groupAccumulator p row column block i_qsk i_k memory =
      some (∑ k ∈ range (i_k + 1), p.product row column block i_qsk k)

/-- Every partial sum of nibble times quant in tiles of `mr` rows lies in the range of int16. -/
def InRange (mr : ℕ) (p : Problem α) : Prop :=
  ∀ row < p.tilesM * mr, ∀ column < p.tilesN * 32, ∀ block < p.blocks, ∀ i_qsk < 8, ∀ i_k < 32,
    Fits 16 (∑ k ∈ range (i_k + 1), p.product row column block i_qsk k)

theorem myExact_iff : MyExact p ↔ InRange 12 p := by
  constructor
  · intro exact row hr column hc block hb i_qsk hq i_k hk
    have run := exact row hr column hc block hb i_qsk hq i_k hk ⟨bufferSize 12 p, fun _ _ => 0⟩ rfl
    rw [myAccumulator_eq rfl hr hc hb hq hk, Option.some_inj] at run
    exact (accumulate_exact_iff (by decide) _ _).mp run
  · intro fits row hr column hc block hb i_qsk hq i_k hk memory sizes
    have same := (accumulate_exact_iff (by decide) _ _).mpr
      (fits row hr column hc block hb i_qsk hq i_k hk)
    rw [myAccumulator_eq sizes hr hc hb hq hk, same]

theorem groupExact_iff : GroupExact p ↔ InRange 4 p := by
  constructor
  · intro exact row hr column hc block hb i_qsk hq i_k hk
    have run := exact row hr column hc block hb i_qsk hq i_k hk ⟨bufferSize 4 p, fun _ _ => 0⟩ rfl
    rw [groupAccumulator_eq rfl hr hc hb hq hk, Option.some_inj] at run
    exact (accumulate_exact_iff (by decide) _ _).mp run
  · intro fits row hr column hc block hb i_qsk hq i_k hk memory sizes
    have same := (accumulate_exact_iff (by decide) _ _).mpr
      (fits row hr column hc block hb i_qsk hq i_k hk)
    rw [groupAccumulator_eq sizes hr hc hb hq hk, same]

/-- Every sub-block has nibbles that add up to at most `limit`. -/
def NibbleSums (limit : ℕ) (p : Problem α) : Prop :=
  ∀ column < p.tilesN * 32, ∀ block < p.blocks, ∀ i_qsk < 8,
    ∑ k ∈ range 32, p.nibble column block i_qsk k ≤ limit

theorem inRange_of_nibbleSums {mr : ℕ} (quants : Quantised p.activation)
    (small : NibbleSums 258 p) : InRange mr p := by
  intro row hr column hc block hb i_qsk hq i_k hk
  have part : ∑ k ∈ range (i_k + 1), p.nibble column block i_qsk k ≤
      ∑ k ∈ range 32, p.nibble column block i_qsk k := by
    apply sum_le_sum_of_subset
    exact range_subset_range.mpr hk
  have limit := part.trans (small column hc block hb i_qsk hq)
  have bound : |∑ k ∈ range (i_k + 1), p.product row column block i_qsk k| ≤
      (∑ k ∈ range (i_k + 1), |(p.nibble column block i_qsk k : ℤ)|) * 127 :=
    abs_dot_le fun k _ => quants _ _
  simp only [Nat.abs_cast] at bound
  rw [← Nat.cast_sum] at bound
  refine fits_of_abs_lt (lt_of_le_of_lt bound ?_)
  have : (2 : ℤ)^(16-1) = 32768 := by decide
  omega

def fullQuants (p : Problem α) : ℕ → BlockQ8K α := fun x => ⟨(p.activation x).d, fun _ => 127⟩

theorem quantised_full (p : Problem α) : Quantised (fullQuants p) :=
  fun _ _ => show |(127 : BitVec 8).toInt| ≤ 127 by decide

theorem sum_full (p : Problem α) (row column block i_qsk : ℕ) :
    ∑ k ∈ range 32, (p.withActivation (fullQuants p)).product row column block i_qsk k =
      ((∑ k ∈ range 32, p.nibble column block i_qsk k : ℕ) : ℤ) * 127 := by
  rw [Nat.cast_sum, sum_mul]
  rfl

theorem nibbleSums_of_inRange {mr : ℕ} (rows : 0 < p.tilesM * mr)
    (fits : InRange mr (p.withActivation (fullQuants p))) : NibbleSums 258 p := by
  intro column hc block hb i_qsk hq
  have high := (fits 0 rows column hc block hb i_qsk hq 31 (by decide)).2
  rw [sum_full] at high
  have : (2 : ℤ)^(16-1) = 32768 := by decide
  omega

/-- The accumulators are exact just when all partial sums fit into int16; a weight matrix
guarantees this for every activation just when the nibbles of each sub-block add up to at most 258. -/
theorem nibble_sums_exact_iff :
    (MyExact p ↔ InRange 12 p) ∧ (GroupExact p ↔ InRange 4 p) ∧
    (0 < p.tilesM →
      ((∀ activation, Quantised activation → MyExact (p.withActivation activation)) ↔
        NibbleSums 258 p) ∧
      ((∀ activation, Quantised activation → GroupExact (p.withActivation activation)) ↔
        NibbleSums 258 p)) := by
  refine ⟨myExact_iff, groupExact_iff, fun rows => ⟨⟨fun all => ?_, fun small a quants => ?_⟩,
    ⟨fun all => ?_, fun small a quants => ?_⟩⟩⟩
  · exact nibbleSums_of_inRange (by omega) (myExact_iff.mp (all _ (quantised_full p)))
  · exact myExact_iff.mpr (inRange_of_nibbleSums (p := p.withActivation a) quants small)
  · exact nibbleSums_of_inRange (by omega) (groupExact_iff.mp (all _ (quantised_full p)))
  · exact groupExact_iff.mpr (inRange_of_nibbleSums (p := p.withActivation a) quants small)

/-- One tile of one block: every byte of nibbles is `nibbles`, every quant is 127. -/
def constantInput (nibbles : BitVec 8) : Problem ℚ where
  tilesM := 1
  tilesN := 1
  blocks := 1
  weight := fun _ => ⟨1, 1, fun _ => 0, fun _ => nibbles⟩
  activation := fun _ => ⟨1, fun _ => 127⟩

/-- Nibbles 15 and quants 127: the sum 60960 is held as -4576. -/
theorem nibble_sum_wraps :
    Quantised (constantInput 0xff).activation ∧
    (∀ memory, memory.size = bufferSize 12 (constantInput 0xff) →
      myAccumulator (constantInput 0xff) 0 0 0 0 31 memory = some (-4576)) ∧
    (∀ memory, memory.size = bufferSize 4 (constantInput 0xff) →
      groupAccumulator (constantInput 0xff) 0 0 0 0 31 memory = some (-4576)) ∧
    ∑ k ∈ range 32, (constantInput 0xff).product 0 0 0 0 k = 60960 ∧
    ¬ MyExact (constantInput 0xff) ∧ ¬ GroupExact (constantInput 0xff) := by
  have held : accumulate 16 ((constantInput 0xff).product 0 0 0 0) 32 = -4576 := by decide +kernel
  have total : ∑ k ∈ range 32, (constantInput 0xff).product 0 0 0 0 k = 60960 := by decide +kernel
  have outside : ¬ Fits 16 (∑ k ∈ range 32, (constantInput 0xff).product 0 0 0 0 k) := by
    rw [total]
    decide
  refine ⟨quantised_full (constantInput 0xff), fun memory sizes => ?_, fun memory sizes => ?_, total,
    fun exact => outside ?_, fun exact => outside ?_⟩
  · rw [myAccumulator_eq sizes (by decide) (by decide) (by decide) (by decide) (by decide), held]
  · rw [groupAccumulator_eq sizes (by decide) (by decide) (by decide) (by decide) (by decide), held]
  · exact myExact_iff.mp exact 0 (by decide) 0 (by decide) 0 (by decide) 0 (by decide) 31 (by decide)
  · exact groupExact_iff.mp exact 0 (by decide) 0 (by decide) 0 (by decide) 0 (by decide) 31
      (by decide)

/-- Nibbles 8 stay in range. -/
theorem middle_nibbles_exact : MyExact (constantInput 0x88) ∧ GroupExact (constantInput 0x88) := by
  have small : NibbleSums 258 (constantInput 0x88) := by
    intro column hc block hb i_qsk hq
    have each : ∀ k ∈ range 32, (constantInput 0x88).nibble column block i_qsk k = 8 := by
      intro k hk
      simp only [Problem.nibble, q4Value]
      split
      · change ((0x88 : BitVec 8) &&& 0x0f).toNat = 8
        decide
      · change ((0x88 : BitVec 8) >>> 4).toNat = 8
        decide
    rw [sum_congr rfl each, sum_const, card_range]
    decide
  have both := (nibble_sums_exact_iff (p := constantInput 0x88)).2.2 (by decide)
  exact ⟨both.1.mpr small _ (quantised_full (constantInput 0x88)),
    both.2.mpr small _ (quantised_full (constantInput 0x88))⟩

end Pfng.Q4K
