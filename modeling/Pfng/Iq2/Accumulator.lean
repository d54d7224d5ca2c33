import Pfng.Iq2.Packing

/-! The int16 accumulators as functions of the quantised input, and the int32 sum of the
reference. -/
namespace Pfng.Iq2
open Checked Register Rvv Layout Finset

variable {α : Type}

/-- `subblock_sum` of `dot_iq2_xxs_q8_K` after `n` elements. -/
def subblockSum (weight : BlockIq2xxs α) (activation : BlockQ8K α) (subblock : ℕ) : ℕ → Option ℤ
  | 0 => some 0
  | n+1 =>
      (subblockSum weight activation subblock n).bind fun sum =>
      (decodeSubblock (fun j => weight.qs (subblock * 8 + j)) n).map fun value =>
        wrap 32 (sum + value.toInt * (activation.qs (subblock * 32 + n)).toInt)

namespace Problem

def blockW (p : Problem α) (column block : ℕ) : BlockIq2xxs α := p.weight (column * p.blocks + block)

def blockA (p : Problem α) (row block : ℕ) : BlockQ8K α := p.activation (row * p.blocks + block)

def gridIndex (p : Problem α) (column block i_qsk group : ℕ) : ℕ :=
  ((p.blockW column block).qs (i_qsk * 8 + group)).toNat

/-- The decoded weight of element `k` of a sub-block. -/
def value (p : Problem α) (column block i_qsk k : ℕ) : ℤ :=
  (decompressSubblock (fun j => (p.blockW column block).qs (i_qsk * 8 + j)) k).toInt

def quant (p : Problem α) (row block i_qsk k : ℕ) : ℤ :=
  ((p.blockA row block).qs (i_qsk * 32 + k)).toInt

def product (p : Problem α) (row column block i_qsk k : ℕ) : ℤ :=
  p.value column block i_qsk k * p.quant row block i_qsk k

def withActivation (p : Problem α) (activation : ℕ → BlockQ8K α) : Problem α :=
  { p with activation := activation }

theorem abs_product_le (p : Problem α) (row column block i_qsk k : ℕ) :
    |p.product row column block i_qsk k| ≤ 16384 :=
  abs_toInt_mul_toInt_le _ _

end Problem

section Run

variable {activation : ℕ → BlockQ8K α} {source : ℕ → ℕ → BlockIq2xxs α} {size : Buffer → ℕ}
variable {tiles blocks : ℕ} {memory : Memory Buffer (Cell α)}
variable {unpack : Memory Buffer (Cell α) → Option (Memory Buffer (Cell α))} {T : Region Buffer}

/-- Packing and unpacking leave the packed data in every activation cell and every cell that the
unpacking writes. -/
theorem packed_run (sizes : memory.size = size) (sizeD : size .activationD = tiles * blocks * 12)
    (sizeQs : size .activationQs = tiles * blocks * 3072)
    (writes : Writes size unpack (packed activation blocks source) T)
    (scales : ∀ x, ¬ T .activationD x) (quants : ∀ x, ¬ T .activationQs x) :
    Ends ((packActivation activation tiles blocks memory).bind unpack) fun m => m.size = size ∧
      HoldsActivation activation tiles blocks m ∧ Holds (packed activation blocks source) T m := by
  refine (packActivation_ends sizes sizeD sizeQs).bind fun m ⟨sizes, held⟩ => ?_
  refine (writes m sizes fun _ _ no => no.elim).mono fun m' ⟨change, left⟩ => ?_
  exact ⟨change.size.trans sizes, held.keep change scales quants, left⟩

theorem sumSubblock_ends (sizes : memory.size = size) {tile block row slot i_qsk i_k : ℕ}
    (held : HoldsActivation activation tiles blocks memory) (ht : tile < tiles) (hb : block < blocks)
    (hr : row < 12) (holds : Holds (packed activation blocks source) T memory)
    (cells : ∀ x, x / 8192 = slot → T .weightQs x) (room : (slot + 1) * 8192 ≤ size .weightQs)
    (hq : i_qsk < 8) (hk : i_k < 32) :
    Ends (sumSubblock memory (tile * blocks + block) slot i_qsk row i_k) fun sum => ∀ lane < 32,
      sum lane = accumulate 16 (fun k =>
        (decompressSubblock (fun j => (source slot lane).qs (i_qsk * 8 + j)) k).toInt *
          ((activation ((tile * 12 + row) * blocks + block)).qs (i_qsk * 32 + k)).toInt) (i_k + 1) := by
  have loads : Loads (operands memory (tile * blocks + block) slot i_qsk row)
      (fun k lane => decompressSubblock (fun j => (source slot lane).qs (i_qsk * 8 + j)) k)
      (fun k => (activation ((tile * 12 + row) * blocks + block)).qs (i_qsk * 32 + k)) 32 32 := by
    intro k hk
    obtain ⟨r, hr', lanes⟩ := loadLanes_eq holds sizes
      (show slot * 8192 + (i_qsk * 32 + k) * 32 + 32 ≤ size .weightQs by omega)
      fun lane hl => cells _ (by omega)
    have quant := held.quant tile ht block hb row hr (i_qsk * 32 + k) (by omega)
    refine ⟨r, by rw [operands, hr', Option.bind_some, quant]; rfl, fun lane hl => ?_⟩
    rw [lanes lane hl, packed_weightQs hq hk hl]
  obtain ⟨sum, run, sums⟩ := mulRounds_eq loads hk
  exact ⟨sum, run, sums⟩

end Run

variable {p : Problem α} {row column block i_qsk i_k : ℕ} {memory : Memory Buffer (Cell α)}

theorem brAccumulator_eq (sizes : memory.size = brSize p) (hr : row < p.tilesM * 12)
    (hb : block < p.blocks) (hq : i_qsk < 8) (hk : i_k < 32) :
    brAccumulator p row column block i_qsk i_k memory =
      some (accumulate 16 (p.product row column block i_qsk) (i_k + 1)) := by
  have writes : Writes (brSize p) (decompressBr p.weight p.blocks (column / 32) (block / kcBlocks))
      (packed p.activation p.blocks (sourceBr p.weight p.blocks _ _)) _ :=
    decompressBr_writes p.activation p.weight _ _ rfl rfl rfl
  obtain ⟨m, run, sizes', held, holds⟩ := packed_run sizes rfl rfl writes (by simp [slotCells])
    (by simp [slotCells])
  have slot : block % kcBlocks < kcBlocks := Nat.mod_lt _ (by decide)
  have inside : block % kcBlocks < min (p.blocks - block / kcBlocks * kcBlocks) kcBlocks := by
    have split := Nat.div_add_mod' block kcBlocks
    omega
  obtain ⟨sum, summed, sums⟩ := sumSubblock_ends sizes' held (show row / 12 < p.tilesM by omega) hb
    (show row % 12 < 12 from Nat.mod_lt _ (by decide)) holds
    (fun x hx => ⟨_, inside, hx⟩) (Nat.mul_le_mul_right 8192 slot) hq hk
  rw [brAccumulator, ← Option.bind_assoc, run, Option.bind_some, summed, Option.map_some,
    sums _ (Nat.mod_lt column (by decide))]
  simp only [sourceBr, Nat.div_add_mod']
  rfl

theorem irAccumulator_eq (sizes : memory.size = irSize p) (hr : row < p.tilesM * 12)
    (hc : column < p.tilesN * 32) (hb : block < p.blocks) (hq : i_qsk < 8) (hk : i_k < 32) :
    irAccumulator p row column block i_qsk i_k memory =
      some (accumulate 16 (p.product row column block i_qsk) (i_k + 1)) := by
  have writes : Writes (irSize p) (decompressIr p.weight p.blocks p.tilesN)
      (packed p.activation p.blocks (sourceIr p.weight p.blocks)) _ :=
    decompressIr_writes p.activation p.weight rfl rfl rfl
  obtain ⟨m, run, sizes', held, holds⟩ := packed_run sizes rfl rfl writes (by simp [slotCells])
    (by simp [slotCells])
  have tile : column / 32 < p.tilesN := by omega
  have slot : column / 32 * p.blocks + block < p.tilesN * p.blocks := index_lt tile hb
  obtain ⟨sum, summed, sums⟩ := sumSubblock_ends sizes' held (show row / 12 < p.tilesM by omega) hb
    (show row % 12 < 12 from Nat.mod_lt _ (by decide)) holds
    (fun x hx => ⟨_, tile, _, hb, hx⟩) (Nat.mul_le_mul_right 8192 slot) hq hk
  rw [irAccumulator, ← Option.bind_assoc, run, Option.bind_some, summed, Option.map_some,
    sums _ (Nat.mod_lt column (by decide))]
  simp only [sourceIr, Layout.row hb, Layout.column hb, Nat.div_add_mod']
  rfl

theorem subblockSum_eq (grid : ∀ group < 4, p.gridIndex column block i_qsk group < 32) {n : ℕ}
    (hn : n ≤ 32) :
    subblockSum (p.blockW column block) (p.blockA row block) i_qsk n =
      some (∑ k ∈ range n, p.product row column block i_qsk k) := by
  induction n with
  | zero => rfl
  | succ n ih =>
      have decode : decodeSubblock (fun j => (p.blockW column block).qs (i_qsk * 8 + j)) n = _ :=
        decodeSubblock_eq (grid (n / 8) (by omega))
      have fits : Fits 32 (∑ k ∈ range (n + 1), p.product row column block i_qsk k) := by
        apply sum_fits fun k _ => p.abs_product_le row column block i_qsk k
        have : (n + 1 : ℕ) * (16384 : ℤ) ≤ 32 * 16384 := by omega
        exact lt_of_le_of_lt this (by decide)
      rw [subblockSum, ih (by omega), Option.bind_some, decode, Option.map_some,
        ← (wrap_eq_self_iff (by decide) _).mpr fits, sum_range_succ]
      rfl

end Pfng.Iq2
