import Pfng.Lib.Layout
import Pfng.Lib.Memory
import Pfng.Q40.Adapter

/-! The buffers of the IME2 kernels, and the packing loops of their `prepare`. Two kernels fill
the same registers and differ in where a tile's registers and scales lie. -/
namespace Pfng.Q40
open Checked

inductive Buffer
  | aQs | aScales | bQs | bScales | scratch (place : Place) | acc | output
  deriving DecidableEq

/-- Scales are fp16 or fp32 values; a scratch buffer holds elements of `β`. -/
abbrev Ime2Cell (α β : Type) : Buffer → Type
  | .aQs => BitVec 8
  | .aScales => α
  | .bQs => BitVec 8
  | .bScales => α
  | .scratch _ => β
  | .acc => α
  | .output => α

abbrev Ime2Memory (α β : Type) := Memory Buffer (Ime2Cell α β)

/-- The activation loops over tiles of `mr` rows: two windows of quants and one scale for each row
and block. -/
def packActivation {α β : Type} [Field α] [LinearOrder α] [FloorRing α] (half : α → α)
    (activation : ℕ → α) (mr tiles blocks : ℕ) (quant scale : ℕ → ℕ → ℕ → ℕ) :
    Ime2Memory α β → Option (Ime2Memory α β) :=
  forUp (fun tile => forUp (fun block => forUp (fun row memory =>
    let source := quantizedActivation half activation blocks (tile * mr + row) block
    (forUp (fun window memory =>
      memory.storeLanes .aQs (quant tile block row + window * 128) 16
        fun j => source.qs (window * 16 + j)) 0 2 memory).bind fun memory =>
    memory.store .aScales (scale tile block row) source.d) 0 mr) 0 blocks) 0 tiles

/-- The weight loops over tiles of 32 columns: the bytes and the scale of each block. -/
def packWeights {α β : Type} (weight : ℕ → BlockQ40 α) (tiles blocks : ℕ) (scale : ℕ → ℕ → ℕ) :
    Ime2Memory α β → Option (Ime2Memory α β) :=
  forUp (fun tile => forUp (fun block => forUp (fun column memory =>
    let source := weight ((tile * 32 + column) * blocks + block)
    let quant := (tile * blocks + block) * 512
    (memory.storeLanes .bQs (quant + (column / 8 * 128 + column % 8 * 16)) 16 source.qs).bind
      fun memory =>
    memory.store .bScales (scale (tile * blocks + block) column) source.d) 0 32) 0 blocks) 0 tiles

def ActivationCells (mr tiles blocks : ℕ) (quant scale : ℕ → ℕ → ℕ → ℕ) : Region Buffer := fun k x =>
  ∃ tile < tiles, ∃ block < blocks, ∃ row < mr,
    k = .aQs ∧ (∃ window < 2, ∃ j < 16, x = quant tile block row + window * 128 + j) ∨
    k = .aScales ∧ x = scale tile block row

/-- The cells that the weight loops write. -/
def WeightCells (tiles blocks : ℕ) (scale : ℕ → ℕ → ℕ) : Region Buffer := fun k x =>
  ∃ tile < tiles, ∃ block < blocks, ∃ column < 32,
    k = .bQs ∧ (∃ j < 16,
      x = (tile * blocks + block) * 512 + (column / 8 * 128 + column % 8 * 16) + j) ∨
    k = .bScales ∧ x = scale (tile * blocks + block) column

section Packing

variable {α β : Type} [Field α] [LinearOrder α] [FloorRing α] {half : α → α} {activation : ℕ → α}
variable {weight : ℕ → BlockQ40 α} {mr tiles blocks : ℕ} {size : Buffer → ℕ}
variable {v : Contents Buffer (Ime2Cell α β)}

theorem packActivation_writes {quant scale : ℕ → ℕ → ℕ → ℕ}
    (quantBound : ∀ tile < tiles, ∀ block < blocks, ∀ row < mr,
      quant tile block row + 128 + 16 ≤ size .aQs)
    (scaleBound : ∀ tile < tiles, ∀ block < blocks, ∀ row < mr, scale tile block row < size .aScales)
    (quants : ∀ tile < tiles, ∀ block < blocks, ∀ row < mr, ∀ window < 2, ∀ j < 16,
      v .aQs (quant tile block row + window * 128 + j) =
        (quantizedActivation half activation blocks (tile * mr + row) block).qs (window * 16 + j))
    (scales : ∀ tile < tiles, ∀ block < blocks, ∀ row < mr, v .aScales (scale tile block row) =
      (quantizedActivation half activation blocks (tile * mr + row) block).d) :
    Writes size (packActivation half activation mr tiles blocks quant scale) v
      (ActivationCells mr tiles blocks quant scale) := by
  have stores : Writes size (packActivation half activation mr tiles blocks quant scale) v _ :=
    Writes.loop fun tile ht => Writes.loop fun block hb => Writes.loop fun row hr => Writes.seq
      (Writes.loop fun window hw => Writes.storeLanes
        (fun j hj => by
          have := quantBound tile ht block hb row hr
          omega)
        fun j hj => (quants tile ht block hb row hr window hw j hj).symm)
      (Writes.store (scaleBound tile ht block hb row hr) (scales tile ht block hb row hr).symm)
  refine stores.weaken (fun _ _ no => no) fun k x => ?_
  constructor
  · rintro ⟨tile, ht, block, hb, row, hr, ⟨rfl, window, hw, cell⟩ | scale⟩
    · exact ⟨tile, ht, block, hb, row, hr, .inl ⟨window, hw, rfl, cell⟩⟩
    · exact ⟨tile, ht, block, hb, row, hr, .inr scale⟩
  · rintro ⟨tile, ht, block, hb, row, hr, ⟨window, hw, rfl, cell⟩ | scale⟩
    · exact ⟨tile, ht, block, hb, row, hr, .inl ⟨rfl, window, hw, cell⟩⟩
    · exact ⟨tile, ht, block, hb, row, hr, .inr scale⟩

omit [Field α] [LinearOrder α] [FloorRing α] in
theorem packWeights_writes {scale : ℕ → ℕ → ℕ} (quantBound : tiles * blocks * 512 ≤ size .bQs)
    (scaleBound : ∀ slot < tiles * blocks, ∀ column < 32, scale slot column < size .bScales)
    (quants : ∀ tile < tiles, ∀ block < blocks, ∀ column < 32, ∀ j < 16,
      v .bQs ((tile * blocks + block) * 512 + (column / 8 * 128 + column % 8 * 16) + j) =
        (weight ((tile * 32 + column) * blocks + block)).qs j)
    (scales : ∀ tile < tiles, ∀ block < blocks, ∀ column < 32,
      v .bScales (scale (tile * blocks + block) column) =
        (weight ((tile * 32 + column) * blocks + block)).d) :
    Writes size (packWeights weight tiles blocks scale) v (WeightCells tiles blocks scale) :=
  Writes.loop fun tile ht => Writes.loop fun block hb => Writes.loop fun column hc => Writes.seq
    (Writes.storeLanes
      (fun j hj => by
        have slot : tile * blocks + block < tiles * blocks := Layout.index_lt ht hb
        omega)
      fun j hj => (quants tile ht block hb column hc j hj).symm)
    (Writes.store (scaleBound _ (Layout.index_lt ht hb) column hc)
      (scales tile ht block hb column hc).symm)

end Packing

end Pfng.Q40
