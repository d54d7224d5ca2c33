import Pfng.Iq2.Codec
import Pfng.Lib.Memory
import Pfng.Rvv

/-! The packing loops of the two custom kernels and the int16 sub-block accumulators that they
build. Both unpack weights into slots of 256 rows by 32 columns; they differ in which blocks go
into which slot. -/
namespace Pfng.Iq2
open Checked Rvv

inductive Buffer
  | activationD | activationQs | weightQs | weightScale | weightD
  deriving DecidableEq

abbrev Cell (α : Type) : Buffer → Type
  | .activationD => α
  | .activationQs => BitVec 8
  | .weightQs => BitVec 8
  | .weightScale => ℤ
  | .weightD => α

variable {α : Type}

/-- The loops of `prepare` over the tiles of 12 activation rows. -/
def packActivation (activation : ℕ → BlockQ8K α) (tiles blocks : ℕ) :
    Memory Buffer (Cell α) → Option (Memory Buffer (Cell α)) :=
  forUp (fun tile => forUp (fun block => forUp (fun row memory =>
    let source := activation ((tile * 12 + row) * blocks + block)
    (memory.store .activationD ((tile * blocks + block) * 12 + row) source.d).bind
      (forUp (fun k memory =>
        memory.store .activationQs ((tile * blocks + block) * 3072 + (k * 12 + row)) (source.qs k))
        0 256)) 0 12) 0 blocks) 0 tiles

/-- One trip of the `i_t` loop: four columns are unpacked and stored by one segment store. -/
def decompressColumns (source : ℕ → BlockIq2xxs α) (slot i_qsk i_t : ℕ)
    (memory : Memory Buffer (Cell α)) : Option (Memory Buffer (Cell α)) :=
  let pointer := fun field j => (source (i_t * 4 + field)).qs (i_qsk * 8 + j)
  (forUp (fun k => forUp (fun field memory =>
    memory.store .weightQs (slot * 8192 + (i_qsk * 32 * 32 + i_t * 4 + (k * 32 + field)))
      (decompressSubblock (pointer field) k)) 0 4) 0 32 memory).bind
  (forUp (fun field memory =>
    memory.store .weightScale (slot * 256 + (i_qsk * 32 + i_t * 4 + field))
      (decompressScale (pointer field))) 0 4)

/-- The unpacking of one block of 32 columns into `slot`. -/
def decompressSlot (source : ℕ → BlockIq2xxs α) (slot : ℕ) (memory : Memory Buffer (Cell α)) :
    Option (Memory Buffer (Cell α)) :=
  (forUp (fun i_qsk => forUp (decompressColumns source slot i_qsk) 0 8) 0 8 memory).bind
  (forUp (fun i_n memory => memory.store .weightD (slot * 32 + i_n) (source i_n).d) 0 32)

/-- `KC / QK_K`. -/
def kcBlocks : ℕ := 64

/-- `decompress_iq2` of the batch-reduce kernel: the blocks of chunk `i_kc` for columns `i_nr`. -/
def decompressBr (weight : ℕ → BlockIq2xxs α) (blocks i_nr i_kc : ℕ) :
    Memory Buffer (Cell α) → Option (Memory Buffer (Cell α)) :=
  forUp (fun i_qk =>
    decompressSlot (fun i_n => weight ((i_nr * 32 + i_n) * blocks + (i_kc * kcBlocks + i_qk))) i_qk)
    0 (min (blocks - i_kc * kcBlocks) kcBlocks)

/-- `decompress_iq2` of the immediate-reduce kernel: every block of every column. -/
def decompressIr (weight : ℕ → BlockIq2xxs α) (blocks tiles : ℕ) :
    Memory Buffer (Cell α) → Option (Memory Buffer (Cell α)) :=
  forUp (fun i_nr => forUp (fun i_qk =>
    decompressSlot (fun i_n => weight ((i_nr * 32 + i_n) * blocks + i_qk)) (i_nr * blocks + i_qk))
    0 blocks) 0 tiles

/-- What round `i_k` loads: 32 columns of one weight row, and one quant of `row`. -/
def operands (memory : Memory Buffer (Cell α)) (blockA slot i_qsk row i_k : ℕ) :
    Option ((ℕ → BitVec 8) × BitVec 8) :=
  (memory.loadLanes .weightQs (slot * 8192 + (i_qsk * 32 + i_k) * 32) 32).bind fun w =>
  (memory.load .activationQs (blockA * 3072 + ((i_qsk * 32 + i_k) * 12 + row))).map fun a => (w, a)

/-- `sum_subblock<row>` after round `i_k`, for the block at `blockA` and the weights in `slot`. -/
def sumSubblock (memory : Memory Buffer (Cell α)) (blockA slot i_qsk row : ℕ) :
    ℕ → Option (ℕ → ℤ) :=
  mulRounds (operands memory blockA slot i_qsk row)

/-- Shape and input of a run: `m / 12` and `n / 32` tiles, `k / 256` blocks. -/
structure Problem (α : Type) where
  tilesM : ℕ
  tilesN : ℕ
  blocks : ℕ
  weight : ℕ → BlockIq2xxs α
  activation : ℕ → BlockQ8K α

/-- The accumulator of the batch-reduce kernel for one output element after round `i_k`. -/
def brAccumulator (p : Problem α) (row column block i_qsk i_k : ℕ) (memory : Memory Buffer (Cell α)) :
    Option ℤ :=
  (packActivation p.activation p.tilesM p.blocks memory).bind fun memory =>
  (decompressBr p.weight p.blocks (column / 32) (block / kcBlocks) memory).bind fun memory =>
  (sumSubblock memory (row / 12 * p.blocks + block) (block % kcBlocks) i_qsk (row % 12) i_k).map
    fun sum => sum (column % 32)

/-- The same of the immediate-reduce kernel. -/
def irAccumulator (p : Problem α) (row column block i_qsk i_k : ℕ) (memory : Memory Buffer (Cell α)) :
    Option ℤ :=
  (packActivation p.activation p.tilesM p.blocks memory).bind fun memory =>
  (decompressIr p.weight p.blocks p.tilesN memory).bind fun memory =>
  (sumSubblock memory (row / 12 * p.blocks + block) (column / 32 * p.blocks + block) i_qsk
    (row % 12) i_k).map fun sum => sum (column % 32)

/-- Sizes of the buffers in the batch-reduce kernel. -/
def brSize (p : Problem α) : Buffer → ℕ
  | .activationD => p.tilesM * p.blocks * 12
  | .activationQs => p.tilesM * p.blocks * 3072
  | .weightQs => kcBlocks * 8192
  | .weightScale => kcBlocks * 256
  | .weightD => kcBlocks * 32

def irSize (p : Problem α) : Buffer → ℕ
  | .activationD => p.tilesM * p.blocks * 12
  | .activationQs => p.tilesM * p.blocks * 3072
  | .weightQs => p.tilesN * p.blocks * 8192
  | .weightScale => p.tilesN * p.blocks * 256
  | .weightD => p.tilesN * p.blocks * 32

end Pfng.Iq2
