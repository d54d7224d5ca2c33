import Pfng.Q40.M4Run

/-! `q4_0-q8_0-IME-m4b`. The components of 32 K blocks wait in a buffer of the stack, which the next
32 blocks use again. -/
namespace Pfng.Q40.ImmediateReduction.BatchRed
open Checked Ime BatchReduction Words

/-- An element of `reduceInputBuffer`, with the K block that it belongs to. -/
structure Component (F : Type) where
  value : F
  block : ℕ

variable {F H : Type}

/-- What a reduction of `block` may read; what another block left counts as unwritten. -/
def Component.of (block : ℕ) (cell : Option (Component F)) : Option F :=
  (cell.filter fun component => component.block = block).map Component.value

/-- `reduceInputBuffer`. -/
abbrev ReduceInput (F : Type) := Memory Unit fun _ => Option (Component F)

def kRedBatchSize : ℕ := 32

/-- `float reduceInputBuffer[kOutputM * kOutputN * kRedBatchSize]`. -/
def reduceInputBuffer : ReduceInput F where
  size := fun _ => 4 * 16 * kRedBatchSize
  cell := fun _ _ => none

/-- `store_unpack`; `acc` is the accumulator by register and lane. -/
def storeUnpack (block : ℕ) (acc : ℕ → ℕ → F) (dst row_stride : ℕ) (buffer : ReduceInput F) :
    Option (ReduceInput F) :=
  (forUp (fun r buffer => buffer.storeLanes () (dst + r % 2 * 2 * row_stride + r / 2 * 4) 4
    fun lane => some ⟨acc r lane, block⟩) 0 8 buffer).bind
  (forUp (fun r buffer => buffer.storeMasked () (fun lane => 3 < lane)
    (dst + (r % 2 * 2 + 1) * row_stride - 4 + r / 2 * 4) 8
    fun lane => some ⟨acc r lane, block⟩) 0 8)

/-- What the K loop carries, and the reductions it has made: the slot and the block of the scales. -/
structure Batch (F : Type) where
  buffer : ReduceInput F
  acc : ℕ → ℕ → F
  reduced : List (ℕ × ℕ)

section Kernel

variable [Inhabited F] [Inhabited H] [OfWord F] (ops : FloatOps F H) (quantA quantB : ℕ)

/-- One round of the reduction loop. -/
def reduceComponent (memory : M4Memory H F) (reduction_block rci : ℕ) (batch : Batch F) :
    Option (Batch F) :=
  (batch.buffer.fetchLanes () (Component.of reduction_block) (rci * 4 * 16) 64).bind fun component =>
  (memory.fetchLanes .scales id ((quantB + reduction_block) * 16) 16).bind fun bsh =>
  (memory.fetchRows (.activation .staged) id (quantA + reduction_block * 144) 4 4 4).map fun as =>
  { batch with
    acc := fun row lane => ops.fma (batch.acc row lane)
      (ops.mul (component (row * 16 + lane)) (OfWord.ofWord (ofBytes (as row))))
      (ops.widen (bsh lane))
    reduced := batch.reduced ++ [(rci, reduction_block)] }

/-- One round of the K loop. -/
def blockStep (BlockCountK : ℕ) (memory : M4Memory H F) (bk : ℕ) (batch : Batch F) :
    Option (Batch F) :=
  (dots .staged (quantA + bk * 144) (quantB + bk) memory).bind fun inner_acc =>
  (storeUnpack bk (fun r lane => ops.ofInt (inner_acc (r / 2) (r % 2 * 8 + lane)))
    (bk % kRedBatchSize * 4 * 16) 16 batch.buffer).bind fun buffer =>
  let batch := { batch with buffer }
  let bk := bk + 1
  if bk % kRedBatchSize = 0 ∨ bk = BlockCountK then
    let reduction_count := if bk % kRedBatchSize = 0 then kRedBatchSize else bk % kRedBatchSize
    let reduction_block_start := bk - reduction_count
    forUp (fun rci => reduceComponent ops quantA quantB memory (reduction_block_start + rci) rci)
      0 reduction_count batch
  else some batch

def reduceTile (BlockCountK : ℕ) (memory : M4Memory H F) : Option (Batch F) :=
  forUp (blockStep ops quantA quantB BlockCountK memory) 0 BlockCountK
    ⟨reduceInputBuffer, fun _ _ => ops.zero, []⟩

/-- `SQ4BitGemmM4Kernel_CompInt8_ScaleFp16_Impl_BatchRed` on the rows from `baseC` on. -/
def m4bKernel (baseC CountN BlockCountK ldc : ℕ) : M4Memory H F → Option (M4Memory H F) :=
  forUp (fun tile_n memory =>
    (reduceTile ops quantA (tile_n * BlockCountK) BlockCountK memory).bind fun batch =>
    memory.storeRows (.floats .output) (baseC + tile_n * 16) ldc 4 16 fun row lane =>
      some (batch.acc row lane)) 0 (CountN / 16)

end Kernel

section Run

variable [Inhabited F] [Inhabited H] [OfWord F] (ops : FloatOps F H) (request : Bench.BenchmarkRequest)

def run (iterations : ℕ) : M4Memory H F → Option (M4Memory H F) :=
  forUp (fun _ => forUp (fun tile_m => m4bKernel ops (tile_m * (request.k / 32) * 144)
    (tile_m * 4 * request.n) request.n (request.k / 32) request.n) 0 (request.m / 4)) 0 iterations

end Run

end Pfng.Q40.ImmediateReduction.BatchRed
