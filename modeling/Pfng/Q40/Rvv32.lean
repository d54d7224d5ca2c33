import Pfng.Lib.Blocking
import Pfng.Lib.Fresh
import Pfng.Lib.Pipeline
import Pfng.Lib.Words
import Pfng.Q40.M8b
import Pfng.Rvv

/-! The two vector kernels that take 32 columns at once: `q4_0-q8_0-RVV-group` with twelve rows and
`q4_0-q8_0-RVV-my` with eight. They differ in the order in which `prepare` writes the quants of the
activation and in how the kernel reads them. -/
namespace Pfng.Q40.Rvv32
open Checked BatchReduction Words
open Rvv (Overflow)

inductive Operand
  | activation | weight
  deriving DecidableEq

/-- The members `d` and `qs` of the packed blocks, and the output. -/
inductive RvvBuffer
  | scales (operand : Operand) | quants (operand : Operand) | output
  deriving DecidableEq

variable {F H P : Type}

abbrev RvvCell (F H : Type) : RvvBuffer → Type
  | .scales _ => Option H
  | .quants _ => Option (BitVec 8)
  | .output => Counted F

abbrev RvvMemory (F H : Type) := Memory RvvBuffer (RvvCell F H)

/-- A memory that nothing was written to. -/
def rvvUnwritten (size : RvvBuffer → ℕ) : RvvMemory F H where
  size := size
  cell := fun k _ => match k with
    | .scales _ => none
    | .quants _ => none
    | .output => ⟨none, 0⟩

section Prepare

variable (request : Bench.BenchmarkRequest) (operands : Operands H H)

/-- Elements of each buffer, for tiles of `mr` rows. -/
def rvvSize (mr : ℕ) : RvvBuffer → ℕ
  | .scales .activation => request.m / mr * (request.k / 32) * mr
  | .quants .activation => request.m / mr * (request.k / 32) * (mr * 32)
  | .scales .weight => request.n / 32 * (request.k / 32) * 32
  | .quants .weight => request.n / 32 * (request.k / 32) * 512
  | .output => request.m * request.n

/-- The loops over the tiles of 32 columns. -/
def packWeights : RvvMemory F H → Option (RvvMemory F H) :=
  forUp (fun tile => forUp (fun b => forUp (fun x memory =>
    let w := tile * (request.k / 32) + b
    let source := operands.weight ((tile * 32 + x) * (request.k / 32) + b)
    (memory.store (.scales .weight) (w * 32 + x) (some source.d)).bind
    (forUp (fun z memory => memory.store (.quants .weight) (w * 512 + (z * 32 + x)) (some (source.qs z)))
      0 16)) 0 32) 0 (request.k / 32)) 0 (chunkCount request.n 32)

/-- The activation of the kernel with eight rows. -/
def packA8 : RvvMemory F H → Option (RvvMemory F H) :=
  forUp (fun tile => forUp (fun b => forUp (fun q memory =>
    let x := tile * (request.k / 32) + b
    let a := operands.activation (tile * 8 + q) b
    (memory.store (.scales .activation) (x * 8 + q) (some a.d)).bind
    (forUp (fun z memory =>
      (memory.store (.quants .activation) (x * 256 + (z * 16 + q)) (some (a.qs z))).bind fun memory =>
      memory.store (.quants .activation) (x * 256 + (z * 16 + 8 + q)) (some (a.qs (z + 16)))) 0 16))
    0 8) 0 (request.k / 32)) 0 (chunkCount request.m 8)

/-- One of the four loops over `x`: element `k` of the rows from `first` on, from byte `target` on. -/
def packRun (a : ℕ → BlockQ80 H) (block target first k n : ℕ) : RvvMemory F H → Option (RvvMemory F H) :=
  forUp (fun x memory =>
    memory.store (.quants .activation) (block * 384 + (target + x)) (some ((a (first + x)).qs k))) 0 n

/-- The activation of the kernel with twelve rows. -/
def packA12 : RvvMemory F H → Option (RvvMemory F H) :=
  forUp (fun tile => forUp (fun b memory =>
    let block := tile * (request.k / 32) + b
    let a := fun x => operands.activation (tile * 12 + x) b
    (forUp (fun x memory =>
      memory.store (.scales .activation) (block * 12 + x) (some (a x).d)) 0 12 memory).bind
    (forUp (fun z memory =>
      (packRun a block (z * 24) 0 z 8 memory).bind fun memory =>
      (packRun a block (z * 24 + 8) 8 z 4 memory).bind fun memory =>
      (packRun a block (z * 24 + 12) 0 (z + 16) 4 memory).bind
      (packRun a block (z * 24 + 16) 4 (z + 16) 8)) 0 16)) 0 (request.k / 32))
    0 (chunkCount request.m 12)

end Prepare

section Block

/-- `n` bytes of a block, none of them past its `bytes` bytes. -/
def blockBytes (operand : Operand) (bytes block offset n : ℕ) (memory : RvvMemory F H) :
    Option (ℕ → BitVec 8) :=
  if offset + n ≤ bytes then memory.fetchLanes (.quants operand) id (block * bytes + offset) n else none

/-- What a `z` step multiplies the low and the high weights by, row by row. -/
structure StepQuants where
  low : ℕ → BitVec 8
  high : ℕ → BitVec 8

/-- Word `a_ptr_temp` of a block. -/
def blockWord (block a_ptr_temp : ℕ) (memory : RvvMemory F H) : Option (BitVec 64) :=
  (blockBytes .activation 384 block (a_ptr_temp * 8) 8 memory).map ofEightBytes

/-- `a_0_7`, `a_8_15` and `a_16_23`. -/
def quants12 (block : ℕ) (memory : RvvMemory F H) (_ a_ptr_temp : ℕ) : Option (StepQuants × ℕ) :=
  (blockWord block a_ptr_temp memory).bind fun a_0_7 =>
  (blockWord block (a_ptr_temp + 1) memory).bind fun a_8_15 =>
  (blockWord block (a_ptr_temp + 2) memory).map fun a_16_23 =>
  (⟨fun row => if row < 8 then maskedByte a_0_7 row else maskedByte a_8_15 (row - 8),
    fun row => if row < 4 then maskedByte a_8_15 (row + 4) else maskedByte a_16_23 (row - 4)⟩,
    a_ptr_temp + 3)

/-- `a_ptr[b].qs[z * 16]` to `a_ptr[b].qs[z * 16 + 15]`. -/
def quants8 (block : ℕ) (memory : RvvMemory F H) (z : ℕ) (_ : Unit) : Option (StepQuants × Unit) :=
  (blockBytes .activation 256 block (z * 16) 16 memory).map fun qs => (⟨qs, fun row => qs (8 + row)⟩, ())

/-- `low4bits_0`, of the low and of the high nibbles. -/
def low4bits (src : ℕ → BitVec 8) (lane : ℕ) : BitVec 8 := (src lane &&& 0x0f#8) - 8

def high4bits (src : ℕ → BitVec 8) (lane : ℕ) : BitVec 8 := src lane >>> 4 - 8

variable (overflow : Overflow) (mr : ℕ)

/-- `__riscv_vwmul_vx_i16m2` for each row. -/
def mulRows (w a : ℕ → BitVec 8) : Option (ℕ → ℕ → ℤ) :=
  fetchAll mr fun row => fetchAll 32 fun lane => overflow.int16 ((w lane).toInt * (a row).toInt)

/-- `__riscv_vwmacc_vx_i16m2` for each row. -/
def macRows (sums : ℕ → ℕ → ℤ) (w a : ℕ → BitVec 8) : Option (ℕ → ℕ → ℤ) :=
  fetchAll mr fun row => fetchAll 32 fun lane =>
    overflow.int16 (sums row lane + (a row).toInt * (w lane).toInt)

/-- Step `z = 0`; `P` is what the reads of the activation carry from one step to the next. -/
def firstStep (quants : ℕ → P → Option (StepQuants × P)) (start : P) (src0_0 : ℕ → BitVec 8) :
    Option (P × (ℕ → ℕ → ℤ)) :=
  (quants 0 start).bind fun (a, pointer) =>
  (mulRows overflow mr (low4bits src0_0) a.low).bind fun suml_32 =>
  (macRows overflow mr suml_32 (high4bits src0_0) a.high).map fun suml_32 => (pointer, suml_32)

/-- The later steps. -/
def nextStep (quants : ℕ → P → Option (StepQuants × P)) (z : ℕ) (src0_0 : ℕ → BitVec 8) :
    P × (ℕ → ℕ → ℤ) → Option (P × (ℕ → ℕ → ℤ)) := fun (pointer, suml_32) =>
  (quants z pointer).bind fun (a, pointer) =>
  (macRows overflow mr suml_32 (low4bits src0_0) a.low).bind fun suml_32 =>
  (macRows overflow mr suml_32 (high4bits src0_0) a.high).map fun suml_32 => (pointer, suml_32)

/-- `suml_32_0` to `suml_32_11`, or to `suml_32_7`, of one block. -/
def blockSums (quants : ℕ → P → Option (StepQuants × P)) (start : P) (block : ℕ)
    (memory : RvvMemory F H) : Option (ℕ → ℕ → ℤ) :=
  (pipelined (fun z => blockBytes .weight 512 block (z * 32) 32 memory)
    (firstStep overflow mr quants start) (nextStep overflow mr quants) 14).map Prod.snd

end Block

abbrev SumRow (F : Type) := Memory Unit fun _ => F

section Kernel

variable [Inhabited H] (ops : FloatOps F H) (overflow : Overflow) (mr : ℕ)
variable (quants : ℕ → RvvMemory F H → ℕ → P → Option (StepQuants × P)) (start : P)

def newSumRow : SumRow F := ⟨fun _ => mr * 32, fun _ _ => ops.zero⟩

/-- The scaling of the sums of one block. -/
def addBlock (a b : ℕ) (memory : RvvMemory F H) (suml_32 : ℕ → ℕ → ℤ) (sum_row : SumRow F) :
    Option (SumRow F) :=
  (memory.fetchLanes (.scales .weight) id (b * 32) 32).bind fun d =>
  let vec_scales_32 := fun lane => ops.widen (d lane)
  forUp (fun row sum_row =>
    (sum_row.loadLanes () (row * 32) 32).bind fun sum =>
    (memory.load (.scales .activation) (a * mr + row)).join.bind fun d =>
    sum_row.storeLanes () (row * 32) 32 fun lane =>
      ops.fma (sum lane) (ops.ofInt (suml_32 row lane)) (ops.mul (vec_scales_32 lane) (ops.widen d)))
    0 mr sum_row

/-- `__riscv_vse32_v_f32m4` to the output. -/
def storeOutput (base : ℕ) (v : ℕ → F) (memory : RvvMemory F H) : Option (RvvMemory F H) :=
  memory.storeLanes .output base 32 fun lane =>
    ⟨some (v lane), (memory.cell .output (base + lane)).writes + 1⟩

/-- The loop over the `nb` blocks from `vy` and `vx` on. -/
def sumBlocks (nb vx vy : ℕ) (memory : RvvMemory F H) : Option (SumRow F) :=
  forUp (fun b sum_row =>
    (blockSums overflow mr (quants (vy + b) memory) start (vx + b) memory).bind fun suml_32 =>
    addBlock ops mr (vy + b) (vx + b) memory suml_32 sum_row) 0 nb (newSumRow ops mr)

/-- What both kernels do with their rows of a tile; `vx` and `vy` count blocks, `s` elements. -/
def gemm (k s bs vx vy m n : ℕ) : RvvMemory F H → Option (RvvMemory F H) :=
  let nb := k / 32
  forUp (fun y => forUp (fun x memory =>
    (sumBlocks ops overflow mr quants start nb (vx + x * nb) (vy + y * nb) memory).bind fun sum_row =>
    forUp (fun row memory => (sum_row.loadLanes () (row * 32) 32).bind fun lanes =>
      storeOutput (s + ((y * mr + row) * bs + x * 32)) lanes memory) 0 mr memory)
    0 (n / 32)) 0 ((m - m % mr) / mr)

/-- The loops of `run` around a kernel. -/
def runTiles (kernel : (k s bs vx vy m n : ℕ) → RvvMemory F H → Option (RvvMemory F H))
    (request : Bench.BenchmarkRequest) (iterations : ℕ) : RvvMemory F H → Option (RvvMemory F H) :=
  forUp (fun _ => forUp (fun tile_m => forUp (fun tile_n =>
    kernel request.k (tile_m * mr * request.n + tile_n * 32) request.n (tile_n * (request.k / 32))
      (tile_m * (request.k / 32)) mr 32) 0 (chunkCount request.n 32)) 0 (chunkCount request.m mr))
    0 iterations

end Kernel

section Group

variable [Inhabited H] (ops : FloatOps F H) (overflow : Overflow)

/-- `ggml_gemm_q4_0_12x32_q8_0`. -/
def gemm12x32 : (k s bs vx vy m n : ℕ) → RvvMemory F H → Option (RvvMemory F H) :=
  gemm ops overflow 12 quants12 0

def prepare12 (request : Bench.BenchmarkRequest) (operands : Operands H H) (memory : RvvMemory F H) :
    Option (RvvMemory F H) :=
  (packA12 request operands memory).bind (packWeights request operands)

def run12 : Bench.BenchmarkRequest → ℕ → RvvMemory F H → Option (RvvMemory F H) :=
  runTiles 12 (gemm12x32 ops overflow)

end Group

section My

variable [Inhabited H] (ops : FloatOps F H) (overflow : Overflow)

/-- `ggml_gemm_q4_0_8x32_q8_0`. -/
def gemm8x32 : (k s bs vx vy m n : ℕ) → RvvMemory F H → Option (RvvMemory F H) :=
  gemm ops overflow 8 quants8 ()

def prepare8 (request : Bench.BenchmarkRequest) (operands : Operands H H) (memory : RvvMemory F H) :
    Option (RvvMemory F H) :=
  (packA8 request operands memory).bind (packWeights request operands)

def run8 : Bench.BenchmarkRequest → ℕ → RvvMemory F H → Option (RvvMemory F H) :=
  runTiles 8 (gemm8x32 ops overflow)

end My

end Pfng.Q40.Rvv32
