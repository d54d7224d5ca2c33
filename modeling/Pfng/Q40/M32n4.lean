import Pfng.Lib.Blocking
import Pfng.Q40.HalfBlocks

/-! `q4_0-q8_0-IME-m32n4`: 32 rows and four columns. The panels of K have eight blocks, those of N
512 columns, and every panel of K adds to the output. -/
namespace Pfng.Q40.M32n4
open Checked Ime BatchReduction HalfBlocks

variable {F H : Type}

def kMr : ℕ := 32

def kNr : ℕ := 4

def kBytesPerVector : ℕ := 32

def kNc : ℕ := 512

def kKcBlocks : ℕ := 256 / 32

/-- `accumulator0` to `accumulator7` of one K block. -/
def accumulators (a b : ℕ) (memory : HalfMemory F H) : Option (ℕ → ℕ → ℤ) :=
  forUp (fun inner acc =>
    (memory.fetchLanes .quantsB id (b * 64 + inner * kBytesPerVector) kBytesPerVector).bind fun packed =>
    (memory.fetchRows .quantsA id (a * 1024 + inner * 2 * kBytesPerVector) (4 * 32) 8
      kBytesPerVector).bind fun activation_low =>
    (memory.fetchRows .quantsA id (a * 1024 + inner * 2 * kBytesPerVector + kBytesPerVector) (4 * 32) 8
      kBytesPerVector).map fun activation_high index =>
    vmadot .ime1 (vmadot .ime1 (acc index) (activation_low index) (lowWeights packed))
      (activation_high index) (highWeights packed))
    0 2 fun _ _ => 0

/-- The components of one K block. -/
def blockComponents (a b : ℕ) (memory : HalfMemory F H) (block : ℕ) (components : Components) :
    Option Components :=
  (accumulators (a + block) (b + block) memory).bind fun acc =>
  forUp (fun index components =>
    components.storeLanes () (block * (kMr * kNr) + index * 16) 16 fun lane => some (acc index lane))
    0 8 components

section Kernel

variable [Inhabited F] [Inhabited H] (ops : FloatOps F H) (a b c block_count_k ldc : ℕ)

/-- The inner loop over the blocks, for one row of the output. -/
def addBlocks (components : Components) (row : ℕ) (memory : HalfMemory F H) :
    (ℕ → F) → Option (ℕ → F) :=
  forUp (fun block output =>
    (memory.fetchLanes .scalesB id ((b + block) * kNr) kNr).bind fun weight_scale =>
    (components.fetchLanes () id (block * (kMr * kNr) + row * kNr) kNr).bind fun component =>
    (memory.load .scalesA ((a + block) * kMr + row)).join.map fun d lane =>
    ops.fma (output lane) (ops.ofInt (component lane))
      (ops.mul (ops.widen (weight_scale lane)) (ops.widen d))) 0 block_count_k

def reduceRow (components : Components) (row : ℕ) (memory : HalfMemory F H) : Option (HalfMemory F H) :=
  (memory.fetchLanes .output id (c + row * ldc) kNr).bind fun output =>
  (addBlocks ops a b block_count_k components row memory output).bind fun output =>
  memory.storeLanes .output (c + row * ldc) kNr fun lane => some (output lane)

/-- `q4_0_q8_0_ime_m32n4`. -/
def m32n4Kernel (memory : HalfMemory F H) : Option (HalfMemory F H) :=
  (forUp (blockComponents a b memory) 0 block_count_k (newComponents (kMr * kNr * 8))).bind
    fun components =>
  forUp (reduceRow ops a b c block_count_k ldc components) 0 kMr memory

end Kernel

section Run

variable (ops : FloatOps F H) (request : Bench.BenchmarkRequest)

/-- `prepare`: the halves are copied. -/
def prepare (operands : Operands H H) (fourRowScale : ℕ → ℕ → BitVec 32) (memory : HalfMemory F H) :
    Option (HalfMemory F H) :=
  (packA request operands fourRowScale id 8 memory).bind
  (packB request operands id 4 fun plane column j => plane * 32 + (column * 8 + j))

variable [Inhabited F] [Inhabited H]

/-- The tiles of one panel of K: N in chunks of 512 columns, for each the rows, for each row the
columns of the chunk. -/
def runPanel (block_k : ℕ) : HalfMemory F H → Option (HalfMemory F H) :=
  let kc_blocks := min kKcBlocks (request.k / 32 - block_k)
  forUp (fun chunk =>
    let block_n := chunk * kNc
    let nc := min kNc (request.n - block_n)
    forUp (fun tile_m => forUp (fun tile =>
      let tile_n := block_n + tile * 4
      m32n4Kernel ops (tile_m * (request.k / 32) + block_k) (tile_n / 4 * (request.k / 32) + block_k)
        (tile_m * kMr * request.n + tile_n) kc_blocks request.n)
      0 (chunkCount nc 4)) 0 (chunkCount request.m kMr)) 0 (chunkCount request.n kNc)

def run (iterations : ℕ) : HalfMemory F H → Option (HalfMemory F H) :=
  forUp (fun _ memory => (memory.fill .output (request.m * request.n) (some ops.zero)).bind
    (forUp (fun panel => runPanel ops request (panel * kKcBlocks)) 0
      (chunkCount (request.k / 32) kKcBlocks))) 0 iterations

end Run

end Pfng.Q40.M32n4
