import Pfng.Lib.Blocking
import Pfng.Q40.HalfBlocks

/-! `q4_0-q8_0-IME-m4n32b`: four rows and 32 columns, in panels of 512 elements of K. -/
namespace Pfng.Q40.M4n32b
open Checked Ime BatchReduction HalfBlocks

variable {F H : Type}

def KC : ℕ := 512

def MC : ℕ := 128

def ReductionBatch : ℕ := 8

/-- `pfng::rvv::vl`. -/
def vl (element_bits lmul : ℕ) : ℕ := lmul * 256 / element_bits

/-- What `vsetvli` grants of a requested length: 32 elements of e32m2 become the 16 of a group. -/
def granted (requested vlmax : ℕ) : ℕ := min requested vlmax

/-- `store_half`; `lanes[4][16]` is an array of its own. -/
def storeHalf (acc : ℕ → ℕ → ℤ) (destination : ℕ) (components : Components) : Option Components :=
  (forUp (fun group lanes => lanes.storeLanes () (group * 16) (granted (vl 16 2) 16)
    fun lane => some (acc group lane)) 0 4 (newComponents (4 * 16))).bind fun lanes =>
  forUp (fun group => forUp (fun lane components =>
    (lanes.load () (group * 16 + lane)).join.bind fun x =>
    components.store () (destination + (lane / 4 * 32 + (4 * group + lane % 4))) (some x)) 0 16) 0 4
    components

/-- The four accumulators of one half of the columns. -/
def halfAccumulators (half a b : ℕ) (memory : HalfMemory F H) : Option (ℕ → ℕ → ℤ) :=
  forUp (fun plane acc =>
    (memory.fetchRows .quantsA id (a * 128 + plane * 64) 32 2 32).bind fun av =>
    (memory.fetchRows .quantsB id (b * 512 + (plane * 256 + half * 4 * 32)) 32 4 32).map fun p g =>
    vmadot .ime1 (vmadot .ime1 (acc g) (av 0) (lowWeights (p g))) (av 1) (highWeights (p g)))
    0 2 fun _ _ => 0

/-- What the K loop carries. -/
structure Batch (F : Type) where
  components : Components
  fp_acc : ℕ → ℕ → F
  reduction_count : ℕ

section Kernel

variable [Inhabited F] [Inhabited H] (ops : FloatOps F H) (a b : ℕ)

def reduceBatch (components : Components) (first count : ℕ) (memory : HalfMemory F H) :
    (ℕ → ℕ → F) → Option (ℕ → ℕ → F) :=
  forUp (fun index fp_acc =>
    let block := first + index
    (memory.fetchLanes .scalesB id ((b + block) * 32) 32).bind fun bscale_h =>
    (components.fetchRows () id (index * 4 * 32) 32 4 32).bind fun ci =>
    (memory.fetchLanes .scalesA id ((a + block) * 4) 4).map fun as row lane =>
    ops.fma (fp_acc row lane) (ops.ofInt (ci row lane))
      (ops.mul (ops.widen (bscale_h lane)) (ops.widen (as row)))) 0 count

/-- One round of the K loop. -/
def blockStep (block_count_k : ℕ) (memory : HalfMemory F H) (bk : ℕ) (batch : Batch F) :
    Option (Batch F) :=
  (forUp (fun half components => (halfAccumulators half (a + bk) (b + bk) memory).bind fun acc =>
    storeHalf acc (batch.reduction_count * 4 * 32 + half * 16) components) 0 2 batch.components).bind
    fun components =>
  let reduction_count := batch.reduction_count + 1
  if reduction_count = ReductionBatch ∨ bk + 1 = block_count_k then
    (reduceBatch ops a b components (bk + 1 - reduction_count) reduction_count memory batch.fp_acc).map
      fun fp_acc => ⟨components, fp_acc, 0⟩
  else some ⟨components, batch.fp_acc, reduction_count⟩

/-- `q4_0_q8_0_ime_m4n32b`. -/
def m4n32bKernel (output block_count_k ldc : ℕ) (accumulate : Bool) (memory : HalfMemory F H) :
    Option (HalfMemory F H) :=
  (if accumulate then memory.fetchRows .output id output ldc 4 32 else some fun _ _ => ops.zero).bind
    fun fp_acc =>
  (forUp (blockStep ops a b block_count_k memory) 0 block_count_k
    ⟨newComponents (ReductionBatch * 4 * 32), fp_acc, 0⟩).bind fun batch =>
  memory.storeRows .output output ldc 4 32 fun row lane => some (batch.fp_acc row lane)

end Kernel

section Run

variable (ops : FloatOps F H) (request : Bench.BenchmarkRequest)

/-- `prepare`; a half goes through a float, and `narrow` takes it back. -/
def prepare (narrow : F → H) (operands : Operands H H) (fourRowScale : ℕ → ℕ → BitVec 32)
    (memory : HalfMemory F H) : Option (HalfMemory F H) :=
  (packA request operands fourRowScale (fun d => narrow (ops.widen d)) 1 memory).bind
  (packB request operands (fun d => narrow (ops.widen d)) 32 fun plane column j =>
    plane * 256 + (column / 4 * 32 + (column % 4 * 8 + j)))

variable [Inhabited F] [Inhabited H]

/-- The tiles of one panel: M in chunks of 128 rows, for each the columns, for each column the rows. -/
def runPanel (kc : ℕ) : HalfMemory F H → Option (HalfMemory F H) :=
  let kc_blocks := min KC (request.k - kc) / 32
  let block_start := kc / 32
  forUp (fun chunk =>
    let mc := chunk * MC
    let mc_end := min (mc + MC) request.m
    forUp (fun tile_n => forUp (fun tile_m =>
      let m := mc + tile_m * 4
      m4n32bKernel ops (m / 4 * (request.k / 32) + block_start) (tile_n * (request.k / 32) + block_start)
        (m * request.n + tile_n * 32) kc_blocks request.n (kc != 0))
      0 (chunkCount (mc_end - mc) 4)) 0 (chunkCount request.n 32)) 0 (chunkCount request.m MC)

def run (iterations : ℕ) : HalfMemory F H → Option (HalfMemory F H) :=
  forUp (fun _ => forUp (fun panel => runPanel ops request (panel * KC)) 0 (chunkCount request.k KC))
    0 iterations

end Run

end Pfng.Q40.M4n32b
