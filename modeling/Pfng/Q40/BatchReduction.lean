import Pfng.Ime
import Pfng.Lib.Fresh
import Pfng.Q40.Adapter

/-! The batch-reduction kernels. Both generations of the matrix unit run one loop: eight int32
accumulators for each K block, scattered to a row-major component, and up to eight components
reduced at once. The variants differ in where the weights come from and where the float
accumulators live. -/
namespace Pfng.Q40.BatchReduction
open Checked Ime

/-- The float steps; nothing is assumed of them. -/
structure FloatOps (F H : Type) where
  zero : F
  widen : H → F
  ofInt : ℤ → F
  mul : F → F → F
  fma : F → F → F → F

/-- The float steps without rounding. -/
def FloatOps.exact (α : Type) [Field α] : FloatOps α α where
  zero := 0
  widen x := x
  ofInt x := x
  mul x y := x * y
  fma c x y := c + x * y

inductive Bytes
  | staged | packedA | packedB
  deriving DecidableEq

inductive Floats
  | staged | packedA | acc | packedC | output
  deriving DecidableEq

inductive Buffer
  | bytes (b : Bytes) | floats (f : Floats) | scalesB | unpacked | components (place : Place)
  deriving DecidableEq

/-- A cell with the number of stores to it. -/
structure Counted (T : Type) where
  value : Option T
  writes : ℕ

/-- Cells are `none` until they are written. -/
abbrev Cell (F H : Type) : Buffer → Type
  | .bytes _ => Option (BitVec 8)
  | .floats _ => Option F
  | .scalesB => Option H
  | .unpacked => Counted (BitVec 8)
  | .components _ => Option ℤ

abbrev BatchMemory (F H : Type) := Memory Buffer (Cell F H)

/-- A pointer to a tile of floats, and the distance of its rows. -/
structure Pointer where
  buffer : Floats
  base : ℕ
  stride : ℕ

section Geometry

variable (unit : MatrixUnit)

def kMr : ℕ := 2 * unit.width

def kNr : ℕ := 4 * unit.width

/-- `kBytesPerMIV`: one register. -/
def kBytesPerMIV : ℕ := unit.width * unit.depth

def numKIter : ℕ := 32 / (2 * unit.depth)

end Geometry

variable {F H : Type}

abbrev WeightRegisters := (ℕ → ℕ → BitVec 8) × (ℕ → ℕ → BitVec 8)

/-- Four packed registers, split in the inner loop. -/
def packedWeights (unit : MatrixUnit) (blockWQs inner : ℕ) (memory : BatchMemory F H) :
    Option WeightRegisters :=
  (memory.fetchRows (.bytes .packedB) id (blockWQs + inner * (4 * kBytesPerMIV unit))
    (kBytesPerMIV unit) 4 (kBytesPerMIV unit)).map fun packed =>
  (fun g => lowWeights (packed g), fun g => highWeights (packed g))

/-- Eight registers that were split before. -/
def unpackedWeights (unit : MatrixUnit) (blockWQs inner : ℕ) (memory : BatchMemory F H) :
    Option WeightRegisters :=
  (memory.fetchRows .unpacked Counted.value (blockWQs + inner * (8 * kBytesPerMIV unit))
    (kBytesPerMIV unit) 8 (kBytesPerMIV unit)).map fun unpacked =>
  (fun g => unpacked g, fun g => unpacked (4 + g))

/-- The eight accumulators of one K block: accumulator `4r + g` takes the rows of group `r` and the
columns of group `g`. -/
def dots (unit : MatrixUnit) (weights : ℕ → BatchMemory F H → Option WeightRegisters) (blockAQs : ℕ)
    (memory : BatchMemory F H) : Option (ℕ → ℕ → ℤ) :=
  forUp (fun inner inner_acc =>
    (weights inner memory).bind fun (lo, hi) =>
    (memory.fetchRows (.bytes .packedA) id (blockAQs + inner * (4 * kBytesPerMIV unit))
      (kBytesPerMIV unit) 4 (kBytesPerMIV unit)).map fun a index =>
    vmadot unit (vmadot unit (inner_acc index) (a (index / 4 * 2)) (lo (index % 4)))
      (a (index / 4 * 2 + 1)) (hi (index % 4)))
    0 (numKIter unit) fun _ _ => 0

/-- One masked store of half an accumulator; its base lies `chunk` rows too far back. -/
structure ScatterStore where
  chunk : ℕ
  index : ℕ
  high : ℕ
  deriving DecidableEq

namespace ScatterStore

variable (unit : MatrixUnit) (store : ScatterStore)

/-- `TILE_BASE(index) + chunk * (kOutputN - 8)`, with four or two rows more for the high half. -/
def base : ℕ :=
  store.index / 4 * unit.width * kNr unit + store.index % 4 * unit.width +
    store.high * (unit.width / 2 * kNr unit) + store.chunk * (kNr unit - unit.width)

def selects (lane : ℕ) : Bool := store.chunk * unit.width ≤ lane

def vl : ℕ := (store.chunk + 1) * unit.width

def cells : List ℕ :=
  ((List.range (store.vl unit)).filter (store.selects unit)).map (store.base unit + ·)

end ScatterStore

/-- `STORE_LOW` and `STORE_HIGH` of each chunk for all eight accumulators. -/
def scatterStores (unit : MatrixUnit) : List ScatterStore :=
  (List.range (unit.width / 2)).flatMap fun chunk => (List.range 8).flatMap fun index =>
    [⟨chunk, index, 0⟩, ⟨chunk, index, 1⟩]

/-- The accumulators, to a component in row-major order. -/
def scatter (unit : MatrixUnit) (place : Place) (component : ℕ) (inner_acc : ℕ → ℕ → ℤ) :
    BatchMemory F H → Option (BatchMemory F H) :=
  forEach (fun store memory =>
    memory.storeMasked (.components place) (store.selects unit) (component + store.base unit)
      (store.vl unit)
      fun lane => some (inner_acc store.index (store.high * (unit.width / 2 * unit.width) + lane)))
    (scatterStores unit)

/-- Where the accumulators of a flush come from. -/
inductive Source
  | zero
  | cells (pointer : Pointer)

/-- The arguments of a kernel that all variants share. -/
structure Arguments where
  baseAQs : ℕ
  baseAScales : ℕ
  baseWScales : ℕ
  blockCountK : ℕ

section Kernel

variable [Inhabited F] [Inhabited H] (ops : FloatOps F H) (unit : MatrixUnit) (place : Place)

/-- `LOAD_REDUCTION_ACCUMULATOR`. -/
def loadAccumulators (source : Source) (memory : BatchMemory F H) : Option (ℕ → ℕ → F) :=
  match source with
  | .zero => some fun _ _ => ops.zero
  | .cells pointer =>
      memory.fetchRows (.floats pointer.buffer) id pointer.base pointer.stride (kMr unit) (kNr unit)

/-- `REDUCE_ROW` on every row for one block of the batch. -/
def reduceBlock (args : Arguments) (reductionBlock reductionIndex : ℕ) (memory : BatchMemory F H)
    (reduction_acc : ℕ → ℕ → F) : Option (ℕ → ℕ → F) :=
  (memory.fetchLanes .scalesB id (args.baseWScales + reductionBlock * kNr unit) (kNr unit)).bind
    fun bsh =>
  (memory.fetchRows (.components place) id (reductionIndex * (kMr unit * kNr unit)) (kNr unit)
    (kMr unit) (kNr unit)).bind fun component =>
  (memory.fetchLanes (.floats .packedA) id (args.baseAScales + reductionBlock * kMr unit)
    (kMr unit)).map fun aScales row lane =>
  ops.fma (reduction_acc row lane) (ops.ofInt (component row lane))
    (ops.mul (ops.widen (bsh lane)) (aScales row))

/-- The reduction of `reductionCount` components, from block `reductionBlockStart` on. -/
def flush (args : Arguments) (source : Source) (sink : Pointer)
    (reductionBlockStart reductionCount : ℕ) (memory : BatchMemory F H) :
    Option (BatchMemory F H) :=
  (loadAccumulators ops unit source memory).bind fun loaded =>
  (forUp (fun reductionIndex => reduceBlock ops unit place args
    (reductionBlockStart + reductionIndex) reductionIndex memory) 0 reductionCount loaded).bind
    fun reduction_acc =>
  memory.storeRows (.floats sink.buffer) sink.base sink.stride (kMr unit) (kNr unit)
    fun row lane => some (reduction_acc row lane)

/-- What a kernel carries from one K block to the next. -/
structure Batch (M : Type) where
  reductionCount : ℕ
  firstReductionFlush : Bool
  memory : M

/-- One round of the K loop; `source` depends on whether a flush is the first one, `sink` on whether
it is the last. -/
def blockStep (weights : ℕ → ℕ → BatchMemory F H → Option WeightRegisters) (args : Arguments)
    (source : Bool → Source) (sink : Bool → Pointer) (bk : ℕ) (batch : Batch (BatchMemory F H)) :
    Option (Batch (BatchMemory F H)) :=
  (dots unit (weights bk) (args.baseAQs + bk * (kMr unit * 32)) batch.memory).bind fun inner_acc =>
  (scatter unit place (batch.reductionCount * (kMr unit * kNr unit)) inner_acc batch.memory).bind
    fun memory =>
  let reductionCount := batch.reductionCount + 1
  if reductionCount = 8 ∨ bk + 1 = args.blockCountK then
    (flush ops unit place args (source batch.firstReductionFlush)
      (sink (bk + 1 = args.blockCountK)) (bk + 1 - reductionCount) reductionCount memory).map
      fun memory => ⟨0, false, memory⟩
  else some ⟨reductionCount, batch.firstReductionFlush, memory⟩

/-- The K loop of every variant. -/
def batchKernel (weights : ℕ → ℕ → BatchMemory F H → Option WeightRegisters) (args : Arguments)
    (source : Bool → Source) (sink : Bool → Pointer) (memory : BatchMemory F H) :
    Option (BatchMemory F H) :=
  (forUp (blockStep ops unit place weights args source sink) 0 args.blockCountK
    ⟨0, true, memory⟩).map Batch.memory

end Kernel

end Pfng.Q40.BatchReduction
