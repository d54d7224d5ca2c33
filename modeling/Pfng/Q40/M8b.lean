import Pfng.Q40.BatchOperands

/-! `q4_0-q8_0-IME-m8b` on both generations: packing, and runs over tiles of rows. On the first
generation `initialize_q4_0_ime<8>` leaves staged activation blocks that `prepare` reorders. -/
namespace Pfng.Q40.BatchReduction
open Checked Ime

variable {F H : Type}

/-- The quantised activation by row and block, and the weight blocks of one column after those of
another. -/
structure Operands (F H : Type) where
  activation : ℕ → ℕ → BlockQ80 F
  weight : ℕ → BlockQ40 H

/-- The orders in which the threads take the `tiles` iterations of each parallel loop. -/
structure Orders (ι : Type) (tiles : ℕ) where
  order : ι → List ℕ
  complete : ∀ i, (order i).Perm (List.range tiles)

def Orders.inOrder (ι : Type) (tiles : ℕ) : Orders ι tiles where
  order := fun _ => List.range tiles
  complete := fun _ => .refl _

/-- `std::copy_n` between buffers of floats. -/
def copyFloats [Inhabited F] (source target : Floats) (i j n : ℕ) (memory : BatchMemory F H) :
    Option (BatchMemory F H) :=
  memory.copyLanes (.floats source) (.floats target) id some i j n

def copyBytes (source target : Bytes) (i j n : ℕ) (memory : BatchMemory F H) :
    Option (BatchMemory F H) :=
  memory.copyLanes (.bytes source) (.bytes target) id some i j n

def copyTile [Inhabited F] (unit : MatrixUnit) (source target : Pointer) :
    BatchMemory F H → Option (BatchMemory F H) :=
  forUp (fun row => copyFloats source.buffer target.buffer (source.base + row * source.stride)
    (target.base + row * target.stride) (kNr unit)) 0 (kMr unit)

/-- `kPackedAChunkOrder`. -/
def packedAChunkOrder (packed_chunk : ℕ) : ℕ := [0, 1, 4, 5, 2, 3, 6, 7].getD packed_chunk 0

section Initialize

variable (request : Bench.BenchmarkRequest) (operands : Operands F H) (fourRowScale : ℕ → ℕ → F)

/-- One block of four rows, copied from the four-row quantiser's block, whose own scales are then
replaced. -/
def stageFourRows (tile half block : ℕ) (memory : BatchMemory F H) : Option (BatchMemory F H) :=
  let destination := tile * (request.k / 32) + block
  (memory.storeLanes (.floats .staged) (destination * 8 + half * 4) 4 fun row =>
    some (fourRowScale (tile * 8 + (half * 4 + row)) block)).bind fun memory =>
  (forUp (fun row memory => memory.store (.floats .staged) (destination * 8 + (half * 4 + row))
    (some (operands.activation (tile * 8 + (half * 4 + row)) block).d)) 0 4 memory).bind fun memory =>
  memory.storeLanes (.bytes .staged) (destination * 256 + half * 128) 128 fun i =>
    some ((operands.activation (tile * 8 + (half * 4 + i % 32 / 8)) block).qs (i / 32 * 8 + i % 8))

/-- `pack_q4_n16`: byte `o` of the packed quants. -/
def packQ4N16 (rows : ℕ → BlockQ40 H) (o : ℕ) : BitVec 8 :=
  let row := o % 128 / 8
  let j := o % 8
  let first : BitVec 8 := (rows row).qs j
  let second : BitVec 8 := (rows row).qs (j + 8)
  if o < 128 then (first &&& 0x0f#8) ||| ((second &&& 0x0f#8) <<< 4)
  else ((first &&& 0xf0#8) >>> 4) ||| (second &&& 0xf0#8)

def packN16 : BatchMemory F H → Option (BatchMemory F H) :=
  forUp (fun tile_n => forUp (fun block memory =>
    let rows := fun row => operands.weight ((tile_n * 16 + row) * (request.k / 32) + block)
    let index := tile_n * (request.k / 32) + block
    (memory.storeLanes (.bytes .packedB) (index * 256) 256 fun o => some (packQ4N16 rows o)).bind
      fun memory =>
    memory.storeLanes .scalesB (index * 16) 16 fun row => some (rows row).d)
    0 (request.k / 32)) 0 (request.n / 16)

/-- `initialize_q4_0_ime<8>`. The four-row quantiser leaves the quants of `operands` in its
interleaved layout, with scales of its own. -/
def initializeQ40Ime8 (memory : BatchMemory F H) : Option (BatchMemory F H) :=
  (forUp (fun tile => forUp (fun half => forUp (fun block =>
    stageFourRows request operands fourRowScale tile half block) 0 (request.k / 32)) 0 2)
    0 (request.m / 8) memory).bind
  (packN16 request operands)

end Initialize

def copyChunks (source target : ℕ) : BatchMemory F H → Option (BatchMemory F H) :=
  forUp (fun packed_chunk => copyBytes .staged .packedA
    (source * 256 + packedAChunkOrder packed_chunk * 32) (target * 256 + packed_chunk * 32) 32) 0 8

section Run

variable [Inhabited F] [Inhabited H] (ops : FloatOps F H) (request : Bench.BenchmarkRequest)

/-- The loop of `prepare` over the packed blocks. -/
def reorder (packed_block_count : ℕ) : BatchMemory F H → Option (BatchMemory F H) :=
  forUp (fun block memory => (copyChunks block block memory).bind
    (copyFloats .staged .packedA (block * 8) (block * 8) 8)) 0 packed_block_count

/-- The kernels on packed weights, which add to the tile `acc`. -/
def packedKernel (unit : MatrixUnit) (place : Place) (args : Arguments) (baseWQs : ℕ) (acc : Pointer) :
    BatchMemory F H → Option (BatchMemory F H) :=
  batchKernel ops unit place (fun bk => packedWeights unit (baseWQs + bk * (kNr unit * 16))) args
    (fun _ => .cells acc) fun _ => acc

/-- `SQ4BitGemmM8Kernel_CompInt8_ScaleFp16_Impl_Intrin_BatchRed`, whose components are local. -/
def m8Kernel (args : Arguments) (baseWQs : ℕ) (acc : Pointer) (memory : BatchMemory F H) :
    Option (BatchMemory F H) :=
  packedKernel ops .ime1 .stack args baseWQs acc (memory.renew (.components .stack) fun _ => none)

/-- The offsets of a tile whose activation blocks begin at `a_block`, its weight blocks at
`b_block`. -/
def tileArguments (unit : MatrixUnit) (a_block b_block blockCountK : ℕ) : Arguments where
  baseAQs := a_block * (kMr unit * 32)
  baseAScales := a_block * kMr unit
  baseWScales := b_block * kNr unit
  blockCountK := blockCountK

def accPointer (unit : MatrixUnit) : Pointer := ⟨.acc, 0, kNr unit⟩

def outputPointer (unit : MatrixUnit) (tile_m tile_n : ℕ) : Pointer :=
  ⟨.output, tile_m * kMr unit * request.n + tile_n * kNr unit, request.n⟩

/-- The loop over the tiles of columns of one tile of rows. -/
def runColumns (unit : MatrixUnit)
    (kernel : Arguments → ℕ → Pointer → BatchMemory F H → Option (BatchMemory F H)) (tile_m : ℕ) :
    BatchMemory F H → Option (BatchMemory F H) :=
  forUp (fun tile_n memory =>
    let a_block := tile_m * (request.k / 32)
    let b_block := tile_n * (request.k / 32)
    (kernel (tileArguments unit a_block b_block (request.k / 32)) (b_block * (kNr unit * 16))
      (accPointer unit) (memory.renew (.floats .acc) fun _ => some ops.zero)).bind
    (copyTile unit (accPointer unit) (outputPointer request unit tile_m tile_n)))
    0 (request.n / kNr unit)

/-- `prepare` of the first generation. -/
def prepareIme1 (operands : Operands F H) (fourRowScale : ℕ → ℕ → F) (memory : BatchMemory F H) :
    Option (BatchMemory F H) :=
  (initializeQ40Ime8 request operands fourRowScale memory).bind
  (reorder (request.m / 8 * (request.k / 32)))

/-- `run` of the first generation. -/
def runIme1 (orders : Orders ℕ (request.m / 8)) (iterations : ℕ) :
    BatchMemory F H → Option (BatchMemory F H) :=
  forUp (fun iteration => forEach (runColumns ops request .ime1 (m8Kernel ops))
    (orders.order iteration)) 0 iterations

/-- The second generation packs each block into registers at once. -/
def packActivationIme2 (operands : Operands F H) : BatchMemory F H → Option (BatchMemory F H) :=
  forUp (fun tile => forUp (fun block => forUp (fun row memory =>
    let source := operands.activation (tile * 16 + row) block
    let tile_block := tile * (request.k / 32) + block
    (forUp (fun window memory => memory.storeLanes (.bytes .packedA)
      (tile_block * 512 + (row / 8 * 2 + window) * 128 + row % 8 * 16) 16
      fun j => some (source.qs (window * 16 + j))) 0 2 memory).bind fun memory =>
    memory.store (.floats .packedA) (tile_block * 16 + row) (some source.d))
    0 16) 0 (request.k / 32)) 0 (request.m / 16)

def packWeightsIme2 (operands : Operands F H) : BatchMemory F H → Option (BatchMemory F H) :=
  forUp (fun tile => forUp (fun block => forUp (fun column memory =>
    let source := operands.weight ((tile * 32 + column) * (request.k / 32) + block)
    let tile_block := tile * (request.k / 32) + block
    (memory.storeLanes (.bytes .packedB) (tile_block * 512 + column / 8 * 128 + column % 8 * 16) 16
      fun j => some (source.qs j)).bind fun memory =>
    memory.store .scalesB (tile_block * 32 + column) (some source.d))
    0 32) 0 (request.k / 32)) 0 (request.n / 32)

/-- `prepare` of the second generation. -/
def prepareIme2 (operands : Operands F H) (memory : BatchMemory F H) : Option (BatchMemory F H) :=
  (packActivationIme2 request operands memory).bind (packWeightsIme2 request operands)

/-- `run` of the second generation: the components lie where the tile's thread got room for them. -/
def runIme2 (schedule : Schedule (request.m / 16) (Option ℤ)) (iterations : ℕ) :
    BatchMemory F H → Option (BatchMemory F H) :=
  forUp (fun iteration => forEach (fun tile_m memory =>
    runColumns ops request .ime2 (packedKernel ops .ime2 (schedule.place iteration tile_m)) tile_m
      (memory.renew (.components (schedule.place iteration tile_m))
        (schedule.scratch iteration tile_m)))
    (schedule.order iteration)) 0 iterations

/-- Elements of each buffer; `slots` activation blocks are packed. -/
def bufferSize (unit : MatrixUnit) (slots : ℕ) : Buffer → ℕ
  | .bytes .staged => request.m / 8 * (request.k / 32) * 256
  | .bytes .packedA => slots * (kMr unit * 32)
  | .bytes .packedB => request.n / kNr unit * (request.k / 32) * (kNr unit * 16)
  | .floats .staged => request.m / 8 * (request.k / 32) * 8
  | .floats .packedA => slots * kMr unit
  | .floats .acc => kMr unit * kNr unit
  | .floats .packedC => request.m / kMr unit * (request.n / kNr unit) * (kMr unit * kNr unit)
  | .floats .output => request.m * request.n
  | .scalesB => request.n / kNr unit * (request.k / 32) * kNr unit
  | .unpacked => request.n * request.k
  | .components _ => 8 * (kMr unit * kNr unit)

end Run

end Pfng.Q40.BatchReduction
