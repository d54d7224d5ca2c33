import Pfng.Lib.Words
import Pfng.Q40.Panels

/-! `q4_0-q8_0-IME-m4i` and `q4_0-q8_0-IME-m4i-CB`. The activation blocks are bytes, as the variant
with panels copies them; a float is its four bytes. -/
namespace Pfng.Q40.ImmediateReduction
open Checked Ime BatchReduction Words

abbrev Word := BitVec 32

/-- The floats of a run, with the one that lies in memory as given bytes. -/
class OfWord (F : Type) where
  ofWord : Word → F

instance : OfWord Word := ⟨id⟩

def decoded {F H : Type} [OfWord F] (operands : Operands Word H) : Operands F H where
  activation row block :=
    ⟨OfWord.ofWord (operands.activation row block).d, (operands.activation row block).qs⟩
  weight := operands.weight

/-- `packed_a_m4` and, with panels, `packed_a`. -/
inductive Blocks
  | staged | panels
  deriving DecidableEq

inductive M4Floats
  | tile | packedC | output
  deriving DecidableEq

inductive M4Buffer
  | activation (a : Blocks) | weights | scales | floats (f : M4Floats)
  deriving DecidableEq

variable {F H : Type}

abbrev M4Cell (H : Type) (F : Type := Word) : M4Buffer → Type
  | .activation _ => Option (BitVec 8)
  | .weights => Option (BitVec 8)
  | .scales => Option H
  | .floats _ => Option F

abbrev M4Memory (H : Type) (F : Type := Word) := Memory M4Buffer (M4Cell H F)

section Initialize

variable (request : Bench.BenchmarkRequest) (operands : Operands Word H) (fourRowScale : ℕ → ℕ → Word)

/-- One block of `quantize_a_4row_i8`. -/
def quantizeFourRows (tile block : ℕ) (memory : M4Memory H F) : Option (M4Memory H F) :=
  let destination := (tile * (request.k / 32) + block) * 144
  (memory.storeLanes (.activation .staged) destination 16 fun i =>
    some (byteOf (fourRowScale (tile * 4 + i / 4) block) (i % 4))).bind fun memory =>
  memory.storeLanes (.activation .staged) (destination + 16) 128 fun i =>
    some ((operands.activation (tile * 4 + i % 32 / 8) block).qs (i / 32 * 8 + i % 8))

def replaceScales (tile block : ℕ) : M4Memory H F → Option (M4Memory H F) :=
  let destination := (tile * (request.k / 32) + block) * 144
  forUp (fun row memory => memory.storeLanes (.activation .staged) (destination + row * 4) 4 fun i =>
    some (byteOf (operands.activation (tile * 4 + row) block).d i)) 0 4

/-- The blocks of `pack_q4_n16`. -/
def packBlocks : M4Memory H F → Option (M4Memory H F) :=
  forUp (fun tile_n => forUp (fun block memory =>
    let rows := fun row => operands.weight ((tile_n * 16 + row) * (request.k / 32) + block)
    let index := tile_n * (request.k / 32) + block
    (memory.storeLanes .scales (index * 16) 16 fun row => some (rows row).d).bind fun memory =>
    memory.storeLanes .weights (index * 256) 256 fun o => some (packQ4N16 rows o))
    0 (request.k / 32)) 0 (request.n / 16)

def initializeQ40Ime4 (memory : M4Memory H F) : Option (M4Memory H F) :=
  (forUp (fun tile memory =>
    (forUp (fun block => quantizeFourRows request operands fourRowScale tile block) 0 (request.k / 32)
      memory).bind
    (forUp (fun block => replaceScales request operands tile block) 0 (request.k / 32)))
    0 (request.m / 4) memory).bind
  (packBlocks request operands)

end Initialize

section Kernel

variable [Inhabited F] [Inhabited H] (ops : FloatOps F H)

/-- The four accumulators of one K block. -/
def dots (a : Blocks) (blockA blockB : ℕ) (memory : M4Memory H F) : Option (ℕ → ℕ → ℤ) :=
  forUp (fun inner inner_acc =>
    (memory.fetchRows .weights id (blockB * 256 + inner * 128) 32 4 32).bind fun packed =>
    (memory.fetchRows (.activation a) id (blockA + 16 + inner * 64) 32 2 32).map fun A g =>
    vmadot .ime1 (vmadot .ime1 (inner_acc g) (A 0) (lowWeights (packed g))) (A 1)
      (highWeights (packed g))) 0 2 fun _ _ => 0

/-- `s0` to `s3`: the masked load takes lanes 4 to 7 from four elements further back. -/
def blockScales (blockB g : ℕ) (memory : M4Memory H F) : Option (ℕ → H) :=
  (memory.fetchLanes .scales id (blockB * 16 + 4 * g) 4).bind fun s =>
  memory.fetchMasked .scales id (fun lane => 3 < lane) (fun lane => blockB * 16 + 4 * g + lane - 4) s 8

/-- `A_scale`: two registers of which the first four lanes are overwritten. -/
def aScale (a_scale : ℕ → F) (lane : ℕ) : F :=
  if lane < 8 then if lane < 4 then a_scale 0 else a_scale 1
  else if lane - 8 < 4 then a_scale 2 else a_scale 3

variable [OfWord F] in
/-- One round of the K loop. -/
def reduceBlock (a : Blocks) (quantA quantB bk : ℕ) (memory : M4Memory H F) (acc : ℕ → ℕ → F) :
    Option (ℕ → ℕ → F) :=
  (memory.fetchRows (.activation a) id (quantA + bk * 144) 4 4 4).bind fun d =>
  (dots a (quantA + bk * 144) (quantB + bk) memory).bind fun inner_acc =>
  (fetchAll 4 fun g => blockScales (quantB + bk) g memory).map fun s g lane =>
  ops.fma (acc g lane) (ops.ofInt (inner_acc g lane))
    (ops.mul (ops.widen (s g (lane % 8))) (aScale (fun row => OfWord.ofWord (ofBytes (d row))) lane))

variable [OfWord F] in
/-- `SQ4BitGemmM4Kernel_CompInt8_ScaleFp16_Impl_Intrin`. `quantA` counts bytes, `quantB` blocks. -/
def m4Kernel (a : Blocks) (quantA quantB : ℕ) (f : M4Floats) (acc BlockCountK : ℕ)
    (memory : M4Memory H F) : Option (M4Memory H F) :=
  (memory.fetchRows (.floats f) id acc 16 4 16).bind fun loaded =>
  (forUp (fun bk => reduceBlock ops a quantA quantB bk memory) 0 BlockCountK loaded).bind fun summed =>
  memory.storeRows (.floats f) acc 16 4 16 fun g lane => some (summed g lane)

/-- `c_unpack_ime_m4_n16`. -/
def cUnpack (f : M4Floats) (miv c ldc : ℕ) (memory : M4Memory H F) : Option (M4Memory H F) :=
  (memory.fetchLanes (.floats f) id miv 64).bind fun tile =>
  forUp (fun chunk memory =>
    (memory.storeLanes (.floats .output) (c + chunk % 2 * 2 * ldc + chunk / 2 * 4) 4 fun lane =>
      some (tile (chunk * 8 + lane))).bind fun memory =>
    memory.storeLanes (.floats .output) (c + (chunk % 2 * 2 + 1) * ldc + chunk / 2 * 4) 4 fun lane =>
      some (tile (chunk * 8 + (4 + lane)))) 0 8 memory

end Kernel

section Run

variable [Inhabited F] [Inhabited H] [OfWord F] (ops : FloatOps F H) (request : Bench.BenchmarkRequest)

/-- `prepare` without panels. -/
def prepare (operands : Operands Word H) (fourRowScale : ℕ → ℕ → Word) (memory : M4Memory H F) :
    Option (M4Memory H F) :=
  initializeQ40Ime4 request operands fourRowScale memory

/-- `run` without panels. -/
def run (orders : Orders ℕ (request.m / 4)) (iterations : ℕ) : M4Memory H F → Option (M4Memory H F) :=
  forUp (fun iteration => forEach (fun tile_m => forUp (fun tile_n memory =>
    (m4Kernel ops .staged (tile_m * (request.k / 32) * 144) (tile_n * (request.k / 32)) .tile 0
      (request.k / 32) (memory.renew (.floats .tile) fun _ => some ops.zero)).bind
    (cUnpack .tile 0 (tile_m * 4 * request.n + tile_n * 16) request.n)) 0 (request.n / 16))
    (orders.order iteration)) 0 iterations

namespace CacheBlocking

/-- `[K panel][M tile][local block]`. -/
def layout : PanelLayout (request.m / 4) (request.k / 32) where
  kBlocksPerPanel := 32
  base p := p * (request.m / 4) * 32
  stride _ := 32
  pos := PanelLayout.pos_32
  base_eq p := by rw [Nat.mul_right_comm]
  fits := PanelLayout.fits_32 request

/-- Blocks of `packed_a`. -/
def slots : ℕ := (layout request).panels * (request.m / 4) * 32

def chunkTiles : ℕ := max 1 (min (request.m / 4) (128 * 1024 / (32 * 144)))

/-- The `std::memcpy` of the panels. -/
def copyPanels : M4Memory H F → Option (M4Memory H F) :=
  forUp (fun p => forUp (fun tile_m memory =>
    memory.copyLanes (.activation .staged) (.activation .panels) id some
      ((tile_m * (request.k / 32) + p * (layout request).kBlocksPerPanel) * 144)
      ((layout request).slot p tile_m 0 * 144) ((layout request).localBlocks p * 144))
    0 (request.m / 4)) 0 (layout request).panels

def prepare (operands : Operands Word H) (fourRowScale : ℕ → ℕ → Word) (memory : M4Memory H F) :
    Option (M4Memory H F) :=
  (initializeQ40Ime4 request operands fourRowScale memory).bind (copyPanels request)

/-- Where a tile of `packed_c` begins. -/
def cTile (tile_m tile_n : ℕ) : ℕ := (tile_m * (request.n / 16) + tile_n) * 64

/-- One tile of C in one panel. -/
def tile (p tile_m tile_n : ℕ) (memory : M4Memory H F) : Option (M4Memory H F) :=
  let block_k := p * (layout request).kBlocksPerPanel
  (if block_k = 0 then
    memory.storeLanes (.floats .packedC) (cTile request tile_m tile_n) 64 fun _ => some ops.zero
  else some memory).bind
  (m4Kernel ops .panels ((layout request).slot p tile_m 0 * 144) (tile_n * (request.k / 32) + block_k)
    .packedC (cTile request tile_m tile_n) ((layout request).localBlocks p))

def run (orders : BlockedOrders (request.m / 4) (request.n / 16)) (iterations : ℕ) :
    M4Memory H F → Option (M4Memory H F) :=
  forUp (fun iteration memory =>
    (forUp (fun p => chunkedTiles (request.m / 4) (chunkTiles request)
      (fun chunk => orders.tiles.order (iteration, p, chunk)) (tile ops request p)) 0
      (layout request).panels memory).bind
    (forEach (fun tile_m => forUp (fun tile_n => cUnpack .packedC (cTile request tile_m tile_n)
      (tile_m * 4 * request.n + tile_n * 16) request.n) 0 (request.n / 16))
      (orders.copies.order iteration))) 0 iterations

end CacheBlocking

/-- Elements of each buffer, bytes of the activation. -/
def m4Size : M4Buffer → ℕ
  | .activation .staged => request.m / 4 * (request.k / 32) * 144
  | .activation .panels => CacheBlocking.slots request * 144
  | .weights => request.n / 16 * (request.k / 32) * 256
  | .scales => request.n / 16 * (request.k / 32) * 16
  | .floats .tile => 64
  | .floats .packedC => request.m / 4 * (request.n / 16) * 64
  | .floats .output => request.m * request.n

end Run

end Pfng.Q40.ImmediateReduction
