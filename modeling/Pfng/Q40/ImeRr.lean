import Pfng.Ime
import Pfng.Q40.Ime2Packing

/-! `q4_0-q8_0-IME-RR`: the packing, the weight-stationary kernel, and a run over tiles of 32
columns. Offsets into a buffer stand for the source's pointers. -/
namespace Pfng.Q40.ImeRr
open Checked Ime

variable {α : Type} [Field α]

/-- `a_scale_groups`. -/
def scaleGroups (a_tiles : ℕ) : ℕ := (a_tiles + 8 - 1) / 8

def aQuantPlace (a_tiles tile block row : ℕ) : ℕ := (block * a_tiles + tile) * 256 + row * 16

def aScalePlace (a_tiles tile block row : ℕ) : ℕ :=
  (block * scaleGroups a_tiles + tile / 8) * 64 + (row * 8 + tile % 8)

def bScalePlace (tile_block column : ℕ) : ℕ := tile_block * 256 + (column / 8 * 64 + column % 8 * 8)

section Prepare

variable [LinearOrder α] [FloorRing α]

/-- `prepare`: activations lie K-major, weights N-major, and a scale matrix holds eight tiles. -/
def prepare (half : α → α) (request : Bench.BenchmarkRequest) (input : Input α)
    (memory : Ime2Memory α α) : Option (Ime2Memory α α) :=
  let blocks_k := request.k / 32
  let a_tiles := request.m / 8
  let b_tiles := request.n / 32
  (memory.fill .aScales (blocks_k * scaleGroups a_tiles * 64) 0).bind fun memory =>
  (packActivation half input.activation 8 a_tiles blocks_k (aQuantPlace a_tiles)
    (aScalePlace a_tiles) memory).bind fun memory =>
  (memory.fill .bScales (b_tiles * blocks_k * 256) 0).bind
  (packWeights input.weight b_tiles blocks_k bScalePlace)

end Prepare

/-- The registers that stay live while activation tiles stream through them. -/
structure WeightRegisters (α : Type) where
  wlo : Fin 4 → ℕ → BitVec 8
  whi : Fin 4 → ℕ → BitVec 8
  ws : Fin 4 → ℕ → α

/-- The loads before the tile loop; a masked-off scale lane is zero. -/
def loadWeights (w_qs w_scales : ℕ) (memory : Ime2Memory α α) : Option (WeightRegisters α) :=
  (gather fun g : Fin 4 => memory.loadLanes .bQs (w_qs + g * 128) 128).bind fun packed =>
  (gather fun g : Fin 4 => memory.loadMasked .bScales (fun lane => lane &&& 7 == 0) (fun _ => 0)
    (w_scales + g * 64) 64).map fun ws =>
  ⟨fun g => lowWeights (packed g), fun g => highWeights (packed g), ws⟩

def reduceGroup (place : Place) (tile_c : ℕ) (q : Fin 4 → ℕ → ℤ) (s : Fin 4 → ℕ → α) (g : Fin 4)
    (memory : Ime2Memory α α) : Option (Ime2Memory α α) :=
  (memory.loadLanes (.scratch place) (tile_c + g * 64) 64).bind fun c =>
  memory.storeLanes (.scratch place) (tile_c + g * 64) 64 fun lane => c lane + q g lane * s g lane

/-- One activation tile against the weight registers; column zero of `as` holds its scales. -/
def applyTile (place : Place) (a_qs : ℕ) (w : WeightRegisters α) (tile_m : ℕ) (as : ℕ → α)
    (memory : Ime2Memory α α) : Option (Ime2Memory α α) :=
  (memory.loadLanes .aQs (a_qs + tile_m * 256) 128).bind fun aq0 =>
  (memory.loadLanes .aQs (a_qs + tile_m * 256 + 128) 128).bind fun aq1 =>
  forEach (reduceGroup place (tile_m * 256)
    (fun g => vmadot .ime2 (vmadot .ime2 (fun _ => 0) aq0 (w.wlo g)) aq1 (w.whi g))
    (fun g => vfwmadot (fun _ => 0) as (w.ws g))) (List.finRange 4) memory

/-- The inner loop: `as` slides down by one lane after each tile. -/
def applyGroup (place : Place) (a_qs : ℕ) (w : WeightRegisters α) :
    ℕ → ℕ → (ℕ → α) → Ime2Memory α α → Option (Ime2Memory α α)
  | 0, _, _, memory => some memory
  | n+1, tile_m, as, memory =>
      (applyTile place a_qs w tile_m as memory).bind
        (applyGroup place a_qs w n (tile_m + 1) (vslidedown 64 as 1))

/-- `while (tile_m < m_tile_count)`. -/
def applyTiles (place : Place) (a_qs a_scales : ℕ) (w : WeightRegisters α) (m_tile_count : ℕ)
    (tile_m scale_group : ℕ) (memory : Ime2Memory α α) : Option (Ime2Memory α α) :=
  if tile_m < m_tile_count then
    (memory.loadLanes .aScales (a_scales + scale_group * 64) 64).bind fun as =>
    let remaining := m_tile_count - tile_m
    let group_tiles := if remaining < 8 then remaining else 8
    (applyGroup place a_qs w group_tiles tile_m as memory).bind
      (applyTiles place a_qs a_scales w m_tile_count (tile_m + group_tiles) (scale_group + 1))
  else some memory
termination_by m_tile_count - tile_m
decreasing_by
  split
  · omega
  · omega

/-- `q4_0_q8_0_ime_rr_w_stationary`. -/
def wStationary (place : Place) (a_qs a_scales w_qs w_scales m_tile_count : ℕ)
    (memory : Ime2Memory α α) : Option (Ime2Memory α α) :=
  (loadWeights w_qs w_scales memory).bind fun w =>
  applyTiles place a_qs a_scales w m_tile_count 0 0 memory

def unpackCChunk (place : Place) (output output_stride chunk_tiles : ℕ) :
    Ime2Memory α α → Option (Ime2Memory α α) :=
  forUp (fun chunk_tile => forUp (fun group => forUp (fun row memory =>
    (memory.loadLanes (.scratch place) (chunk_tile * 256 + group * 64 + row * 8) 8).bind fun matrix =>
    memory.storeLanes .output
      (output + chunk_tile * 8 * output_stride + (row * output_stride + group * 8)) 8 matrix)
    0 8) 0 4) 0 chunk_tiles

/-- One chunk of at most 128 activation tiles: zero it, add every K block, copy it out. -/
def runChunk (request : Bench.BenchmarkRequest) (place : Place) (tile_n chunk : ℕ)
    (memory : Ime2Memory α α) : Option (Ime2Memory α α) :=
  let blocks_k := request.k / 32
  let a_tiles := request.m / 8
  let chunk_begin := chunk * 128
  let chunk_tiles := min 128 (a_tiles - chunk_begin)
  (memory.fill (.scratch place) (chunk_tiles * 256) 0).bind fun memory =>
  (forUp (fun block =>
    wStationary place ((block * a_tiles + chunk_begin) * 256)
      ((block * scaleGroups a_tiles + chunk_begin / 8) * 64) ((tile_n * blocks_k + block) * 512)
      ((tile_n * blocks_k + block) * 256) chunk_tiles) 0 blocks_k memory).bind
  (unpackCChunk place (chunk_begin * 8 * request.n + tile_n * 32) request.n chunk_tiles)

def runTile (request : Bench.BenchmarkRequest) (place : Place) (scratch : ℕ → α) (tile_n : ℕ)
    (memory : Ime2Memory α α) : Option (Ime2Memory α α) :=
  forUp (runChunk request place tile_n) 0 ((request.m / 8 + 127) / 128)
    (memory.renew (.scratch place) scratch)

def run (request : Bench.BenchmarkRequest) (schedule : Schedule (request.n / 32) α)
    (iterations : ℕ) : Ime2Memory α α → Option (Ime2Memory α α) :=
  forUp (fun iteration => forEach (fun tile_n =>
    runTile request (schedule.place iteration tile_n) (schedule.scratch iteration tile_n) tile_n)
    (schedule.order iteration)) 0 iterations

/-- Elements of each buffer; the C chunk takes 128 tiles in either place. -/
def bufferSize (request : Bench.BenchmarkRequest) : Buffer → ℕ
  | .aQs => request.m / 8 * (request.k / 32) * 256
  | .aScales => request.k / 32 * scaleGroups (request.m / 8) * 64
  | .bQs => request.n / 32 * (request.k / 32) * 512
  | .bScales => request.n / 32 * (request.k / 32) * 256
  | .scratch _ => 128 * 256
  | .acc => 0
  | .output => request.m * request.n

end Pfng.Q40.ImeRr
