import Pfng.Lib.Fresh
import Pfng.Lib.Words
import Pfng.Q4K.Kernel
import Pfng.Q4K.ScaleCodec

/-! `prepare` and `run` of the two custom Q4_K kernels. Beside the quants there is one memory of the
other members of the packed blocks, and one of the arrays that a run writes. -/
namespace Pfng.Q4K
open Checked Rvv Words Function

/-- The sum over the scales and the one over the minimums. -/
inductive Sums
  | sum | sumMin
  deriving DecidableEq

/-- The members of the packed blocks beside `qs`; `weightD` is `d` or `dmin`, and `scales` goes on
with `mins`. -/
inductive Part
  | activationD | bsums | weightD (s : Sums) | scales
  deriving DecidableEq

abbrev PartCell (α : Type) : Part → Type
  | .activationD => α
  | .bsums => BitVec 16
  | .weightD _ => α
  | .scales => BitVec 8

abbrev Parts (α : Type) := Memory Part (PartCell α)

/-- The local arrays of the 12-row kernel, and the output. -/
inductive Scratch
  | sumBlock | rows (s : Sums) | output
  deriving DecidableEq

/-- Cells are `none` until they are written. -/
abbrev ScratchCell (α : Type) : Scratch → Type
  | .sumBlock => ℤ
  | .rows _ => Option α
  | .output => Option α

abbrev ScratchMemory (α : Type) := Memory Scratch (ScratchCell α)

variable {α : Type}

def partSize (mr : ℕ) (p : Problem α) : Part → ℕ
  | .activationD => p.tilesM * p.blocks * mr
  | .bsums => p.tilesM * p.blocks * (8 * mr)
  | .weightD _ => p.tilesN * p.blocks * 32
  | .scales => p.tilesN * p.blocks * 512

def scratchSize (mr : ℕ) (p : Problem α) : Scratch → ℕ
  | .sumBlock => 12 * 32
  | .rows _ => 12 * 32
  | .output => p.tilesM * mr * (p.tilesN * 32)

section Prepare

/-- One row of an activation block, beside its quants. -/
def activationParts (mr : ℕ) (source : BlockQ8K α) (slot x : ℕ) (parts : Parts α) :
    Option (Parts α) :=
  (parts.store .activationD (slot * mr + x) source.d).bind fun parts =>
  (forUp (fun i parts => parts.store .bsums (slot * (8 * mr) + (i * mr + x)) 0) 0 8 parts).bind
  (forUp (fun i parts =>
    (parts.load .bsums (slot * (8 * mr) + (i / 32 * mr + x))).bind fun sum =>
    parts.store .bsums (slot * (8 * mr) + (i / 32 * mr + x)) (sum + (source.qs i).signExtend 16))
    0 256)

/-- The loops of `prepare` over the tiles of `mr` activation rows. -/
def prepareActivation (mr : ℕ) (p : Problem α) : Bytes × Parts α → Option (Bytes × Parts α) :=
  forUp (fun tile => forUp (fun b => forUp (fun x =>
    let source := p.activation ((tile * mr + x) * p.blocks + b)
    pair (forUp (fun i memory => memory.store .activationQs
        ((tile * p.blocks + b) * (256 * mr) + (i * mr + x)) (source.qs i)) 0 256)
      (activationParts mr source (tile * p.blocks + b) x)) 0 mr) 0 p.blocks) 0 p.tilesM

def storeScales (v : BlockQ4K α) (slot x : ℕ) (parts : Parts α) : Option (Parts α) :=
  (parts.store (.weightD .sum) (slot * 32 + x) v.d).bind fun parts =>
  parts.store (.weightD .sumMin) (slot * 32 + x) v.dmin

/-- One column of a weight block in the 12-row adapter. -/
def myParts (v : BlockQ4K α) (slot x : ℕ) (parts : Parts α) : Option (Parts α) :=
  (storeScales v slot x parts).bind
  (forUp (fun i parts =>
    (parts.store .scales (slot * 512 + (i * 32 + x)) (v.scales i &&& 63)).bind fun parts =>
    (parts.store .scales (slot * 512 + (256 + (i * 32 + x))) (v.scales (4 + i) &&& 63)).bind
      fun parts =>
    (parts.store .scales (slot * 512 + ((i + 4) * 32 + x))
      (v.scales (8 + i) &&& 15 ||| (v.scales i >>> 6) <<< 4)).bind fun parts =>
    parts.store .scales (slot * 512 + (256 + ((i + 4) * 32 + x)))
      (v.scales (8 + i) >>> 4 ||| (v.scales (4 + i) >>> 6) <<< 4)) 0 4)

def myQuants (v : BlockQ4K α) (slot x : ℕ) : Bytes → Option Bytes :=
  forUp (fun subblock => forUp (fun pair memory =>
    let index := subblock * 32 + pair * 2
    memory.store .weightQs (slot * 4096 + ((subblock * 16 + pair) * 32 + x))
      (q4Value v index ||| q4Value v (index + 1) <<< 4)) 0 16) 0 8

/-- `prepare` of the 12-row adapter. -/
def prepareMy (p : Problem α) (memory : Bytes × Parts α) : Option (Bytes × Parts α) :=
  (forUp (fun tile => forUp (fun b => forUp (fun x =>
    let v := p.weight ((tile * 32 + x) * p.blocks + b)
    pair (myQuants v (tile * p.blocks + b) x) (myParts v (tile * p.blocks + b) x))
    0 32) 0 p.blocks) 0 p.tilesN memory).bind (prepareActivation 12 p)

def packGroupSubblock (source : ℕ → BlockQ4K α) (subblock destination : ℕ) :
    Parts α → Option (Parts α) :=
  forUp (fun column parts =>
    let scale_low := q4Scale (source column).scales subblock
    let scale_high := q4Scale (source (column + 16)).scales subblock
    let min_low := q4Min (source column).scales subblock
    let min_high := q4Min (source (column + 16)).scales subblock
    (parts.store .scales (destination + column) (scale_low ||| (scale_high >>> 4) <<< 6)).bind
      fun parts =>
    (parts.store .scales (destination + (16 + column)) (min_low ||| (min_high >>> 4) <<< 6)).bind
      fun parts =>
    parts.store .scales (destination + (32 + column))
      (scale_high &&& 0x0f ||| (min_high &&& 0x0f) <<< 4)) 0 16

/-- The `sb` loop of the grouped adapter. -/
def groupScales (records : ℕ → BlockQ4K α) (slot : ℕ) : Parts α → Option (Parts α) :=
  forUp (fun sb parts =>
    (packGroupSubblock records (sb * 2) (slot * 512 + sb * 96) parts).bind
    (packGroupSubblock records (sb * 2 + 1) (slot * 512 + (sb * 96 + 48)))) 0 4

/-- One column of a weight block in the grouped adapter; the first one brings the scales of all. -/
def groupParts (records : ℕ → BlockQ4K α) (slot x : ℕ) (parts : Parts α) : Option (Parts α) :=
  (storeScales (records x) slot x parts).bind fun parts =>
  if x = 0 then groupScales records slot parts else some parts

def groupQuants (v : BlockQ4K α) (slot x : ℕ) : Bytes → Option Bytes :=
  forUp (fun group => forUp (fun z memory =>
    memory.store .weightQs (slot * 4096 + (group * 1024 + z * 32 + x))
      (q4Value v (group * 2 * 32 + z) ||| q4Value v ((group * 2 + 1) * 32 + z) <<< 4)) 0 32) 0 4

/-- `prepare` of the grouped adapter. -/
def prepareGroup (p : Problem α) (memory : Bytes × Parts α) : Option (Bytes × Parts α) :=
  (forUp (fun tile => forUp (fun b => forUp (fun x =>
    pair (groupQuants (p.weight ((tile * 32 + x) * p.blocks + b)) (tile * p.blocks + b) x)
      (groupParts (fun column => p.weight ((tile * 32 + column) * p.blocks + b))
        (tile * p.blocks + b) x))
    0 32) 0 p.blocks) 0 p.tilesN memory).bind (prepareActivation 4 p)

end Prepare

section My

variable [Inhabited α] (ops : FloatOps α α) (bytes : Bytes) (parts : Parts α)

/-- The trip of the `i_qsk` loop. -/
def accumulateSubblock (blockA blockW i_qsk : ℕ) : ScratchMemory α → Option (ScratchMemory α) :=
  forUp (fun i scratch =>
    (sumSubblock bytes blockA blockW i_qsk i 31).bind fun sum_subblock =>
    (parts.loadLanes .scales (blockW * 512 + i_qsk * 32) 32).bind fun w_scale =>
    (scratch.loadLanes .sumBlock (i * 32) 32).bind fun sum_block_row =>
    scratch.storeLanes .sumBlock (i * 32) 32
      (vwmaccVV sum_block_row sum_subblock fun lane => (w_scale lane).toInt)) 0 12

/-- A row of int32 sums times its factor, added to a row of `sum` or `sum_min`. -/
def addRow (s : Sums) (blockA i_qk i_m : ℕ) (w_d : ℕ → α) (row : ℕ → ℤ)
    (scratch : ScratchMemory α) : Option (ScratchMemory α) :=
  (parts.load .activationD (blockA * 12 + i_m)).bind fun a_d =>
  let d := fun lane => ops.mul (ops.widen (w_d lane)) a_d
  (if i_qk = 0 then some fun lane => ops.mul (ops.ofInt (row lane)) (d lane)
  else (scratch.fetchLanes (.rows s) id (i_m * 32) 32).map fun sum_row lane =>
    ops.fma (sum_row lane) (ops.ofInt (row lane)) (d lane)).bind fun sum_row =>
  scratch.storeLanes (.rows s) (i_m * 32) 32 fun lane => some (sum_row lane)

/-- One block of the first `i_qk` loop. -/
def sumBlock (blockA blockW i_qk : ℕ) (scratch : ScratchMemory α) : Option (ScratchMemory α) :=
  (forUp (accumulateSubblock bytes parts blockA blockW) 0 8
    (scratch.renew .sumBlock fun _ => 0)).bind fun scratch =>
  (parts.loadLanes (.weightD .sum) (blockW * 32) 32).bind fun w_d =>
  forUp (fun i_m scratch =>
    (scratch.loadLanes .sumBlock (i_m * 32) 32).bind fun sum_block_row =>
    addRow ops parts .sum blockA i_qk i_m w_d sum_block_row scratch) 0 12 scratch

/-- `sum_min_block_row` after sub-block `i`. -/
def minRow (w_min : ℕ → ℕ → ℤ) (bsums : ℕ → ℤ) : ℕ → ℕ → ℤ
  | 0 => vwmulVV (w_min 0) fun _ => bsums 0
  | i+1 => vwmaccVV (minRow w_min bsums i) (fun _ => bsums (i + 1)) (w_min (i + 1))

/-- One block of the second `i_qk` loop. -/
def sumMinBlock (blockA blockW i_qk : ℕ) (scratch : ScratchMemory α) : Option (ScratchMemory α) :=
  (fetchAll 8 fun i => parts.loadLanes .scales (blockW * 512 + (256 + i * 32)) 32).bind fun w_min =>
  (parts.loadLanes (.weightD .sumMin) (blockW * 32) 32).bind fun w_dmin =>
  forUp (fun i_m scratch =>
    (fetchAll 8 fun i => parts.load .bsums (blockA * 96 + (i_m + i * 12))).bind fun bsums =>
    addRow ops parts .sumMin blockA i_qk i_m w_dmin
      (minRow (fun i lane => (w_min i lane).toInt) (fun i => (bsums i).toInt) 7) scratch)
    0 12 scratch

/-- One tile of `ggml_gemm_q4_K_8x32_q8_K_my`. -/
def myTile (nb bs s vx vy i_mr i_nr : ℕ) (scratch : ScratchMemory α) : Option (ScratchMemory α) :=
  (forUp (fun i_qk => sumBlock ops bytes parts (vy + (i_mr * nb + i_qk)) (vx + (i_nr * nb + i_qk)) i_qk)
    0 nb (scratch.renew (.rows .sum) fun _ => none)).bind fun scratch =>
  (forUp (fun i_qk => sumMinBlock ops parts (vy + (i_mr * nb + i_qk)) (vx + (i_nr * nb + i_qk)) i_qk)
    0 nb (scratch.renew (.rows .sumMin) fun _ => none)).bind
  (forUp (fun i_m scratch =>
    (scratch.fetchLanes (.rows .sum) id (i_m * 32) 32).bind fun sum_row =>
    (scratch.fetchLanes (.rows .sumMin) id (i_m * 32) 32).bind fun sum_min_row =>
    scratch.storeLanes .output (s + ((i_mr * 12 + i_m) * bs + i_nr * 32)) 32 fun lane =>
      some (ops.sub (sum_row lane) (sum_min_row lane))) 0 12)

/-- `ggml_gemm_q4_K_8x32_q8_K_my`; `vx` and `vy` are the indices of the first blocks. -/
def gemmMy (nb bs s vx vy m n : ℕ) : ScratchMemory α → Option (ScratchMemory α) :=
  forUp (fun i_mr => forUp (myTile ops bytes parts nb bs s vx vy i_mr) 0 (n / 32)) 0 (m / 12)

/-- `run` of the 12-row adapter. -/
def runMy (p : Problem α) (iterations : ℕ) : ScratchMemory α → Option (ScratchMemory α) :=
  forUp (fun _ => forUp (fun tile_m => forUp (fun tile_n =>
    gemmMy ops bytes parts p.blocks (p.tilesN * 32) (tile_m * 12 * (p.tilesN * 32) + tile_n * 32)
      (tile_n * p.blocks) (tile_m * p.blocks) 12 32) 0 p.tilesN) 0 p.tilesM) 0 iterations

end My

section Group

def kmask1 : BitVec 32 := 0x3f3f3f3f

def kmask2 : BitVec 32 := 0x0f0f0f0f

def kmask3 : BitVec 32 := 0x03030303

/-- What happens to `utmp` after `memcpy`. -/
def unscramble (utmp : ℕ → BitVec 32) : ℕ → BitVec 32 :=
  let utmp := update utmp 15 (utmp 11 >>> 4 &&& kmask2 ||| (utmp 7 >>> 6 &&& kmask3) <<< 4)
  let utmp := update utmp 14 (utmp 10 >>> 4 &&& kmask2 ||| (utmp 6 >>> 6 &&& kmask3) <<< 4)
  let utmp := update utmp 13 (utmp 9 >>> 4 &&& kmask2 ||| (utmp 5 >>> 6 &&& kmask3) <<< 4)
  let utmp := update utmp 12 (utmp 8 >>> 4 &&& kmask2 ||| (utmp 4 >>> 6 &&& kmask3) <<< 4)
  let uaux := utmp 4 &&& kmask1
  let uaux1 := utmp 5 &&& kmask1
  let uaux2 := utmp 6 &&& kmask1
  let uaux3 := utmp 7 &&& kmask1
  let utmp := update utmp 4 (utmp 8 &&& kmask2 ||| (utmp 0 >>> 6 &&& kmask3) <<< 4)
  let utmp := update utmp 5 (utmp 9 &&& kmask2 ||| (utmp 1 >>> 6 &&& kmask3) <<< 4)
  let utmp := update utmp 6 (utmp 10 &&& kmask2 ||| (utmp 2 >>> 6 &&& kmask3) <<< 4)
  let utmp := update utmp 7 (utmp 11 &&& kmask2 ||| (utmp 3 >>> 6 &&& kmask3) <<< 4)
  let utmp := update utmp 8 uaux
  let utmp := update utmp 9 uaux1
  let utmp := update utmp 10 uaux2
  let utmp := update utmp 11 uaux3
  let utmp := update utmp 0 (utmp 0 &&& kmask1)
  let utmp := update utmp 1 (utmp 1 &&& kmask1)
  let utmp := update utmp 2 (utmp 2 &&& kmask1)
  update utmp 3 (utmp 3 &&& kmask1)

/-- 32 bytes of `utmp` from word `first` on, as int16 lanes: `scales` at 0 and `mins` at 8. -/
def utmpLanes (utmp : ℕ → BitVec 32) (first lane : ℕ) : ℤ :=
  (byteOf (utmp (first + lane / 4)) (lane % 4)).toNat

/-- `memcpy(utmp, ..., 48)` and what follows. -/
def loadUtmp (parts : Parts α) (base : ℕ) : Option (ℕ → BitVec 32) :=
  (parts.loadLanes .scales base 48).map fun bytes => unscramble fun i => ofBytes fun j => bytes (4 * i + j)

/-- `__riscv_vadd_vv_i32m4`. -/
def vaddVV (a b : ℕ → ℤ) (lane : ℕ) : ℤ := Register.wrap 32 (a lane + b lane)

/-- The registers `sum_block` and `sum_min_block` of the four rows. -/
structure BlockRows where
  sum_block : ℕ → ℕ → ℤ
  sum_min_block : ℕ → ℕ → ℤ

/-- `sum_rows` and `sum_min_rows`. -/
structure FloatRows (α : Type) where
  sum_rows : ℕ → ℕ → α
  sum_min_rows : ℕ → ℕ → α

variable [Inhabited α] (ops : FloatOps α α) (bytes : Bytes) (parts : Parts α)

/-- Two sub-blocks. -/
def groupPair (blockA blockW sb : ℕ) (block : BlockRows) : Option BlockRows :=
  (fetchAll 4 fun row => suml bytes blockA blockW sb false row 32).bind fun suml_32 =>
  (fetchAll 4 fun row => suml bytes blockA blockW sb true row 32).bind fun suml_64 =>
  (loadUtmp parts (blockW * 512 + 96 * sb)).bind fun utmp_32 =>
  (loadUtmp parts (blockW * 512 + (48 + 96 * sb))).bind fun utmp_64 =>
  (fetchAll 8 fun i => parts.load .bsums (blockA * 32 + (i + sb * 8))).map fun bsums =>
  { sum_block := fun row =>
      vwmaccVV (vwmaccVV (block.sum_block row) (suml_32 row) (utmpLanes utmp_32 0))
        (suml_64 row) (utmpLanes utmp_64 0)
    sum_min_block := fun row =>
      vaddVV (block.sum_min_block row)
        (vaddVV (vwmulVV (utmpLanes utmp_32 8) fun _ => (bsums row).toInt)
          (vwmulVV (utmpLanes utmp_64 8) fun _ => (bsums (4 + row)).toInt)) }

/-- One block of the `b` loop. -/
def groupBlock (blockA blockW : ℕ) (rows : FloatRows α) : Option (FloatRows α) :=
  (forUp (groupPair bytes parts blockA blockW) 0 4 ⟨fun _ _ => 0, fun _ _ => 0⟩).bind fun block =>
  (fetchAll 4 fun row => parts.load .activationD (blockA * 4 + row)).bind fun src1_d =>
  (parts.loadLanes (.weightD .sum) (blockW * 32) 32).bind fun src0_d =>
  (parts.loadLanes (.weightD .sumMin) (blockW * 32) 32).map fun src0_dmin =>
  { sum_rows := fun row lane =>
      ops.fma (rows.sum_rows row lane) (ops.ofInt (block.sum_block row lane))
        (ops.mul (ops.widen (src0_d lane)) (src1_d row))
    sum_min_rows := fun row lane =>
      ops.fma (rows.sum_min_rows row lane) (ops.ofInt (block.sum_min_block row lane))
        (ops.mul (ops.widen (src0_dmin lane)) (src1_d row)) }

/-- One tile of `ggml_gemm_q4_K_8x32_q8_K_group`. -/
def groupTile (nb bs s vx vy y x : ℕ) (scratch : ScratchMemory α) : Option (ScratchMemory α) :=
  (forUp (fun b => groupBlock ops bytes parts (vy + (y * nb + b)) (vx + (x * nb + b))) 0 nb
    ⟨fun _ _ => ops.zero, fun _ _ => ops.zero⟩).bind fun rows =>
  forUp (fun row scratch => scratch.storeLanes .output (s + ((y * 4 + row) * bs + x * 32)) 32
    fun lane => some (ops.sub (rows.sum_rows row lane) (rows.sum_min_rows row lane))) 0 4 scratch

/-- `ggml_gemm_q4_K_8x32_q8_K_group`. -/
def gemmGroup (nb bs s vx vy nr nc : ℕ) : ScratchMemory α → Option (ScratchMemory α) :=
  forUp (fun y => forUp (groupTile ops bytes parts nb bs s vx vy y) 0 (nc / 32)) 0 (nr / 4)

/-- `run` of the grouped adapter. -/
def runGroup (p : Problem α) (iterations : ℕ) : ScratchMemory α → Option (ScratchMemory α) :=
  forUp (fun _ => forUp (fun tile_m => forUp (fun tile_n =>
    gemmGroup ops bytes parts p.blocks (p.tilesN * 32) (tile_m * 4 * (p.tilesN * 32) + tile_n * 32)
      (tile_n * p.blocks) (tile_m * p.blocks) 4 32) 0 p.tilesN) 0 p.tilesM) 0 iterations

end Group

end Pfng.Q4K
