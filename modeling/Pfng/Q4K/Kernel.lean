import Pfng.Blocks
import Pfng.Lib.Layout
import Pfng.Lib.Memory
import Pfng.Rvv

/-! The quant packing and the int16 accumulators of the two custom Q4_K kernels. Both pack two
nibbles of a column into a byte: neighbours in the 12-row kernel, elements of two neighbouring
sub-blocks in the grouped one. -/
namespace Pfng.Q4K
open Checked Rvv

inductive Buffer
  | activationQs | weightQs
  deriving DecidableEq

variable {α : Type}

abbrev Bytes := Memory Buffer fun _ => BitVec 8

def q4Value (block : BlockQ4K α) (index : ℕ) : BitVec 8 :=
  let packed := block.qs (index / 64 * 32 + index % 32)
  if index % 64 < 32 then packed &&& 0x0f else packed >>> 4

/-- The activation loops of `prepare`: `mr` rows interleaved, element by element. -/
def packActivation (mr : ℕ) (activation : ℕ → BlockQ8K α) (tiles blocks : ℕ) :
    Bytes → Option Bytes :=
  forUp (fun tile => forUp (fun b => forUp (fun x => forUp (fun i memory =>
    memory.store .activationQs ((tile * blocks + b) * (256 * mr) + (i * mr + x))
      ((activation ((tile * mr + x) * blocks + b)).qs i)) 0 256) 0 mr) 0 blocks) 0 tiles

/-- The weight loops of `prepare` in the 12-row adapter. -/
def packMy (weight : ℕ → BlockQ4K α) (tiles blocks : ℕ) : Bytes → Option Bytes :=
  forUp (fun tile => forUp (fun b => forUp (fun x => forUp (fun subblock => forUp (fun pair memory =>
    let v := weight ((tile * 32 + x) * blocks + b)
    let index := subblock * 32 + pair * 2
    memory.store .weightQs ((tile * blocks + b) * 4096 + ((subblock * 16 + pair) * 32 + x))
      (q4Value v index ||| q4Value v (index + 1) <<< 4)) 0 16) 0 8) 0 32) 0 blocks) 0 tiles

/-- The weight loops of `prepare` in the grouped adapter. -/
def packGroup (weight : ℕ → BlockQ4K α) (tiles blocks : ℕ) : Bytes → Option Bytes :=
  forUp (fun tile => forUp (fun b => forUp (fun x => forUp (fun group => forUp (fun z memory =>
    let v := weight ((tile * 32 + x) * blocks + b)
    memory.store .weightQs ((tile * blocks + b) * 4096 + (group * 1024 + z * 32 + x))
      (q4Value v (group * 2 * 32 + z) ||| q4Value v ((group * 2 + 1) * 32 + z) <<< 4))
    0 32) 0 4) 0 32) 0 blocks) 0 tiles

def lowNibble (packed : BitVec 8) : BitVec 8 := packed &&& 0x0f

def highNibble (packed : BitVec 8) : BitVec 8 := packed >>> 4

/-- Round `i_k` of the 12-row kernel: even rounds use the low nibbles, odd ones the high. -/
def myOperands (memory : Bytes) (blockA blockW i_qsk row i_k : ℕ) :
    Option ((ℕ → BitVec 8) × BitVec 8) :=
  (memory.loadLanes .weightQs (blockW * 4096 + (i_qsk * 16 + i_k / 2) * 32) 32).bind fun wx2 =>
  (memory.load .activationQs (blockA * 3072 + ((i_qsk * 32 + i_k) * 12 + row))).map fun a =>
    (fun lane => if i_k % 2 = 0 then lowNibble (wx2 lane) else highNibble (wx2 lane), a)

/-- `sum_subblock<row>` of `ggml_gemm_q4_K_8x32_q8_K_my` after round `i_k`. -/
def sumSubblock (memory : Bytes) (blockA blockW i_qsk row : ℕ) : ℕ → Option (ℕ → ℤ) :=
  mulRounds (myOperands memory blockA blockW i_qsk row)

/-- Round `z` of the grouped kernel for the low (`suml_32`) or the high (`suml_64`) nibbles. -/
def groupOperands (memory : Bytes) (blockA blockW sb : ℕ) (high : Bool) (row z : ℕ) :
    Option ((ℕ → BitVec 8) × BitVec 8) :=
  let ssb := sb * 256 + z * 4
  (memory.loadLanes .weightQs (blockW * 4096 + (sb * 1024 + z * 32)) 32).bind fun src0 =>
  (memory.load .activationQs (blockA * 1024 + (ssb + (if high then 128 else 0) + row))).map fun a =>
    (fun lane => if high then highNibble (src0 lane) else lowNibble (src0 lane), a)

/-- `suml_32_<row>` and `suml_64_<row>` of `ggml_gemm_q4_K_8x32_q8_K_group` after `z` rounds. -/
def suml (memory : Bytes) (blockA blockW sb : ℕ) (high : Bool) (row : ℕ) : ℕ → Option (ℕ → ℤ) :=
  macRounds (groupOperands memory blockA blockW sb high row)

/-- `tilesM` tiles of rows, `tilesN` tiles of 32 columns, `blocks` blocks along K. -/
structure Problem (α : Type) where
  tilesM : ℕ
  tilesN : ℕ
  blocks : ℕ
  weight : ℕ → BlockQ4K α
  activation : ℕ → BlockQ8K α

/-- The accumulator of the 12-row kernel for one output element after round `i_k`. -/
def myAccumulator (p : Problem α) (row column block i_qsk i_k : ℕ) (memory : Bytes) : Option ℤ :=
  (packMy p.weight p.tilesN p.blocks memory).bind fun memory =>
  (packActivation 12 p.activation p.tilesM p.blocks memory).bind fun memory =>
  (sumSubblock memory (row / 12 * p.blocks + block) (column / 32 * p.blocks + block) i_qsk
    (row % 12) i_k).map fun sum => sum (column % 32)

/-- The accumulator of the grouped kernel that holds sub-block `i_qsk`, after round `i_k`. -/
def groupAccumulator (p : Problem α) (row column block i_qsk i_k : ℕ) (memory : Bytes) : Option ℤ :=
  (packGroup p.weight p.tilesN p.blocks memory).bind fun memory =>
  (packActivation 4 p.activation p.tilesM p.blocks memory).bind fun memory =>
  (suml memory (row / 4 * p.blocks + block) (column / 32 * p.blocks + block) (i_qsk / 2)
    (i_qsk % 2 == 1) (row % 4) (i_k + 1)).map fun sum => sum (column % 32)

/-- The buffer sizes when a tile has `mr` rows. -/
def bufferSize (mr : ℕ) (p : Problem α) : Buffer → ℕ
  | .activationQs => p.tilesM * p.blocks * (256 * mr)
  | .weightQs => p.tilesN * p.blocks * 4096

end Pfng.Q4K
