import Pfng.Lib.Words
import Pfng.Q40.Windows
import Pfng.Q40.M8b

/-! Packed operands whose scales are halves: `groups` times four rows make a block of the activation,
`nr` columns make one of the weights. `q4_0-q8_0-IME-m4n32b` packs one group and 32 columns,
`q4_0-q8_0-IME-m32n4` eight groups and four columns. -/
namespace Pfng.Q40.HalfBlocks
open Checked BatchReduction Words

/-- `fourRows` is what the four-row quantiser leaves before its quants are copied; the blocks of
`packed_a` and `packed_b` lie as an array of scales and one of quants. -/
inductive HalfBuffer
  | fourRows | scalesA | quantsA | scalesB | quantsB | output
  deriving DecidableEq

variable {F H : Type}

abbrev HalfCell (F H : Type) : HalfBuffer → Type
  | .fourRows => Option (BitVec 8)
  | .scalesA => Option H
  | .quantsA => Option (BitVec 8)
  | .scalesB => Option H
  | .quantsB => Option (BitVec 8)
  | .output => Option F

abbrev HalfMemory (F H : Type) := Memory HalfBuffer (HalfCell F H)

/-- A memory that nothing was written to. -/
def halfUnwritten (size : HalfBuffer → ℕ) : HalfMemory F H where
  size := size
  cell := fun k _ => match k with
    | .fourRows => none
    | .scalesA => none
    | .quantsA => none
    | .scalesB => none
    | .quantsB => none
    | .output => none

abbrev Components := Memory Unit fun _ => Option ℤ

def newComponents (size : ℕ) : Components := ⟨fun _ => size, fun _ _ => none⟩

variable (request : Bench.BenchmarkRequest)

/-- Elements of each buffer. -/
def halfSize (groups nr : ℕ) : HalfBuffer → ℕ
  | .fourRows => request.k / 32 * 144
  | .scalesA => request.m / (groups * 4) * (request.k / 32) * (groups * 4)
  | .quantsA => request.m / (groups * 4) * (request.k / 32) * (groups * 128)
  | .scalesB => request.n / nr * (request.k / 32) * nr
  | .quantsB => request.n / nr * (request.k / 32) * (nr * 16)
  | .output => request.m * request.n

variable (operands : Operands H H) (fourRowScale : ℕ → ℕ → BitVec 32)

/-- `quantize_a_4row_i8` on four rows; its own scales are never read. -/
def quantizeA4rowI8 (first : ℕ) : HalfMemory F H → Option (HalfMemory F H) :=
  forUp (fun block memory =>
    (memory.storeLanes .fourRows (block * 144) 16 fun i =>
      some (byteOf (fourRowScale (first + i / 4) block) (i % 4))).bind fun memory =>
    memory.storeLanes .fourRows (block * 144 + 16) 128 fun i =>
      some ((operands.activation (first + i % 32 / 8) block).qs (i / 32 * 8 + i % 8)))
    0 (request.k / 32)

/-- The blocks of one group of a tile; `scale` is what becomes of a half on its way. -/
def packGroup (scale : H → H) (groups tile group : ℕ) : HalfMemory F H → Option (HalfMemory F H) :=
  forUp (fun block memory =>
    let destination := tile * (request.k / 32) + block
    (forUp (fun row memory => memory.store .scalesA (destination * (groups * 4) + (group * 4 + row))
      (some (scale (operands.activation (tile * (groups * 4) + (group * 4 + row)) block).d))) 0 4
      memory).bind fun memory =>
    memory.copyLanes .fourRows .quantsA id some (block * 144 + 16)
      (destination * (groups * 128) + group * 128) 128) 0 (request.k / 32)

def packA (scale : H → H) (groups : ℕ) : HalfMemory F H → Option (HalfMemory F H) :=
  forUp (fun tile => forUp (fun group memory =>
    (quantizeA4rowI8 request operands fourRowScale (tile * (groups * 4) + group * 4) memory).bind
    (packGroup request operands scale groups tile group)) 0 groups) 0 (request.m / (groups * 4))

def lowPair (source : BlockQ40 H) (j : ℕ) : BitVec 8 :=
  (source.qs j &&& 0x0f#8) ||| ((source.qs (j + 8) &&& 0x0f#8) <<< 4)

def highPair (source : BlockQ40 H) (j : ℕ) : BitVec 8 :=
  ((source.qs j &&& 0xf0#8) >>> 4) ||| (source.qs (j + 8) &&& 0xf0#8)

/-- `place` is the index of a byte in `qs`, by plane, column and element. -/
def packB (scale : H → H) (nr : ℕ) (place : ℕ → ℕ → ℕ → ℕ) : HalfMemory F H → Option (HalfMemory F H) :=
  forUp (fun tile => forUp (fun block => forUp (fun column memory =>
    let source := operands.weight ((tile * nr + column) * (request.k / 32) + block)
    let destination := tile * (request.k / 32) + block
    (memory.store .scalesB (destination * nr + column) (some (scale source.d))).bind
    (forUp (fun j memory =>
      (memory.store .quantsB (destination * (nr * 16) + place 0 column j) (some (lowPair source j))).bind
        fun memory =>
      memory.store .quantsB (destination * (nr * 16) + place 1 column j) (some (highPair source j)))
      0 8)) 0 nr) 0 (request.k / 32)) 0 (request.n / nr)

end Pfng.Q40.HalfBlocks
