import Pfng.Lib.Extended
import Pfng.Lib.Memory
import Pfng.Q40.Reference

/-! The activation packing of the IME1 kernels: `quantize_a_4row_i8` for blocks of 32, and the
activation loops of `initialize_q4_0_ime`. -/
namespace Pfng.Q40
open Checked Rounding Extended

/-- The state's packed activation, and the temporary `packed_four_rows`. -/
inductive Object
  | packed | fourRows
  deriving DecidableEq

/-- A block is a record of floats and bytes: `floats` counts in units of a float, `bytes` in bytes. -/
inductive View
  | floats | bytes
  deriving DecidableEq

abbrev Cell (α : Type) : Object × View → Type
  | (_, .floats) => α
  | (_, .bytes) => BitVec 8

abbrev PackedMemory (α : Type) := Memory (Object × View) (Cell α)

variable {α : Type} [Field α] [LinearOrder α] [FloorRing α]

/-- A signed integer clipped to `w` bits. -/
def saturate (w : ℕ) (x : ℤ) : ℤ := max (-2^(w-1)) (min x (2^(w-1) - 1))

/-- `vfcvt.x.f.v` in the default rounding mode. -/
def vfcvt : Extended α → ℤ
  | finite x => saturate 32 (toEven x)
  | infinite negative => if negative then -2^31 else 2^31 - 1
  | nan => 2^31 - 1

/-- `f10` of `QUANTIZEM4ROW_KERNEL`: the largest magnitude times `range_max_reciprocal`. -/
def rowScale (x : ℕ → α) : α := (List.range 32).foldl (fun m i => max m |x i|) 0 * (1 / 127)

/-- The bytes of `v24` to `v27`: two `vnclip` after the conversion. -/
def rowQuants (x : ℕ → α) (lane : ℕ) : BitVec 8 :=
  let f11 := (finite (1 : α)).div (finite (rowScale x))
  BitVec.ofInt 8 (saturate 8 (saturate 16 (vfcvt ((finite (x lane)).mul f11))))

/-- `QUANTIZEM4ROW_STORE`: eight stores, each of what is left of the 32 lanes. -/
def storeM4Row (o : Object) (s1 : ℕ) (v : ℕ → BitVec 8) : PackedMemory α → Option (PackedMemory α) :=
  forUp (fun g memory =>
    memory.storeLanes (o, .bytes) (s1 + g * 32) (min 8 (32 - g * 8)) fun lane => v (g * 8 + lane))
    0 8

/-- `quantize_a_4row_i8(32, A, blocks * 32, QuantA)` with `QuantA` at block `base` of `o`. -/
def quantizeA4rowI8 (o : Object) (base blocks : ℕ) (A : ℕ → α) :
    PackedMemory α → Option (PackedMemory α) :=
  forUp (fun row => forUp (fun block memory =>
    let src := fun lane => A (row * (blocks * 32) + block * 32 + lane)
    let offset := (4 - row) * 4 + row * 8
    (memory.store (o, .floats) ((base + block) * 36 + row) (rowScale src)).bind
      (storeM4Row o ((base + block) * 144 + row * 4 + offset) (rowQuants src))) 0 blocks) 0 4

/-- One tile of four rows: the quantiser, and the reference scales over its own. -/
def initializeTile (half : α → α) (activation : ℕ → α) (blocks tile : ℕ) (memory : PackedMemory α) :
    Option (PackedMemory α) :=
  (quantizeA4rowI8 .packed (tile * blocks) blocks
    (fun i => activation (tile * 4 * (blocks * 32) + i)) memory).bind
  (forUp (fun block => forUp (fun row memory =>
    memory.store (.packed, .floats) ((tile * blocks + block) * 36 + row)
      (quantizedActivation half activation blocks (tile * 4 + row) block).d) 0 4) 0 blocks)

/-- The activation loop of `initialize_q4_0_ime<4>` for `tiles` tiles of four rows. -/
def initializeM4 (half : α → α) (activation : ℕ → α) (tiles blocks : ℕ) :
    PackedMemory α → Option (PackedMemory α) :=
  forUp (initializeTile half activation blocks) 0 tiles

/-- One block of one half of a tile: two copies, and the scales over the first. -/
def copyBlock (half : α → α) (activation : ℕ → α) (blocks tile h block : ℕ)
    (memory : PackedMemory α) : Option (PackedMemory α) :=
  (memory.loadLanes (.fourRows, .floats) (block * 36) 4).bind fun scales =>
  (memory.storeLanes (.packed, .floats) ((tile * blocks + block) * 72 + h * 4) 4 scales).bind
    fun memory =>
  (forUp (fun row memory =>
    memory.store (.packed, .floats) ((tile * blocks + block) * 72 + (h * 4 + row))
      (quantizedActivation half activation blocks (tile * 8 + (h * 4 + row)) block).d)
    0 4 memory).bind fun memory =>
  (memory.loadLanes (.fourRows, .bytes) (block * 144 + 16) 128).bind fun quants =>
  memory.storeLanes (.packed, .bytes) ((tile * blocks + block) * 288 + 32 + h * 4 * 32) 128 quants

/-- One half of a tile of eight rows. -/
def initializeHalf (half : α → α) (activation : ℕ → α) (blocks tile h : ℕ)
    (memory : PackedMemory α) : Option (PackedMemory α) :=
  (quantizeA4rowI8 .fourRows 0 blocks
    (fun i => activation ((tile * 8 + h * 4) * (blocks * 32) + i)) memory).bind
  (forUp (copyBlock half activation blocks tile h) 0 blocks)

/-- The activation loop of `initialize_q4_0_ime<8>` for `tiles` tiles of eight rows. -/
def initializeM8 (half : α → α) (activation : ℕ → α) (tiles blocks : ℕ) :
    PackedMemory α → Option (PackedMemory α) :=
  forUp (fun tile => forUp (initializeHalf half activation blocks tile) 0 2) 0 tiles

/-- The sizes of the two objects for tiles of `mr` rows, whose blocks take `9 * mr` floats. -/
def packedSize (mr tiles blocks : ℕ) : Object × View → ℕ
  | (.packed, .floats) => tiles * blocks * (9 * mr)
  | (.packed, .bytes) => tiles * blocks * (36 * mr)
  | (.fourRows, .floats) => blocks * 36
  | (.fourRows, .bytes) => blocks * 144

end Pfng.Q40
