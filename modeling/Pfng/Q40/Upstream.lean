import Mathlib.Data.Rat.Floor
import Mathlib.Tactic.IntervalCases
import Pfng.Lib.Bytes
import Pfng.Lib.Layout
import Pfng.Q40.Adapter

/-! The packed buffers of the IME2 upstream kernel: what `prepare` writes, byte by byte, and what the
layout reference `gemm_kernel_i8i4_mrow_ref<4, 32>` reads at the offsets that `run` passes. -/
namespace Pfng.Q40.Upstream
open Checked Finset Register

inductive Buffer
  | packedA | packedB
  deriving DecidableEq

abbrev UpstreamMemory (α : Type) := Memory Buffer fun _ => Byte α

def kActivationRowBytes : ℕ := 38
def kActivationBlockBytes : ℕ := 152
def kWeightColumnBytes : ℕ := 18
def kWeightBlockBytes : ℕ := 576

def rowStrideA (request : Bench.BenchmarkRequest) : ℕ := request.k / 32 * kActivationRowBytes
def colStrideB (request : Bench.BenchmarkRequest) : ℕ := request.k / 32 * kWeightColumnBytes

def bufferSize (request : Bench.BenchmarkRequest) : Buffer → ℕ
  | .packedA => request.m * rowStrideA request
  | .packedB => request.n / 32 * 32 * colStrideB request

variable {α : Type}

def lowPair (source : BlockQ40 α) (pair : ℕ) : BitVec 8 :=
  source.qs (2 * pair) &&& 0x0f#8 ||| (source.qs (2 * pair + 1) &&& 0x0f#8) <<< 4

def highPair (source : BlockQ40 α) (pair : ℕ) : BitVec 8 :=
  (source.qs (2 * pair) &&& 0xf0#8) >>> 4 ||| source.qs (2 * pair + 1) &&& 0xf0#8

def packWeightBlock (columns : ℕ → BlockQ40 α) (blocks_k block destination : ℕ) :
    UpstreamMemory α → Option (UpstreamMemory α) :=
  forUp (fun column memory =>
    let source := columns (column * blocks_k + block)
    let target := destination + 64 + column * 16
    (memory.storeHalf .packedB (destination + 2 * column) source.d).bind
    (forUp (fun pair memory =>
      (memory.storeInt8 .packedB (target + pair) (lowPair source pair)).bind fun memory =>
      memory.storeInt8 .packedB (target + (8 + pair)) (highPair source pair)) 0 8)) 0 32

/-- The loop over one block of an activation row. -/
def packActivationRow (source : BlockQ80 α) (block_base row : ℕ) (memory : UpstreamMemory α) :
    Option (UpstreamMemory α) :=
  (memory.storeFloat .packedA (block_base + 4 * row) source.d).bind fun memory =>
  (forUp (fun k => pair
    (fun memory : UpstreamMemory α =>
      memory.storeInt8 .packedA (block_base + 24 + (row * 32 + k)) (source.qs k))
    (fun sum : BitVec 16 => some (sum + (source.qs k).signExtend 16))) 0 32 (memory, 0)).bind
    fun (memory, sum) =>
  memory.storeInt16 .packedA (block_base + 16 + 2 * row) (-sum)

/-- Both packing loops of `prepare`, on buffers of zeros. -/
def prepare [Field α] [LinearOrder α] [FloorRing α] (half : α → α) (request : Bench.BenchmarkRequest)
    (input : Input α) : Option (UpstreamMemory α) :=
  let blocks_k := request.k / 32
  (forUp (fun tile => forUp (fun row => forUp (fun block =>
    packActivationRow (quantizedActivation half input.activation blocks_k (tile * 4 + row) block)
      (tile * 4 * rowStrideA request + block * kActivationBlockBytes) row)
    0 blocks_k) 0 4) 0 (request.m / 4)
    ⟨bufferSize request, fun _ _ => ⟨.bits 0, 0⟩⟩).bind
  (forUp (fun tile => forUp (fun block =>
    packWeightBlock (fun x => input.weight (tile * 32 * blocks_k + x)) blocks_k block
      ((tile * blocks_k + block) * kWeightBlockBytes)) 0 blocks_k) 0 (request.n / 32))

def int32 (x : ℤ) : Option ℤ := if Fits 32 x then some x else none

/-- The integer step of `gemm_kernel_i8i4_mrow_ref<4, 32>` without zero points: `acc`, `a_scale` and
`b_scale` of row `mi`, column `ci` and block `ki`. -/
def integerStep [DecidableEq α] (half : α → α) (memory : UpstreamMemory α)
    (quant_a_ptr quant_b_data ki mi ci : ℕ) : Option (ℤ × α × α) :=
  let a_data := quant_a_ptr + 24 + ki * (kActivationRowBytes * 4)
  let b_data := quant_b_data + 64 + ki * (kWeightColumnBytes * 32)
  (memory.loadFloat .packedA (a_data - 24 + 4 * mi)).bind fun a_scale =>
  (memory.loadInt16 .packedA (a_data - 8 + 2 * mi)).bind fun a_sum =>
  (memory.loadHalf .packedB (b_data - 64 + 2 * ci)).bind fun b_scale =>
  (int32 (a_sum.toInt * 8)).bind fun acc =>
  (forUp (fun bi acc =>
    (memory.loadInt8 .packedA (a_data + (mi * 32 + 2 * bi))).bind fun a0 =>
    (memory.loadInt8 .packedA (a_data + (mi * 32 + (2 * bi + 1)))).bind fun a1 =>
    (memory.loadInt8 .packedB (b_data + (ci * 16 + bi))).bind fun b =>
    int32 (acc + (a0.toInt * (b &&& 0x0f).toInt + a1.toInt * ((b &&& 0xf0) >>> 4).toInt))) 0 16
    acc).map fun acc => (acc, half a_scale, b_scale)

/-- The step at the offsets that `run` passes for a tile. -/
def tileStep [DecidableEq α] (half : α → α) (request : Bench.BenchmarkRequest)
    (memory : UpstreamMemory α) (row_tile column_tile ki mi ci : ℕ) : Option (ℤ × α × α) :=
  integerStep half memory (row_tile * 4 * rowStrideA request)
    (column_tile * 32 * colStrideB request) ki mi ci

section Contents

def rowOf (o : ℕ) : ℕ := if o < 16 then o / 4 else if o < 24 then (o - 16) / 2 else (o - 24) / 32

def columnOf (o : ℕ) : ℕ := if o < 64 then o / 2 else (o - 64) / 16

def rowSum (source : BlockQ80 α) : BitVec 16 :=
  (List.range 32).foldl (fun sum k => sum + (source.qs k).signExtend 16) 0

/-- Byte `o` of an activation block. -/
def activationByte (rows : ℕ → BlockQ80 α) (o : ℕ) : Checked.Part α :=
  if o < 16 then .float (rows (o / 4)).d (o % 4)
  else if o < 24 then int16Part (-rowSum (rows ((o - 16) / 2))) ((o - 16) % 2)
  else .bits ((rows ((o - 24) / 32)).qs ((o - 24) % 32))

/-- Byte `o` of a weight block. -/
def weightByte (columns : ℕ → BlockQ40 α) (o : ℕ) : Checked.Part α :=
  if o < 64 then .half (columns (o / 2)).d (o % 2)
  else
    let source := columns ((o - 64) / 16)
    let b := (o - 64) % 16
    .bits (if b < 8 then lowPair source b else highPair source (b - 8))

variable {size : Buffer → ℕ} {u v : Contents Buffer fun _ => Byte α} {slot : ℕ}

theorem packActivationRow_eq (source : BlockQ80 α) (block_base row : ℕ) :
    packActivationRow source block_base row = fun memory =>
      ((memory.storeFloat .packedA (block_base + 4 * row) source.d).bind
        (forUp (fun k memory =>
          memory.storeInt8 .packedA (block_base + 24 + (row * 32 + k)) (source.qs k)) 0 32)).bind
        fun memory => memory.storeInt16 .packedA (block_base + 16 + 2 * row) (-rowSum source) := by
  funext memory
  rw [packActivationRow, Option.bind_assoc]
  congr 1
  funext memory
  rw [forUp_pair, pair, forUp_some]
  cases forUp _ 0 32 memory with
  | none => rfl
  | some memory => rfl

theorem rowOf_iff {o row : ℕ} (ho : o < 152) (hr : row < 4) : rowOf o = row ↔
    (∃ i < 4, o = 4 * row + i) ∨ (∃ k < 32, o = 24 + (row * 32 + k)) ∨ ∃ i < 2, o = 16 + 2 * row + i := by
  rw [rowOf]
  constructor
  · intro same
    split_ifs at same with scale sum
    · exact .inl ⟨o - 4 * row, by omega, by omega⟩
    · exact .inr (.inr ⟨o - (16 + 2 * row), by omega, by omega⟩)
    · exact .inr (.inl ⟨o - (24 + row * 32), by omega, by omega⟩)
  · rintro (⟨i, hi, rfl⟩ | ⟨k, hk, rfl⟩ | ⟨i, hi, rfl⟩)
    · rw [if_pos (by omega)]
      omega
    · rw [if_neg (by omega), if_neg (by omega)]
      omega
    · rw [if_neg (by omega), if_pos (by omega)]
      omega

theorem columnOf_iff {o column : ℕ} (ho : o < 576) (hc : column < 32) : columnOf o = column ↔
    (∃ i < 2, o = 2 * column + i) ∨ ∃ b < 16, o = 64 + column * 16 + b := by
  rw [columnOf]
  constructor
  · intro same
    split_ifs at same with scale
    · exact .inl ⟨o - 2 * column, by omega, by omega⟩
    · exact .inr ⟨o - (64 + column * 16), by omega, by omega⟩
  · rintro (⟨i, hi, rfl⟩ | ⟨b, hb, rfl⟩)
    · rw [if_pos (by omega)]
      omega
    · rw [if_neg (by omega)]
      omega

theorem activationByte_scale (rows : ℕ → BlockQ80 α) {row i : ℕ} (hr : row < 4) (hi : i < 4) :
    activationByte rows (4 * row + i) = .float (rows row).d i := by
  have place : (4 * row + i) / 4 = row ∧ (4 * row + i) % 4 = i := by omega
  rw [activationByte, if_pos (by omega), place.1, place.2]

theorem activationByte_quant (rows : ℕ → BlockQ80 α) {row k : ℕ} (hk : k < 32) :
    activationByte rows (24 + (row * 32 + k)) = .bits ((rows row).qs k) := by
  have place : (24 + (row * 32 + k) - 24) / 32 = row ∧ (24 + (row * 32 + k) - 24) % 32 = k := by omega
  rw [activationByte, if_neg (by omega), if_neg (by omega), place.1, place.2]

theorem activationByte_sum (rows : ℕ → BlockQ80 α) {row i : ℕ} (hr : row < 4) (hi : i < 2) :
    activationByte rows (16 + 2 * row + i) = int16Part (-rowSum (rows row)) i := by
  have place : (16 + 2 * row + i - 16) / 2 = row ∧ (16 + 2 * row + i - 16) % 2 = i := by omega
  rw [activationByte, if_neg (by omega), if_pos (by omega), place.1, place.2]

theorem weightByte_scale (columns : ℕ → BlockQ40 α) {column i : ℕ} (hc : column < 32) (hi : i < 2) :
    weightByte columns (2 * column + i) = .half (columns column).d i := by
  have place : (2 * column + i) / 2 = column ∧ (2 * column + i) % 2 = i := by omega
  rw [weightByte, if_pos (by omega), place.1, place.2]

theorem weightByte_quant (columns : ℕ → BlockQ40 α) {column b : ℕ} (hb : b < 16) :
    weightByte columns (64 + column * 16 + b) =
      .bits (if b < 8 then lowPair (columns column) b else highPair (columns column) (b - 8)) := by
  have place : (64 + column * 16 + b - 64) / 16 = column ∧ (64 + column * 16 + b - 64) % 16 = b := by
    omega
  rw [weightByte, if_neg (by omega), place.1, place.2]

/-- The bytes of a block that belong to row, or column, `i`. -/
def Owned (k : Buffer) (base n : ℕ) (owner : ℕ → ℕ) (i : ℕ) : Region Buffer := fun k' x =>
  k' = k ∧ ∃ o < n, owner o = i ∧ x = base + o

theorem packActivationRow_packs (rows : ℕ → BlockQ80 α) {base row : ℕ} (hr : row < 4)
    (room : base + 152 ≤ size .packedA) (fresh : ∀ o, (u .packedA o).writes = 0)
    (value : ∀ o < 152, v .packedA (base + o) = ⟨activationByte rows o, 1⟩) :
    Packs size u (packActivationRow (rows row) base row) v (Owned .packedA base 152 rowOf row) := by
  have scale : Packs size u (fun m : UpstreamMemory α =>
      m.storeFloat .packedA (base + 4 * row) (rows row).d) v _ :=
    Packs.storeParts (by omega) (fun i _ => fresh _) fun i hi => by
      rw [Nat.add_assoc, value _ (by omega), activationByte_scale rows hr hi]
  have quants : Packs size u (forUp (fun k (m : UpstreamMemory α) =>
      m.storeInt8 .packedA (base + 24 + (row * 32 + k)) ((rows row).qs k)) 0 32) v _ :=
    Packs.loop (fun k hk => Packs.storeParts (by omega) (fun i _ => fresh _) fun i hi => by
      obtain rfl : i = 0 := by omega
      rw [Nat.add_zero, Nat.add_assoc, value _ (by omega), activationByte_quant rows hk]) (by
      rintro i _ j _ k x ⟨_, o, ho, rfl⟩ ⟨_, o', ho', same⟩
      omega)
  have sum : Packs size u (fun m : UpstreamMemory α =>
      m.storeInt16 .packedA (base + 16 + 2 * row) (-rowSum (rows row))) v _ :=
    Packs.storeParts (by omega) (fun i _ => fresh _) fun i hi => by
      rw [Nat.add_assoc base, Nat.add_assoc, value _ (by omega), activationByte_sum rows hr hi]
  rw [packActivationRow_eq]
  refine ((scale.seq quants ?_).seq sum ?_).weaken ?_
  · rintro k x ⟨o, ho, rfl, i, hi, rfl⟩ ⟨_, j, hj, same⟩
    omega
  · rintro k x ⟨rfl, i, hi, rfl⟩ (⟨_, j, hj, same⟩ | ⟨o, ho, _, j, hj, same⟩) <;> omega
  · intro k x
    constructor
    · rintro ⟨rfl, o, ho, owned, rfl⟩
      rcases (rowOf_iff ho hr).mp owned with ⟨i, hi, rfl⟩ | ⟨k, hk, rfl⟩ | ⟨i, hi, rfl⟩
      · exact .inl (.inl ⟨rfl, i, hi, by omega⟩)
      · exact .inl (.inr ⟨k, hk, rfl, 0, by decide, by omega⟩)
      · exact .inr ⟨rfl, i, hi, by omega⟩
    · rintro ((⟨rfl, i, hi, rfl⟩ | ⟨k, hk, rfl, i, hi, rfl⟩) | ⟨rfl, i, hi, rfl⟩)
      · exact ⟨rfl, 4 * row + i, by omega, (rowOf_iff (by omega) hr).mpr (.inl ⟨i, hi, rfl⟩),
          by omega⟩
      · exact ⟨rfl, 24 + (row * 32 + k), by omega,
          (rowOf_iff (by omega) hr).mpr (.inr (.inl ⟨k, hk, rfl⟩)), by omega⟩
      · exact ⟨rfl, 16 + 2 * row + i, by omega,
          (rowOf_iff (by omega) hr).mpr (.inr (.inr ⟨i, hi, rfl⟩)), by omega⟩

theorem packWeightByte_packs {columns : ℕ → BlockQ40 α} {base column b : ℕ} {x : BitVec 8}
    (hc : column < 32) (hb : b < 16) (room : base + 576 ≤ size .packedB)
    (fresh : ∀ o, (u .packedB o).writes = 0)
    (value : ∀ o < 576, v .packedB (base + o) = ⟨weightByte columns o, 1⟩)
    (same : (if b < 8 then lowPair (columns column) b else highPair (columns column) (b - 8)) = x) :
    Packs size u (fun m : UpstreamMemory α => m.storeInt8 .packedB (base + 64 + column * 16 + b) x) v
      (Span .packedB (base + 64 + column * 16 + b) 1) :=
  Packs.storeParts (by omega) (fun i _ => fresh _) fun i hi => by
    obtain rfl : i = 0 := by omega
    have place : base + 64 + column * 16 + b + 0 = base + (64 + column * 16 + b) := by omega
    rw [place, value _ (by omega), weightByte_quant _ hb, same]

theorem packWeightBlock_packs {columns : ℕ → BlockQ40 α} {blocks_k block base : ℕ}
    (room : base + 576 ≤ size .packedB) (fresh : ∀ o, (u .packedB o).writes = 0)
    (value : ∀ o < 576, v .packedB (base + o) =
      ⟨weightByte (fun column => columns (column * blocks_k + block)) o, 1⟩) :
    Packs size u (packWeightBlock columns blocks_k block base) v
      (fun k x => ∃ column < 32, Owned .packedB base 576 columnOf column k x) := by
  refine Packs.loop (fun column hc => ?_) ?_
  · have scale : Packs size u (fun m : UpstreamMemory α => m.storeHalf .packedB (base + 2 * column)
        (columns (column * blocks_k + block)).d) v _ :=
      Packs.storeParts (by omega) (fun i _ => fresh _) fun i hi => by
        rw [Nat.add_assoc, value _ (by omega), weightByte_scale _ hc hi]
    have quants : Packs size u (forUp (fun pair (m : UpstreamMemory α) =>
        (m.storeInt8 .packedB (base + 64 + column * 16 + pair)
          (lowPair (columns (column * blocks_k + block)) pair)).bind fun m =>
        m.storeInt8 .packedB (base + 64 + column * 16 + (8 + pair))
          (highPair (columns (column * blocks_k + block)) pair)) 0 8) v _ :=
      Packs.loop (fun pair hp =>
        (packWeightByte_packs hc (by omega) room fresh value (if_pos hp)).seq
        (packWeightByte_packs hc (by omega) room fresh value
          (by rw [if_neg (by omega), Nat.add_sub_cancel_left])) (by
          rintro k x ⟨_, i, hi, rfl⟩ ⟨_, j, hj, same⟩
          omega)) (by
        rintro i hi j hj k x (⟨_, a, ha, rfl⟩ | ⟨_, a, ha, rfl⟩) (⟨_, b, hb, same⟩ | ⟨_, b, hb, same⟩)
          <;> omega)
    refine (scale.seq quants ?_).weaken ?_
    · rintro k x ⟨o, ho, ⟨rfl, i, hi, rfl⟩ | ⟨rfl, i, hi, rfl⟩⟩ ⟨_, j, hj, same⟩ <;> omega
    · intro k x
      constructor
      · rintro ⟨rfl, o, ho, owned, rfl⟩
        rcases (columnOf_iff ho hc).mp owned with ⟨i, hi, rfl⟩ | ⟨b, hb, rfl⟩
        · exact .inl ⟨rfl, i, hi, by omega⟩
        · rcases Nat.lt_or_ge b 8 with low | high
          · exact .inr ⟨b, low, .inl ⟨rfl, 0, Nat.one_pos, by omega⟩⟩
          · exact .inr ⟨b - 8, by omega, .inr ⟨rfl, 0, Nat.one_pos, by omega⟩⟩
      · rintro (⟨rfl, i, hi, rfl⟩ | ⟨pair, hp, ⟨rfl, i, hi, rfl⟩ | ⟨rfl, i, hi, rfl⟩⟩)
        · exact ⟨rfl, 2 * column + i, by omega, (columnOf_iff (by omega) hc).mpr (.inl ⟨i, hi, rfl⟩),
            by omega⟩
        · exact ⟨rfl, 64 + column * 16 + pair, by omega,
            (columnOf_iff (by omega) hc).mpr (.inr ⟨pair, by omega, rfl⟩), by omega⟩
        · exact ⟨rfl, 64 + column * 16 + (8 + pair), by omega,
            (columnOf_iff (by omega) hc).mpr (.inr ⟨8 + pair, by omega, rfl⟩), by omega⟩
  · rintro i _ j _ k x ⟨_, o, _, rfl, rfl⟩ ⟨_, o', _, rfl, same⟩
    rw [Nat.add_left_cancel same]

end Contents

section Prepare

variable [Field α] [LinearOrder α] [FloorRing α] {half : α → α} {request : Bench.BenchmarkRequest}
variable {input : Input α}

/-- The bytes after `prepare`; each was stored once. -/
def packed (half : α → α) (request : Bench.BenchmarkRequest) (input : Input α) :
    Contents Buffer fun _ => Byte α
  | .packedA, x => ⟨activationByte (fun row => quantizedActivation half input.activation
      (request.k / 32) (x / 152 / (request.k / 32) * 4 + row) (x / 152 % (request.k / 32))) (x % 152), 1⟩
  | .packedB, x => ⟨weightByte (fun column => input.weight
      ((x / 576 / (request.k / 32) * 32 + column) * (request.k / 32) + x / 576 % (request.k / 32)))
      (x % 576), 1⟩

theorem packed_activation {tile block o : ℕ} (hb : block < request.k / 32) (ho : o < 152) :
    packed half request input .packedA ((tile * (request.k / 32) + block) * 152 + o) =
      ⟨activationByte (fun row => quantizedActivation half input.activation (request.k / 32)
        (tile * 4 + row) block) o, 1⟩ := by
  rw [packed, Layout.row ho, Layout.column ho, Layout.row hb, Layout.column hb]

theorem packed_weight {tile block o : ℕ} (hb : block < request.k / 32) (ho : o < 576) :
    packed half request input .packedB ((tile * (request.k / 32) + block) * 576 + o) =
      ⟨weightByte (fun column => input.weight ((tile * 32 + column) * (request.k / 32) + block)) o,
        1⟩ := by
  rw [packed, Layout.row ho, Layout.column ho, Layout.row hb, Layout.column hb]

theorem size_eq (whole : request.m / 4 * 4 = request.m) :
    bufferSize request .packedA = request.m / 4 * (request.k / 32) * 152 ∧
      bufferSize request .packedB = request.n / 32 * (request.k / 32) * 576 := by
  simp only [bufferSize, rowStrideA, colStrideB, kActivationRowBytes, kWeightColumnBytes]
  constructor
  · nth_rewrite 1 [← whole]
    ring
  · ring

theorem slot_room {tile block tiles blocks n : ℕ} (ht : tile < tiles) (hb : block < blocks) :
    (tile * blocks + block) * n + n ≤ tiles * blocks * n := by
  rw [← Nat.succ_mul]
  exact Nat.mul_le_mul_right n (Layout.index_lt ht hb)

theorem slot_unique {tile tile' block block' blocks n o o' : ℕ} (hb : block < blocks)
    (hb' : block' < blocks) (ho : o < n) (ho' : o' < n)
    (same : (tile * blocks + block) * n + o = (tile' * blocks + block') * n + o') :
    tile = tile' ∧ block = block' ∧ o = o' := by
  obtain ⟨slots, places⟩ := Layout.unique ho ho' same
  obtain ⟨tiles, blocks⟩ := Layout.unique hb hb' slots
  exact ⟨tiles, blocks, places⟩

def zeros : Contents Buffer fun _ => Byte α := fun _ _ => ⟨.bits 0, 0⟩

variable (half input) in
theorem activations_pack (whole : request.m / 4 * 4 = request.m) :
    Packs (bufferSize request) zeros (forUp (fun tile => forUp (fun row => forUp (fun block =>
      packActivationRow
        (quantizedActivation half input.activation (request.k / 32) (tile * 4 + row) block)
        (tile * 4 * rowStrideA request + block * kActivationBlockBytes) row)
      0 (request.k / 32)) 0 4) 0 (request.m / 4)) (packed half request input)
      (fun k x => ∃ tile < request.m / 4, ∃ row < 4, ∃ block < request.k / 32,
        Owned .packedA ((tile * (request.k / 32) + block) * 152) 152 rowOf row k x) := by
  refine Packs.loop (fun tile ht => Packs.loop (fun row hr => Packs.loop (fun block hb => ?_) ?_) ?_) ?_
  · have place : tile * 4 * rowStrideA request + block * kActivationBlockBytes =
        (tile * (request.k / 32) + block) * 152 := by
      rw [rowStrideA, kActivationRowBytes, kActivationBlockBytes]
      ring
    rw [place]
    refine packActivationRow_packs (fun row => quantizedActivation half input.activation
      (request.k / 32) (tile * 4 + row) block) hr ?_ (fun _ => rfl) fun o ho => packed_activation hb ho
    rw [(size_eq whole).1]
    exact slot_room ht hb
  · rintro b hb b' hb' k x ⟨_, o, ho, _, rfl⟩ ⟨_, o', ho', _, same⟩
    exact (slot_unique hb hb' ho ho' same).2.1
  · rintro r hr r' hr' k x ⟨b, hb, _, o, ho, rfl, rfl⟩ ⟨b', hb', _, o', ho', rfl, same⟩
    rw [(slot_unique hb hb' ho ho' same).2.2]
  · rintro t ht t' ht' k x ⟨_, _, b, hb, _, o, ho, _, rfl⟩ ⟨_, _, b', hb', _, o', ho', _, same⟩
    exact (slot_unique hb hb' ho ho' same).1

theorem weights_pack (whole : request.m / 4 * 4 = request.m) :
    Packs (bufferSize request) zeros (forUp (fun tile => forUp (fun block =>
      packWeightBlock (fun x => input.weight (tile * 32 * (request.k / 32) + x)) (request.k / 32) block
        ((tile * (request.k / 32) + block) * kWeightBlockBytes)) 0 (request.k / 32)) 0 (request.n / 32))
      (packed half request input)
      (fun k x => ∃ tile < request.n / 32, ∃ block < request.k / 32, ∃ column < 32,
        Owned .packedB ((tile * (request.k / 32) + block) * 576) 576 columnOf column k x) := by
  refine Packs.loop (fun tile ht => Packs.loop (fun block hb => ?_) ?_) ?_
  · refine packWeightBlock_packs ?_ (fun _ => rfl) fun o ho => ?_
    · rw [(size_eq whole).2]
      exact slot_room ht hb
    · have place : ∀ column, tile * 32 * (request.k / 32) + (column * (request.k / 32) + block) =
          (tile * 32 + column) * (request.k / 32) + block := fun column => by ring
      simp only [place]
      exact packed_weight hb ho
  · rintro b hb b' hb' k x ⟨_, _, _, o, ho, _, rfl⟩ ⟨_, _, _, o', ho', _, same⟩
    exact (slot_unique hb hb' ho ho' same).2.1
  · rintro t ht t' ht' k x ⟨b, hb, _, _, _, o, ho, _, rfl⟩ ⟨b', hb', _, _, _, o', ho', _, same⟩
    exact (slot_unique hb hb' ho ho' same).1

/-- Every byte of both buffers is stored once. -/
theorem prepare_ends (whole : request.m / 4 * 4 = request.m) :
    Ends (prepare half request input) fun memory => memory.size = bufferSize request ∧
      ∀ k x, x < bufferSize request k → memory.cell k x = packed half request input k x := by
  have both := (activations_pack half input whole).seq (weights_pack whole) (by
    rintro k x ⟨_, _, _, _, _, _, rfl, _⟩ ⟨_, _, _, _, _, _, no, _⟩
    cases no)
  obtain ⟨sizeA, sizeB⟩ := size_eq whole
  refine (both ⟨bufferSize request, zeros⟩ rfl fun _ _ _ => rfl).mono fun memory ⟨change, left⟩ => ?_
  refine ⟨change.size, fun k x hx => left k x ?_⟩
  cases k with
  | packedA =>
      rw [sizeA] at hx
      obtain ⟨slot, hs, o, ho, rfl⟩ := Layout.lt_iff.mp hx
      obtain ⟨tile, ht, block, hb, rfl⟩ := Layout.lt_iff.mp hs
      refine .inl ⟨tile, ht, rowOf o, ?_, block, hb, rfl, o, ho, rfl, rfl⟩
      rw [rowOf]
      split_ifs <;> omega
  | packedB =>
      rw [sizeB] at hx
      obtain ⟨slot, hs, o, ho, rfl⟩ := Layout.lt_iff.mp hx
      obtain ⟨tile, ht, block, hb, rfl⟩ := Layout.lt_iff.mp hs
      refine .inr ⟨tile, ht, block, hb, columnOf o, ?_, rfl, o, ho, rfl, rfl⟩
      rw [columnOf]
      split_ifs <;> omega

end Prepare

section Step

theorem nibbles_of_lowPair (source : BlockQ40 α) {b : ℕ} (hb : b < 8) :
    lowPair source b &&& 0x0f = nibble source (2 * b) ∧
      (lowPair source b &&& 0xf0) >>> 4 = nibble source (2 * b + 1) := by
  rw [nibble, if_pos (by omega), nibble, if_pos (by omega), lowPair]
  generalize source.qs (2 * b) = x
  generalize source.qs (2 * b + 1) = y
  constructor
  · apply BitVec.eq_of_getLsbD_eq
    intro j hj
    interval_cases j <;> simp
  · apply BitVec.eq_of_getLsbD_eq
    intro j hj
    interval_cases j <;> simp

theorem nibbles_of_highPair (source : BlockQ40 α) {b : ℕ} :
    highPair source b &&& 0x0f = nibble source (16 + 2 * b) ∧
      (highPair source b &&& 0xf0) >>> 4 = nibble source (16 + 2 * b + 1) := by
  rw [nibble, if_neg (by omega), nibble, if_neg (by omega), highPair, Nat.add_sub_cancel_left,
    Nat.add_assoc, Nat.add_sub_cancel_left]
  generalize source.qs (2 * b) = x
  generalize source.qs (2 * b + 1) = y
  constructor
  · apply BitVec.eq_of_getLsbD_eq
    intro j hj
    interval_cases j <;> simp
  · apply BitVec.eq_of_getLsbD_eq
    intro j hj
    interval_cases j <;> simp

theorem nibble_toInt (source : BlockQ40 α) (k : ℕ) :
    (nibble source k).toInt = (nibble source k).toNat ∧ (nibble source k).toNat ≤ 15 := by
  have small := nibble_le source k
  exact ⟨BitVec.toInt_eq_toNat_of_lt (by omega), small⟩

theorem rowSum_toInt (source : BlockQ80 α) :
    (rowSum source).toInt = ∑ k ∈ range 32, (source.qs k).toInt ∧
      (-rowSum source).toInt = -∑ k ∈ range 32, (source.qs k).toInt := by
  have bound := abs_le.mp (abs_sum_le (n := 32) fun k _ => abs_toInt_le (source.qs k))
  have sum : (rowSum source).toInt = ∑ k ∈ range 32, (source.qs k).toInt := by
    rw [rowSum, toInt_foldl_add]
    simp only [BitVec.toInt_signExtend_of_le (by decide : 8 ≤ 16)]
    exact (wrap_eq_self_iff (by decide) _).mpr ⟨by omega, by omega⟩
  refine ⟨sum, ?_⟩
  rw [BitVec.toInt_neg, sum]
  exact (wrap_eq_self_iff (by decide) _).mpr ⟨by omega, by omega⟩

/-- `acc` after the zero point and `n` elements. -/
def accumulated (row : BlockQ80 α) (column : BlockQ40 α) (n : ℕ) : ℤ :=
  -(∑ k ∈ range 32, (row.qs k).toInt) * 8 +
    ∑ k ∈ range n, (row.qs k).toInt * ((nibble column k).toNat : ℤ)

theorem accumulated_fits (row : BlockQ80 α) (column : BlockQ40 α) {n : ℕ} (h : n ≤ 32) :
    Fits 32 (accumulated row column n) := by
  have zero := abs_le.mp (abs_sum_le (n := 32) fun k _ => abs_toInt_le (row.qs k))
  have term : ∀ k < n, |(row.qs k).toInt * ((nibble column k).toNat : ℤ)| ≤ 128 * 15 := by
    intro k _
    rw [abs_mul, Nat.abs_cast]
    refine mul_le_mul (abs_toInt_le _) ?_ (Int.natCast_nonneg _) (by decide)
    exact_mod_cast (nibble_toInt column k).2
  have rest := abs_le.mp (abs_sum_le term)
  have most : (n : ℤ) * (128 * 15) ≤ 32 * (128 * 15) :=
    mul_le_mul_of_nonneg_right (by exact_mod_cast h) (by decide)
  rw [accumulated]
  constructor <;> omega

theorem accumulated_all (row : BlockQ80 α) (column : BlockQ40 α) : accumulated row column 32 =
    ∑ k ∈ range 32, (((nibble column k).toNat : ℤ) - 8) * (row.qs k).toInt := by
  rw [accumulated, ← sum_neg_distrib, sum_mul, ← sum_add_distrib]
  refine sum_congr rfl fun k _ => ?_
  ring

variable [DecidableEq α] {half : α → α} {memory : UpstreamMemory α} {rows : ℕ → BlockQ80 α}
variable {columns : ℕ → BlockQ40 α} {base_a base_b quant_a_ptr quant_b_data ki mi ci : ℕ}

variable (rows columns) in
/-- The step on a packed block of rows and a packed block of columns. -/
theorem integerStep_eq (hm : mi < 4) (hc : ci < 32)
    (placeA : quant_a_ptr + ki * (kActivationRowBytes * 4) = base_a)
    (placeB : quant_b_data + ki * (kWeightColumnBytes * 32) = base_b)
    (partsA : ∀ o < 152, base_a + o < memory.size .packedA ∧
      (memory.cell .packedA (base_a + o)).value = activationByte rows o)
    (partsB : ∀ o < 576, base_b + o < memory.size .packedB ∧
      (memory.cell .packedB (base_b + o)).value = weightByte columns o) :
    integerStep half memory quant_a_ptr quant_b_data ki mi ci =
      some (∑ k ∈ range 32, (((nibble (columns ci) k).toNat : ℤ) - 8) * ((rows mi).qs k).toInt,
        half (rows mi).d, (columns ci).d) := by
  have scaleA : memory.loadFloat .packedA (base_a + 4 * mi) = some (rows mi).d := by
    refine loadFloat_eq fun i hi => ?_
    rw [Nat.add_assoc, ← activationByte_scale rows hm hi]
    exact partsA _ (by omega)
  have sum : memory.loadInt16 .packedA (base_a + (16 + 2 * mi)) = some (-rowSum (rows mi)) := by
    refine loadInt16_eq fun i hi => ?_
    rw [Nat.add_assoc, ← activationByte_sum rows hm hi]
    exact partsA _ (by omega)
  have scaleB : memory.loadHalf .packedB (base_b + 2 * ci) = some (columns ci).d := by
    refine loadHalf_eq fun i hi => ?_
    rw [Nat.add_assoc, ← weightByte_scale columns hc hi]
    exact partsB _ (by omega)
  have quant : ∀ k < 32, memory.loadInt8 .packedA (base_a + (24 + (mi * 32 + k))) =
      some ((rows mi).qs k) := by
    intro k hk
    have part := partsA (24 + (mi * 32 + k)) (by omega)
    exact loadInt8_eq part.1 (part.2.trans (activationByte_quant rows hk))
  have byte : ∀ bi < 16, ∃ b, memory.loadInt8 .packedB (base_b + (64 + ci * 16 + bi)) = some b ∧
      b &&& 0x0f = nibble (columns ci) (2 * bi) ∧
      (b &&& 0xf0) >>> 4 = nibble (columns ci) (2 * bi + 1) := by
    intro bi hb
    have part := partsB (64 + ci * 16 + bi) (by omega)
    rw [weightByte_quant columns hb] at part
    refine ⟨_, loadInt8_eq part.1 part.2, ?_⟩
    split
    · exact nibbles_of_lowPair _ ‹_›
    · obtain ⟨c, rfl⟩ : ∃ c, bi = 8 + c := ⟨bi - 8, by omega⟩
      have index : 2 * (8 + c) = 16 + 2 * c := by omega
      rw [Nat.add_sub_cancel_left, index]
      exact nibbles_of_highPair _
  have pair : ∀ bi < 16, ∀ acc, acc = accumulated (rows mi) (columns ci) (2 * bi) →
      Ends ((memory.loadInt8 .packedA (base_a + 24 + (mi * 32 + 2 * bi))).bind fun a0 =>
        (memory.loadInt8 .packedA (base_a + 24 + (mi * 32 + (2 * bi + 1)))).bind fun a1 =>
        (memory.loadInt8 .packedB (base_b + 64 + (ci * 16 + bi))).bind fun b =>
        int32 (acc + (a0.toInt * (b &&& 0x0f).toInt + a1.toInt * ((b &&& 0xf0) >>> 4).toInt)))
        (· = accumulated (rows mi) (columns ci) (2 * (bi + 1))) := by
    rintro bi hb acc rfl
    obtain ⟨b, load, low, high⟩ := byte bi hb
    have next : accumulated (rows mi) (columns ci) (2 * bi) +
        (((rows mi).qs (2 * bi)).toInt * (b &&& 0x0f).toInt +
          ((rows mi).qs (2 * bi + 1)).toInt * ((b &&& 0xf0) >>> 4).toInt) =
        accumulated (rows mi) (columns ci) (2 * (bi + 1)) := by
      rw [low, high, (nibble_toInt _ _).1, (nibble_toInt _ _).1, accumulated, accumulated, Nat.mul_succ,
        sum_range_succ _ (2 * bi + 1), sum_range_succ _ (2 * bi), add_assoc, add_assoc]
    have address : base_b + 64 + (ci * 16 + bi) = base_b + (64 + ci * 16 + bi) := by omega
    rw [Nat.add_assoc base_a, Nat.add_assoc base_a, quant _ (by omega), quant _ (by omega), address, load]
    simp only [Option.bind_some]
    rw [next, int32, if_pos (accumulated_fits _ _ (by omega))]
    exact .some rfl
  have dot : Ends (forUp (fun bi acc =>
      (memory.loadInt8 .packedA (base_a + 24 + (mi * 32 + 2 * bi))).bind fun a0 =>
      (memory.loadInt8 .packedA (base_a + 24 + (mi * 32 + (2 * bi + 1)))).bind fun a1 =>
      (memory.loadInt8 .packedB (base_b + 64 + (ci * 16 + bi))).bind fun b =>
      int32 (acc + (a0.toInt * (b &&& 0x0f).toInt + a1.toInt * ((b &&& 0xf0) >>> 4).toInt))) 0 16
      (accumulated (rows mi) (columns ci) 0)) (· = accumulated (rows mi) (columns ci) (2 * 16)) :=
    loop_ends (fun bi acc => acc = accumulated (rows mi) (columns ci) (2 * bi)) rfl
      fun bi hb acc same => pair bi hb acc same
  obtain ⟨_, run, rfl⟩ := dot
  have first : (-rowSum (rows mi)).toInt * 8 = accumulated (rows mi) (columns ci) 0 := by
    rw [(rowSum_toInt _).2, accumulated, sum_range_zero, add_zero]
  have a_data : quant_a_ptr + 24 + ki * (kActivationRowBytes * 4) = base_a + 24 := by
    rw [← placeA, Nat.add_right_comm]
  have b_data : quant_b_data + 64 + ki * (kWeightColumnBytes * 32) = base_b + 64 := by
    rw [← placeB, Nat.add_right_comm]
  have sums : base_a + 24 - 8 + 2 * mi = base_a + (16 + 2 * mi) := by omega
  rw [integerStep, a_data, b_data, Nat.add_sub_cancel, Nat.add_sub_cancel, sums, scaleA, sum, scaleB]
  simp only [Option.bind_some]
  rw [first, int32, if_pos (accumulated_fits _ _ (by decide)), Option.bind_some, run, Option.map_some,
    accumulated_all]

end Step

section Lossless

variable [Field α] [LinearOrder α] [FloorRing α] {half : α → α} {request : Bench.BenchmarkRequest}

/-- The packed buffers hold what the layout describes: every byte is stored once, no int16 sum
overflows, and the integer step gives the centred sum of a block with both scales. -/
theorem packing_lossless (fixed : ∀ x, half (half x) = half x)
    (supported : (validateShape 4 32 32 request).supported = true) (input : Input α) :
    Ends (prepare half request input) fun memory =>
      (∀ k x, x < memory.size k → (memory.cell k x).writes = 1) ∧
      ∀ row_tile < request.m / 4, ∀ column_tile < request.n / 32, ∀ mi < 4, ∀ ci < 32,
        ∀ ki < request.k / 32,
        let row := quantizedActivation half input.activation (request.k / 32) (row_tile * 4 + mi) ki
        let column := input.weight ((column_tile * 32 + ci) * (request.k / 32) + ki)
        tileStep half request memory row_tile column_tile ki mi ci =
            some (∑ k ∈ range 32, (((nibble column k).toNat : ℤ) - 8) * (row.qs k).toInt, row.d,
              column.d) ∧
          (∀ n ≤ 32, Fits 16 (∑ k ∈ range n, (row.qs k).toInt)) ∧
          Fits 16 (-∑ k ∈ range 32, (row.qs k).toInt) := by
  obtain ⟨_, wholeM, _, _⟩ := validateShape_supported supported
  refine (prepare_ends wholeM).mono fun memory ⟨size, cells⟩ => ⟨fun k x hx => ?_, ?_⟩
  · rw [size] at hx
    rw [cells k x hx]
    cases k <;> rfl
  · intro row_tile hr column_tile hc mi hm ci hci ki hk
    dsimp only
    refine ⟨?_, fun n hn => ?_, ?_⟩
    · have placeA : row_tile * 4 * rowStrideA request + ki * (kActivationRowBytes * 4) =
          (row_tile * (request.k / 32) + ki) * 152 := by
        rw [rowStrideA, kActivationRowBytes]
        ring
      have placeB : column_tile * 32 * colStrideB request + ki * (kWeightColumnBytes * 32) =
          (column_tile * (request.k / 32) + ki) * 576 := by
        rw [colStrideB, kWeightColumnBytes]
        ring
      have roomA := slot_room (n := 152) hr hk
      have roomB := slot_room (n := 576) hc hk
      rw [← (size_eq wholeM).1] at roomA
      rw [← (size_eq wholeM).2] at roomB
      refine (integerStep_eq (fun row => quantizedActivation half input.activation
        (request.k / 32) (row_tile * 4 + row) ki) (fun column =>
        input.weight ((column_tile * 32 + column) * (request.k / 32) + ki)) hm hci placeA placeB
        (fun o ho => ?_) fun o ho => ?_).trans ?_
      · have inside := (Nat.add_lt_add_left ho _).trans_le roomA
        rw [size, cells _ _ inside, packed_activation hk ho]
        exact ⟨inside, rfl⟩
      · have inside := (Nat.add_lt_add_left ho _).trans_le roomB
        rw [size, cells _ _ inside, packed_weight hk ho]
        exact ⟨inside, rfl⟩
      · exact congrArg (fun d => some (_, d, _)) (fixed _)
    · have bound := abs_sum_le (n := n) fun k _ => abs_toInt_le
        ((quantizedActivation half input.activation (request.k / 32) (row_tile * 4 + mi) ki).qs k)
      have most : (n : ℤ) * 128 ≤ 32 * 128 := mul_le_mul_of_nonneg_right (by exact_mod_cast hn) (by decide)
      exact fits_of_abs_lt (bound.trans_lt (by omega))
    · have bound := abs_sum_le (n := 32) fun k _ => abs_toInt_le
        ((quantizedActivation half input.activation (request.k / 32) (row_tile * 4 + mi) ki).qs k)
      rw [← abs_neg] at bound
      exact fits_of_abs_lt (bound.trans_lt (by decide))

end Lossless

def sampleRequest : Bench.BenchmarkRequest := ⟨4, 32, 64, 0, 1, 1, 1, 0, 0, true, []⟩

def sampleInput : Input ℚ := ⟨fun i => (i % 64 : ℕ) - 31, fun x => ⟨x, fun _ => 0x9b⟩⟩

/-- Row 3 and column 31 of the second block. -/
theorem sample_packing : Ends (prepare id sampleRequest sampleInput) fun memory =>
    (∀ k x, x < memory.size k → (memory.cell k x).writes = 1) ∧
    tileStep id sampleRequest memory 0 0 1 3 31 =
      some (∑ k ∈ range 32, (((nibble (sampleInput.weight 63) k).toNat : ℤ) - 8) *
          ((quantizedActivation id sampleInput.activation 2 3 1).qs k).toInt,
        (quantizedActivation id sampleInput.activation 2 3 1).d, 63) := by
  refine (packing_lossless (fun _ => rfl) (by decide) sampleInput).mono fun memory h => ⟨h.1, ?_⟩
  exact (h.2 0 (by decide) 0 (by decide) 3 (by decide) 31 (by decide) 1 (by decide)).1

end Pfng.Q40.Upstream
