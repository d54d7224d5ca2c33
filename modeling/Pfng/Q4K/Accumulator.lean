import Pfng.Lib.Words
import Pfng.Q4K.Packing

/-! The int16 accumulators of both Q4_K kernels as functions of the quantised input. -/
namespace Pfng.Q4K
open Checked Register Rvv Layout

variable {α : Type}

theorem nibble_lt : ∀ b : BitVec 8, (b &&& 0x0f).toNat < 16 ∧ (b >>> 4).toNat < 16 := by decide

theorem q4Value_lt (block : BlockQ4K α) (index : ℕ) : (q4Value block index).toNat < 16 := by
  simp only [q4Value]
  split
  · exact (nibble_lt _).1
  · exact (nibble_lt _).2

theorem nibbles_of_pack {low high : BitVec 8} (hl : low.toNat < 16) (hh : high.toNat < 16) :
    lowNibble (low ||| high <<< 4) = low ∧ highNibble (low ||| high <<< 4) = high :=
  ⟨Words.fields_and_mask (s := 4) hl, Words.fields_ushiftRight hl hh⟩

namespace Problem

def blockW (p : Problem α) (column block : ℕ) : BlockQ4K α := p.weight (column * p.blocks + block)

def blockA (p : Problem α) (row block : ℕ) : BlockQ8K α := p.activation (row * p.blocks + block)

/-- The unsigned nibble of element `k` of a sub-block. -/
def nibble (p : Problem α) (column block i_qsk k : ℕ) : ℕ :=
  (q4Value (p.blockW column block) (i_qsk * 32 + k)).toNat

def product (p : Problem α) (row column block i_qsk k : ℕ) : ℤ :=
  p.nibble column block i_qsk k * ((p.blockA row block).qs (i_qsk * 32 + k)).toInt

def withActivation (p : Problem α) (activation : ℕ → BlockQ8K α) : Problem α :=
  { p with activation := activation }

end Problem

theorem toInt_nibble {b : BitVec 8} (h : b.toNat < 16) : b.toInt = b.toNat := by
  rw [BitVec.toInt_eq_toNat_of_lt]
  omega

section Run

variable {activation : ℕ → BlockQ8K α} {entry : ℕ → ℕ → ℕ → BitVec 8} {size : Buffer → ℕ}
variable {mr tiles tilesN blocks : ℕ} {memory : Bytes} {pack : Bytes → Option Bytes}

/-- What the kernels load after both packing loops. -/
structure Ready (mr : ℕ) (activation : ℕ → BlockQ8K α) (entry : ℕ → ℕ → ℕ → BitVec 8)
    (tiles tilesN blocks : ℕ) (memory : Bytes) : Prop where
  quant : ∀ tile < tiles, ∀ b < blocks, ∀ x < mr, ∀ i < 256,
    memory.load .activationQs ((tile * blocks + b) * (256 * mr) + (i * mr + x)) =
      some ((activation ((tile * mr + x) * blocks + b)).qs i)
  bytes : ∀ tile < tilesN, ∀ b < blocks, ∀ position < 128, ∃ r,
    memory.loadLanes .weightQs ((tile * blocks + b) * 4096 + position * 32) 32 = some r ∧
      ∀ lane < 32, r lane = entry (tile * blocks + b) position lane

theorem packed_run (sizes : memory.size = size)
    (sizeA : size .activationQs = tiles * blocks * (256 * mr))
    (sizeW : size .weightQs = tilesN * blocks * 4096)
    (writes : ∃ S : Region Buffer, Writes size pack (packed mr activation blocks entry) S ∧
      ∀ tile b position x, tile < tilesN → b < blocks → position < 128 → x < 32 →
        S .weightQs ((tile * blocks + b) * 4096 + (position * 32 + x))) :
    Ends ((pack memory).bind (packActivation mr activation tiles blocks))
      (Ready mr activation entry tiles tilesN blocks) := by
  obtain ⟨S, packW, cellsW⟩ := writes
  obtain ⟨T, packA, apart, cellsA⟩ := packActivation_writes entry sizeA
  refine (packW memory sizes fun _ _ no => no.elim).bind fun m ⟨change, left⟩ => ?_
  have sizes₁ := change.size.trans sizes
  refine (packA m sizes₁ fun _ _ no => no.elim).mono fun m' ⟨change', left'⟩ => ?_
  have sizes₂ := change'.size.trans sizes₁
  constructor
  · intro tile ht b hb x hx i hi
    have bound : (tile * blocks + b) * (256 * mr) + (i * mr + x) < size .activationQs := by
      rw [sizeA]
      exact index_lt (index_lt ht hb) (index_lt hi hx)
    rw [load_eq left' sizes₂ bound (cellsA tile b x i ht hb hx hi), packed_activationQs hb hx hi]
  · intro tile ht b hb position hp
    have kept : Holds (packed mr activation blocks entry) (fun k x => S k x ∧ ¬ T k x) m' :=
      fun k x h => by rw [change'.frame k x h.2, left k x h.1]
    have bound : (tile * blocks + b) * 4096 + position * 32 + 32 ≤ size .weightQs := by
      have slot : tile * blocks + b < tilesN * blocks := index_lt ht hb
      rw [sizeW]
      omega
    obtain ⟨r, hr, lanes⟩ := loadLanes_eq kept sizes₂ bound fun lane hl => ⟨by
      rw [Nat.add_assoc]
      exact cellsW tile b position lane ht hb hp hl, apart _⟩
    refine ⟨r, hr, fun lane hl => ?_⟩
    rw [lanes lane hl, Nat.add_assoc, packed_weightQs hp hl]

/-- Even rounds take the low nibble of a byte, odd rounds its high nibble. -/
theorem myOperands_loads {weight : ℕ → BlockQ4K α}
    (ready : Ready 12 activation (myEntry weight blocks) tiles tilesN blocks memory)
    {tile tileN b i_qsk x : ℕ} (ht : tile < tiles) (hn : tileN < tilesN) (hb : b < blocks)
    (hq : i_qsk < 8) (hx : x < 12) :
    Loads (myOperands memory (tile * blocks + b) (tileN * blocks + b) i_qsk x)
      (fun k lane => q4Value (weight ((tileN * 32 + lane) * blocks + b)) (i_qsk * 32 + k))
      (fun k => (activation ((tile * 12 + x) * blocks + b)).qs (i_qsk * 32 + k)) 32 32 := by
  intro k hk
  obtain ⟨r, hr, lanes⟩ := ready.bytes tileN hn b hb (i_qsk * 16 + k / 2) (by omega)
  have quant := ready.quant tile ht b hb x hx (i_qsk * 32 + k) (by omega)
  rw [show 256 * 12 = 3072 from rfl] at quant
  refine ⟨_, by rw [myOperands, hr, Option.bind_some, quant]; rfl, fun lane hl => ?_⟩
  obtain ⟨low, high⟩ := nibbles_of_pack
    (q4Value_lt (source weight blocks (tileN * blocks + b) lane) ((i_qsk * 16 + k / 2) * 2))
    (q4Value_lt (source weight blocks (tileN * blocks + b) lane) ((i_qsk * 16 + k / 2) * 2 + 1))
  dsimp only
  rw [lanes lane hl, myEntry, low, high, source_slot weight hb]
  split
  · congr 1
    omega
  · congr 1
    omega

theorem group_address (base q k x : ℕ) : base * 1024 + ((q * 32 + k) * 4 + x) =
    base * 1024 + (q / 2 * 256 + k * 4 + (if q % 2 == 1 then 128 else 0) + x) := by
  rcases Nat.mod_two_eq_zero_or_one q with even | odd
  · simp only [even, Nat.reduceBEq, Bool.false_eq_true, if_false]
    omega
  · simp only [odd, beq_self_eq_true, if_true]
    omega

/-- The low nibbles hold the even sub-block of a pair, the high nibbles the odd one. -/
theorem groupOperands_loads {weight : ℕ → BlockQ4K α}
    (ready : Ready 4 activation (groupEntry weight blocks) tiles tilesN blocks memory)
    {tile tileN b i_qsk x : ℕ} (ht : tile < tiles) (hn : tileN < tilesN) (hb : b < blocks)
    (hq : i_qsk < 8) (hx : x < 4) :
    Loads (groupOperands memory (tile * blocks + b) (tileN * blocks + b) (i_qsk / 2)
        (i_qsk % 2 == 1) x)
      (fun k lane => q4Value (weight ((tileN * 32 + lane) * blocks + b)) (i_qsk * 32 + k))
      (fun k => (activation ((tile * 4 + x) * blocks + b)).qs (i_qsk * 32 + k)) 32 32 := by
  intro k hk
  obtain ⟨r, hr, lanes⟩ := ready.bytes tileN hn b hb (i_qsk / 2 * 32 + k) (by omega)
  have quant := ready.quant tile ht b hb x hx (i_qsk * 32 + k) (by omega)
  rw [show 256 * 4 = 1024 from rfl] at quant
  have bytesAt : (tileN * blocks + b) * 4096 + (i_qsk / 2 * 32 + k) * 32 =
      (tileN * blocks + b) * 4096 + (i_qsk / 2 * 1024 + k * 32) := by omega
  rw [bytesAt] at hr
  rw [group_address] at quant
  refine ⟨_, by rw [groupOperands, hr, Option.bind_some, quant]; rfl, fun lane hl => ?_⟩
  obtain ⟨low, high⟩ := nibbles_of_pack
    (q4Value_lt (source weight blocks (tileN * blocks + b) lane) (i_qsk / 2 * 2 * 32 + k))
    (q4Value_lt (source weight blocks (tileN * blocks + b) lane) ((i_qsk / 2 * 2 + 1) * 32 + k))
  dsimp only
  rw [lanes lane hl, groupEntry, Layout.row hk, column hk, low, high, source_slot weight hb]
  rcases Nat.mod_two_eq_zero_or_one i_qsk with even | odd
  · simp only [even, Nat.reduceBEq, Bool.false_eq_true, if_false]
    congr 1
    omega
  · simp only [odd, beq_self_eq_true, if_true]
    congr 1
    omega

end Run

variable {p : Problem α} {row column block i_qsk i_k : ℕ} {memory : Bytes}

theorem toInt_nibble_mul (p : Problem α) (row column block i_qsk k : ℕ) :
    (q4Value (p.blockW column block) (i_qsk * 32 + k)).toInt *
      ((p.blockA row block).qs (i_qsk * 32 + k)).toInt = p.product row column block i_qsk k := by
  rw [toInt_nibble (q4Value_lt _ _)]
  rfl

theorem myAccumulator_eq (sizes : memory.size = bufferSize 12 p) (hr : row < p.tilesM * 12)
    (hc : column < p.tilesN * 32) (hb : block < p.blocks) (hq : i_qsk < 8) (hk : i_k < 32) :
    myAccumulator p row column block i_qsk i_k memory =
      some (accumulate 16 (p.product row column block i_qsk) (i_k + 1)) := by
  obtain ⟨m, run, ready⟩ := packed_run sizes rfl rfl (packMy_writes p.activation p.weight rfl)
  have loads := myOperands_loads ready (show row / 12 < p.tilesM by omega)
    (show column / 32 < p.tilesN by omega) hb hq (Nat.mod_lt row (show 0 < 12 by decide))
  obtain ⟨sum, done, lanes⟩ := mulRounds_eq loads hk
  rw [myAccumulator, ← Option.bind_assoc, run, Option.bind_some, sumSubblock, done, Option.map_some,
    lanes _ (Nat.mod_lt column (by decide))]
  simp only [Nat.div_add_mod']
  exact congrArg (fun term => some (accumulate 16 term (i_k + 1)))
    (funext (toInt_nibble_mul p row column block i_qsk))

theorem groupAccumulator_eq (sizes : memory.size = bufferSize 4 p) (hr : row < p.tilesM * 4)
    (hc : column < p.tilesN * 32) (hb : block < p.blocks) (hq : i_qsk < 8) (hk : i_k < 32) :
    groupAccumulator p row column block i_qsk i_k memory =
      some (accumulate 16 (p.product row column block i_qsk) (i_k + 1)) := by
  obtain ⟨m, run, ready⟩ := packed_run sizes rfl rfl (packGroup_writes p.activation p.weight rfl)
  have loads := groupOperands_loads ready (show row / 4 < p.tilesM by omega)
    (show column / 32 < p.tilesN by omega) hb hq (Nat.mod_lt row (show 0 < 4 by decide))
  obtain ⟨sum, done, lanes⟩ := macRounds_eq loads hk
  rw [groupAccumulator, ← Option.bind_assoc, run, Option.bind_some, suml, done, Option.map_some,
    lanes _ (Nat.mod_lt column (by decide))]
  simp only [Nat.div_add_mod']
  exact congrArg (fun term => some (accumulate 16 term (i_k + 1)))
    (funext (toInt_nibble_mul p row column block i_qsk))

end Pfng.Q4K
