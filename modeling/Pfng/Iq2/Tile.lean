import Pfng.Iq2.Accumulator
import Pfng.Iq2.Gemm
import Pfng.Lib.Rows

/-! What either kernel makes of one block of a tile: the same int32 sums, added to the same float
sums. -/
namespace Pfng.Iq2
open Checked Register Rvv

variable {α : Type}

namespace Problem

def subSum (p : Problem α) (row column block i_qsk : ℕ) : ℤ :=
  accumulate 16 (p.product row column block i_qsk) 32

def scale (p : Problem α) (column block i_qsk : ℕ) : ℤ :=
  decompressScale fun j => (p.blockW column block).qs (i_qsk * 8 + j)

/-- The int32 sum of a block after its first `n` sub-blocks. -/
def blockSum (p : Problem α) (row column block n : ℕ) : ℤ :=
  accumulate 32 (fun i_qsk => p.subSum row column block i_qsk * p.scale column block i_qsk) n

def factor (ops : FloatOps α α) (p : Problem α) (row column block : ℕ) : α :=
  ops.mul (ops.widen (p.blockW column block).d) (p.blockA row block).d

/-- `sum` after round `i_qk` of a chunk that begins at block `start`. -/
def panelSum (ops : FloatOps α α) (p : Problem α) (row column start : ℕ) : ℕ → α
  | 0 => ops.mul (ops.ofInt (p.blockSum row column start 8)) (p.factor ops row column start)
  | i_qk+1 => ops.fma (panelSum ops p row column start i_qk)
      (ops.ofInt (p.blockSum row column (start + (i_qk + 1)) 8))
      (p.factor ops row column (start + (i_qk + 1)))

end Problem

/-- The arrays, cell by cell. -/
def locals (subs sums : ℕ → ℤ) (floats : ℕ → α) (output : ℕ → Option α) :
    Contents Scratch (ScratchCell α)
  | .sumSubblock, x => some (subs x)
  | .sumBlock, x => some (sums x)
  | .sum, x => some (floats x)
  | .output, x => output x

/-- What the kernels find of one block in the packed memory. -/
structure HoldsBlock (ops : FloatOps α α) (p : Problem α) (widen : α → α) (i_mr i_nr block : ℕ)
    (packed : PackedMemory α) (blockA slot : ℕ) : Prop where
  sums : ∀ i_qsk < 8, ∀ i < 12, Ends (sumSubblock packed blockA slot i_qsk i 31) fun s =>
    ∀ lane < 32, s lane = p.subSum (i_mr * 12 + i) (i_nr * 32 + lane) block i_qsk
  scales : ∀ i_qsk < 8, Ends (loadScale packed slot i_qsk) fun w =>
    ∀ lane < 32, w lane = p.scale (i_nr * 32 + lane) block i_qsk
  scaleA : ∀ i < 12, packed.load .activationD (blockA * 12 + i) =
    some (p.blockA (i_mr * 12 + i) block).d
  scaleW : Ends (packed.loadLanes .weightD (slot * 32) 32) fun w =>
    ∀ lane < 32, widen (w lane) = ops.widen (p.blockW (i_nr * 32 + lane) block).d

section Block

variable {ops : FloatOps α α} {p : Problem α} {widen : α → α}
variable {packed : PackedMemory α} {i_mr i_nr block blockA slot : ℕ}
variable {subs : ℕ → ℤ} {floats : ℕ → α} {output : ℕ → Option α}

/-- The sums of a tile after `n` sub-blocks, row by row. -/
def tileSums (p : Problem α) (i_mr i_nr block n x : ℕ) : ℤ :=
  p.blockSum (i_mr * 12 + x / 32) (i_nr * 32 + x % 32) block n

/-- The float sums of a tile after round `i_qk`. -/
def tileFloats (ops : FloatOps α α) (p : Problem α) (i_mr i_nr start i_qk x : ℕ) : α :=
  p.panelSum ops (i_mr * 12 + x / 32) (i_nr * 32 + x % 32) start i_qk

theorem tileSums_row {n i lane : ℕ} (hl : lane < 32) :
    tileSums p i_mr i_nr block n (i * 32 + lane) =
      p.blockSum (i_mr * 12 + i) (i_nr * 32 + lane) block n := by
  rw [tileSums, Layout.row hl, Layout.column hl]

theorem tileFloats_row {start i_qk i lane : ℕ} (hl : lane < 32) :
    tileFloats ops p i_mr i_nr start i_qk (i * 32 + lane) =
      p.panelSum ops (i_mr * 12 + i) (i_nr * 32 + lane) start i_qk := by
  rw [tileFloats, Layout.row hl, Layout.column hl]

theorem row_bound {i lane rows : ℕ} (hi : i < rows) (hl : lane < 32) : i * 32 + lane < rows * 32 :=
  Layout.index_lt hi hl

variable (subs) in
theorem storeSums {n i : ℕ} {row : ℕ → ℤ} (hi : i < 12)
    (values : ∀ lane < 32, row lane = p.blockSum (i_mr * 12 + i) (i_nr * 32 + lane) block n) :
    Writes (scratchSize p)
      (fun m : ScratchMemory α => m.storeLanes .sumBlock (i * 32) 32 fun lane => some (row lane))
      (locals subs (tileSums p i_mr i_nr block n) floats output) (RowCells 32 .sumBlock i) :=
  Writes.storeLanes (fun lane hl => row_bound hi hl) fun lane hl => by
    rw [values lane hl]
    exact congrArg some (tileSums_row hl).symm

theorem irSubblock_effect {i_qsk : ℕ} (hq : i_qsk < 8)
    (holds : HoldsBlock ops p widen i_mr i_nr block packed blockA slot) :
    Effect (scratchSize p) (locals subs (tileSums p i_mr i_nr block i_qsk) floats output)
      (fun k x => 0 < i_qsk ∧ ArrayCells 32 .sumBlock 12 k x) (irSubblock packed blockA slot i_qsk)
      (locals subs (tileSums p i_mr i_nr block (i_qsk + 1)) floats output) (ArrayCells 32 .sumBlock 12)
      (ArrayCells 32 .sumBlock 12) := by
  refine Effect.array (A := fun i k x => 0 < i_qsk ∧ RowCells 32 .sumBlock i k x) ?_ ?_ ?_
  · intro i hi m sizes before
    refine (holds.sums i_qsk hq i hi).bind fun sum_subblock summed => ?_
    refine (holds.scales i_qsk hq).bind fun w_scale scales => ?_
    have row : Ends (if i_qsk = 0 then some (vwmulVV sum_subblock w_scale)
        else (m.fetchLanes .sumBlock id (i * 32) 32).map fun sum_block_row =>
          vwmaccVV sum_block_row sum_subblock w_scale) fun sum_block_row => ∀ lane < 32,
        sum_block_row lane = p.blockSum (i_mr * 12 + i) (i_nr * 32 + lane) block (i_qsk + 1) := by
      cases i_qsk with
      | zero =>
          refine .some ?_
          intro lane hl
          rw [vwmulVV, summed lane hl, scales lane hl, Problem.blockSum, accumulate, accumulate,
            Int.zero_add]
      | succ i_qsk =>
          have loaded : Ends (m.fetchLanes .sumBlock id (i * 32) 32) fun r => ∀ lane < 32,
              r lane = p.blockSum (i_mr * 12 + i) (i_nr * 32 + lane) block (i_qsk + 1) :=
            before.fetchLanes sizes (fun lane hl => row_bound hi hl) fun lane hl =>
              ⟨⟨Nat.succ_pos _, rfl, lane, hl, rfl⟩, congrArg some (tileSums_row hl)⟩
          refine loaded.map fun sum_block_row sums => ?_
          intro lane hl
          rw [vwmaccVV, summed lane hl, scales lane hl, sums lane hl]
          rfl
    refine row.bind fun sum_block_row values => ?_
    exact storeSums subs hi values m sizes fun _ _ no => no.elim
  · rintro i j lt _ k x ⟨_, cell⟩
    exact rowCells_apart (Nat.ne_of_gt lt) cell
  · rintro i hi k x ⟨later, cell⟩
    exact ⟨later, arrayCells_iff.mpr ⟨i, hi, cell⟩⟩

def tileSubs (p : Problem α) (i_mr i_nr block x : ℕ) : ℤ :=
  p.subSum (i_mr * 12 + x / 32 / 8) (i_nr * 32 + x % 32) block (x / 32 % 8)

theorem saveSubblock_effect {i_qsk : ℕ} (hq : i_qsk < 8) {sums : ℕ → ℤ}
    (holds : HoldsBlock ops p widen i_mr i_nr block packed blockA slot) :
    Effect (scratchSize p) (locals (tileSubs p i_mr i_nr block) sums floats output)
      (fun _ _ => False) (saveSubblock packed blockA slot i_qsk)
      (locals (tileSubs p i_mr i_nr block) sums floats output)
      (fun k x => ∃ i < 12, RowCells 32 .sumSubblock (i * 8 + i_qsk) k x)
      (fun k x => ∃ i < 12, RowCells 32 .sumSubblock (i * 8 + i_qsk) k x) := by
  have rows : Effect (scratchSize p) (locals (tileSubs p i_mr i_nr block) sums floats output)
      (fun _ _ => ∃ i < 12, False) (saveSubblock packed blockA slot i_qsk)
      (locals (tileSubs p i_mr i_nr block) sums floats output)
      (fun k x => ∃ i < 12, RowCells 32 .sumSubblock (i * 8 + i_qsk) k x)
      fun k x => ∃ i < 12, RowCells 32 .sumSubblock (i * 8 + i_qsk) k x :=
    Effect.rows (fun i => i * 8 + i_qsk) (fun i j lt _ => by omega) ?_ fun _ _ _ _ _ _ no => no.elim
  · refine rows.weaken ?_ (fun _ _ cell => .inl ⟨cell, rfl⟩) fun _ _ cell => cell
    rintro k x ⟨_, _, no⟩
    exact no.elim
  · intro i hi
    refine Effect.read (fun _ _ _ => holds.sums i_qsk hq i hi) fun sum_subblock summed => ?_
    refine Fills.storeLanes (fun lane hl => row_bound (by omega : i * 8 + i_qsk < 12 * 8) hl)
      fun lane hl => ?_
    rw [summed lane hl]
    change some _ = some _
    rw [tileSubs, Layout.row hl, Layout.column hl, Layout.row hq, Layout.column hq]

/-- The batch-reduce kernel adds up what it saved before. -/
theorem reduceSubblocks_effect (sums : ℕ → ℤ)
    (holds : HoldsBlock ops p widen i_mr i_nr block packed blockA slot) :
    Effect (scratchSize p) (locals (tileSubs p i_mr i_nr block) sums floats output)
      (ArrayCells 32 .sumSubblock (12 * 8)) (reduceSubblocks packed slot)
      (locals (tileSubs p i_mr i_nr block) (tileSums p i_mr i_nr block 8) floats output)
      (ArrayCells 32 .sumBlock 12) (ArrayCells 32 .sumBlock 12) := by
  refine Effect.array (A := fun _ => ArrayCells 32 .sumSubblock (12 * 8)) ?_ ?_ fun _ _ _ _ cell => cell
  · intro i hi m sizes before
    have row : Ends (forUp (fun i_qsk sum_block_row =>
        (loadScale packed slot i_qsk).bind fun w_scale =>
        (m.fetchLanes .sumSubblock id ((i * 8 + i_qsk) * 32) 32).map fun sum_subblock_row =>
        if i_qsk = 0 then vwmulVV sum_subblock_row w_scale
        else vwmaccVV sum_block_row sum_subblock_row w_scale) 0 8 fun _ => (0 : ℤ))
        fun sum_block_row : ℕ → ℤ => ∀ lane < 32,
          sum_block_row lane = p.blockSum (i_mr * 12 + i) (i_nr * 32 + lane) block 8 := by
      refine loop_ends (fun i_qsk (sum_block_row : ℕ → ℤ) => ∀ lane < 32,
        sum_block_row lane = p.blockSum (i_mr * 12 + i) (i_nr * 32 + lane) block i_qsk)
        (fun lane _ => rfl) fun i_qsk hq sum_block_row known => ?_
      have place : i * 8 + i_qsk < 12 * 8 := Layout.index_lt hi hq
      have saved : Ends (m.fetchLanes .sumSubblock id ((i * 8 + i_qsk) * 32) 32) fun r =>
          ∀ lane < 32, r lane = p.subSum (i_mr * 12 + i) (i_nr * 32 + lane) block i_qsk :=
        before.fetchLanes sizes (fun lane hl => row_bound place hl) fun lane hl => by
          refine ⟨⟨rfl, row_bound place hl⟩, ?_⟩
          change some _ = some _
          rw [tileSubs, Layout.row hl, Layout.column hl, Layout.row hq, Layout.column hq]
      refine (holds.scales i_qsk hq).bind fun w_scale scales => ?_
      refine saved.map fun sum_subblock_row summed => ?_
      intro lane hl
      split
      · next first =>
          subst first
          rw [vwmulVV, summed lane hl, scales lane hl, Problem.blockSum, accumulate, accumulate,
            Int.zero_add]
      · rw [vwmaccVV, summed lane hl, scales lane hl, known lane hl]
        rfl
    refine row.bind fun sum_block_row values => ?_
    exact storeSums (tileSubs p i_mr i_nr block) hi values m sizes fun _ _ no => no.elim
  · rintro i j _ _ k x ⟨rfl, _⟩ ⟨no, _⟩
    cases no

variable [Inhabited α]

theorem addBlock_effect {start i_qk : ℕ}
    (holds : HoldsBlock ops p widen i_mr i_nr (start + i_qk) packed blockA slot) :
    Effect (scratchSize p)
      (locals subs (tileSums p i_mr i_nr (start + i_qk) 8)
        (tileFloats ops p i_mr i_nr start (i_qk - 1)) output)
      (fun k x => ArrayCells 32 .sumBlock 12 k x ∨ 0 < i_qk ∧ ArrayCells 32 .sum 12 k x)
      (addBlock ops packed blockA slot widen i_qk)
      (locals subs (tileSums p i_mr i_nr (start + i_qk) 8) (tileFloats ops p i_mr i_nr start i_qk)
        output) (ArrayCells 32 .sum 12) (ArrayCells 32 .sum 12) := by
  refine Effect.read (fun _ _ _ => holds.scaleW) fun w_d known => ?_
  refine Effect.array (A := fun i k x => RowCells 32 .sumBlock i k x ∨ 0 < i_qk ∧ RowCells 32 .sum i k x)
    ?_ ?_ ?_
  · intro i hi m sizes before
    have value : ∀ lane < 32, widen (w_d lane) =
        ops.widen (p.blockW (i_nr * 32 + lane) (start + i_qk)).d := known
    dsimp only
    rw [holds.scaleA i hi, Option.bind_some]
    have sums : Ends (m.fetchLanes .sumBlock id (i * 32) 32) fun r => ∀ lane < 32,
        r lane = p.blockSum (i_mr * 12 + i) (i_nr * 32 + lane) (start + i_qk) 8 :=
      before.fetchLanes sizes (fun lane hl => row_bound hi hl) fun lane hl =>
        ⟨.inl ⟨rfl, lane, hl, rfl⟩, congrArg some (tileSums_row hl)⟩
    refine sums.bind fun sum_block_row sums => ?_
    have row : Ends (if i_qk = 0 then some fun lane => ops.mul (ops.ofInt (sum_block_row lane))
          (ops.mul (widen (w_d lane)) (p.blockA (i_mr * 12 + i) (start + i_qk)).d)
        else (m.fetchLanes .sum id (i * 32) 32).map fun sum_row lane =>
          ops.fma (sum_row lane) (ops.ofInt (sum_block_row lane))
            (ops.mul (widen (w_d lane)) (p.blockA (i_mr * 12 + i) (start + i_qk)).d))
        fun sum_row => ∀ lane < 32,
          sum_row lane = p.panelSum ops (i_mr * 12 + i) (i_nr * 32 + lane) start i_qk := by
      cases i_qk with
      | zero =>
          refine .some ?_
          intro lane hl
          dsimp only
          rw [sums lane hl, value lane hl]
          rfl
      | succ i_qk =>
          have loaded : Ends (m.fetchLanes .sum id (i * 32) 32) fun r => ∀ lane < 32,
              r lane = p.panelSum ops (i_mr * 12 + i) (i_nr * 32 + lane) start i_qk :=
            before.fetchLanes sizes (fun lane hl => row_bound hi hl) fun lane hl =>
              ⟨.inr ⟨Nat.succ_pos _, rfl, lane, hl, rfl⟩, congrArg some (tileFloats_row hl)⟩
          refine loaded.map fun sum_row floats => ?_
          intro lane hl
          dsimp only
          rw [sums lane hl, value lane hl, floats lane hl]
          rfl
    refine row.bind fun sum_row values => ?_
    have stored : Fills (scratchSize p) (locals subs (tileSums p i_mr i_nr (start + i_qk) 8)
          (tileFloats ops p i_mr i_nr start (i_qk - 1)) output) (fun _ _ => False)
        (fun m : ScratchMemory α => m.storeLanes .sum (i * 32) 32 fun lane => some (sum_row lane))
        (locals subs (tileSums p i_mr i_nr (start + i_qk) 8)
          (tileFloats ops p i_mr i_nr start i_qk) output) _ :=
      Fills.storeLanes (fun lane hl => row_bound hi hl) fun lane hl => by
        rw [values lane hl]
        exact congrArg some (tileFloats_row hl).symm
    exact stored m sizes fun _ _ no => no.elim
  · rintro i j lt _ k x (⟨rfl, _⟩ | ⟨_, cell⟩)
    · rintro ⟨no, _⟩
      cases no
    · exact rowCells_apart (Nat.ne_of_gt lt) cell
  · rintro i hi k x (cell | ⟨later, cell⟩)
    · exact .inl (arrayCells_iff.mpr ⟨i, hi, cell⟩)
    · exact .inr ⟨later, arrayCells_iff.mpr ⟨i, hi, cell⟩⟩

theorem block_effect {start i_qk : ℕ} {subs' sums : ℕ → ℤ} {M : Region Scratch}
    {stage : ScratchMemory α → Option (ScratchMemory α)}
    (holds : HoldsBlock ops p widen i_mr i_nr (start + i_qk) packed blockA slot)
    (reduced : Effect (scratchSize p)
      (locals subs sums (tileFloats ops p i_mr i_nr start (i_qk - 1)) output) (fun _ _ => False) stage
      (locals subs' (tileSums p i_mr i_nr (start + i_qk) 8)
        (tileFloats ops p i_mr i_nr start (i_qk - 1)) output) (ArrayCells 32 .sumBlock 12) M)
    (spared : ∀ x, ¬ M .sum x) :
    Effect (scratchSize p) (locals subs sums (tileFloats ops p i_mr i_nr start (i_qk - 1)) output)
      (fun k x => 0 < i_qk ∧ ArrayCells 32 .sum 12 k x)
      (fun scratch => (stage scratch).bind (addBlock ops packed blockA slot widen i_qk))
      (locals subs' (tileSums p i_mr i_nr (start + i_qk) 8) (tileFloats ops p i_mr i_nr start i_qk)
        output) (ArrayCells 32 .sum 12) (fun k x => M k x ∨ ArrayCells 32 .sum 12 k x) := by
  refine (reduced.weaken (fun _ _ no => no.elim) ?_ fun _ _ cell => cell).seq (addBlock_effect holds)
  rintro k x (cell | ⟨later, same, inside⟩)
  · exact .inl ⟨cell, rfl⟩
  · subst same
    exact .inr ⟨spared x, ⟨later, rfl, inside⟩, rfl⟩

theorem irBlock_effect {start i_qk : ℕ} (subs sums : ℕ → ℤ) (output : ℕ → Option α)
    (holds : HoldsBlock ops p ops.widen i_mr i_nr (start + i_qk) packed blockA slot) :
    Effect (scratchSize p) (locals subs sums (tileFloats ops p i_mr i_nr start (i_qk - 1)) output)
      (fun k x => 0 < i_qk ∧ ArrayCells 32 .sum 12 k x) (irBlock ops packed blockA slot i_qk)
      (locals subs (tileSums p i_mr i_nr (start + i_qk) 8) (tileFloats ops p i_mr i_nr start i_qk)
        output) (ArrayCells 32 .sum 12)
      (fun k x => ArrayCells 32 .sumBlock 12 k x ∨ ArrayCells 32 .sum 12 k x) := by
  have subblocks : Effect (scratchSize p) _ _ (forUp (irSubblock packed blockA slot) 0 8) _ _
      (ArrayCells 32 .sumBlock 12) :=
    Effect.rounds (fun i_qsk => locals subs (tileSums p i_mr i_nr (start + i_qk) i_qsk)
        (tileFloats ops p i_mr i_nr start (i_qk - 1)) output)
      (fun i_qsk k x => 0 < i_qsk ∧ ArrayCells 32 .sumBlock 12 k x) fun i_qsk hq => by
        refine (irSubblock_effect hq holds).weaken (fun _ _ cell => ⟨cell, rfl⟩) ?_
          fun _ _ cell => cell
        rintro k x ⟨_, cell⟩
        exact .inl ⟨cell, rfl⟩
  refine block_effect holds (subblocks.weaken (fun k x no => absurd no.1 (Nat.lt_irrefl 0))
    (fun k x cell => .inl ⟨⟨by decide, cell⟩, rfl⟩) fun _ _ cell => cell) ?_
  rintro x ⟨no, _⟩
  cases no

theorem brBlock_effect {start i_qk : ℕ} (subs sums : ℕ → ℤ) (output : ℕ → Option α)
    (holds : HoldsBlock ops p id i_mr i_nr (start + i_qk) packed blockA slot) :
    Effect (scratchSize p) (locals subs sums (tileFloats ops p i_mr i_nr start (i_qk - 1)) output)
      (fun k x => 0 < i_qk ∧ ArrayCells 32 .sum 12 k x) (brBlock ops packed blockA slot i_qk)
      (locals (tileSubs p i_mr i_nr (start + i_qk)) (tileSums p i_mr i_nr (start + i_qk) 8)
        (tileFloats ops p i_mr i_nr start i_qk) output) (ArrayCells 32 .sum 12)
      (fun k x => (ArrayCells 32 Scratch.sumSubblock (12 * 8) k x ∨ ArrayCells 32 .sumBlock 12 k x) ∨
        ArrayCells 32 .sum 12 k x) := by
  have place : ∀ i_qsk < 8, ∀ k x, (∃ i < 12, RowCells 32 Scratch.sumSubblock (i * 8 + i_qsk) k x) →
      ArrayCells 32 Scratch.sumSubblock (12 * 8) k x := by
    rintro i_qsk hq k x ⟨i, hi, cell⟩
    exact arrayCells_iff.mpr ⟨_, Layout.index_lt hi hq, cell⟩
  have saved : Effect (scratchSize p) (locals (tileSubs p i_mr i_nr (start + i_qk)) sums
      (tileFloats ops p i_mr i_nr start (i_qk - 1)) output) (fun _ _ => False)
      (forUp (saveSubblock packed blockA slot) 0 8)
      (locals (tileSubs p i_mr i_nr (start + i_qk)) sums
        (tileFloats ops p i_mr i_nr start (i_qk - 1)) output) _ _ :=
    Effect.loop (fun i_qsk hq => saveSubblock_effect hq holds) (fun _ _ _ _ no => no.elim) (by
      rintro i j lt hj k x ⟨r, hr, cell⟩ ⟨r', hr', cell'⟩
      refine rowCells_apart ?_ cell cell'
      omega)
  have stage : Effect (scratchSize p) (locals subs sums
      (tileFloats ops p i_mr i_nr start (i_qk - 1)) output) (fun _ _ => False)
      (fun scratch => (forUp (saveSubblock packed blockA slot) 0 8 scratch).bind
        (reduceSubblocks packed slot))
      (locals (tileSubs p i_mr i_nr (start + i_qk)) (tileSums p i_mr i_nr (start + i_qk) 8)
        (tileFloats ops p i_mr i_nr start (i_qk - 1)) output) (ArrayCells 32 .sumBlock 12)
      fun k x => ArrayCells 32 .sumSubblock (12 * 8) k x ∨ ArrayCells 32 .sumBlock 12 k x := by
    refine (saved.weaken (fun _ _ no => no.elim) ?_ ?_).seq (reduceSubblocks_effect sums holds)
    · intro k x cell
      obtain ⟨row, hr, cell⟩ := arrayCells_iff.mp cell
      obtain ⟨i, hi, i_qsk, hq, rfl⟩ := Layout.lt_iff.mp hr
      exact .inl ⟨⟨i_qsk, hq, i, hi, cell⟩, rfl⟩
    · rintro k x ⟨i_qsk, hq, cell⟩
      exact place i_qsk hq k x cell
  have whole := block_effect holds stage (by
    rintro x (⟨no, _⟩ | ⟨no, _⟩)
    · cases no
    · cases no)
  intro m sizes before
  obtain ⟨m', run, rest⟩ := whole m sizes before
  refine ⟨m', ?_, rest⟩
  rw [← run]
  exact (Option.bind_assoc _ _ _).symm

end Block

end Pfng.Iq2
