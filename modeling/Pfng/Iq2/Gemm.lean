import Pfng.Iq2.Kernel
import Pfng.Lib.Fresh

/-! `ggml_gemm_iq2_xxs_q8_K_br` and `ggml_gemm_iq2_xxs_q8_K_ir` with their local arrays and the
output. Beside the memory of the packed operands there is one of the arrays that a run writes. -/
namespace Pfng.Iq2
open Checked Rvv

/-- The local arrays and the output. -/
inductive Scratch
  | sumSubblock | sumBlock | sum | output
  deriving DecidableEq

/-- Cells are `none` until they are written. -/
abbrev ScratchCell (α : Type) : Scratch → Type
  | .sumSubblock => Option ℤ
  | .sumBlock => Option ℤ
  | .sum => Option α
  | .output => Option α

abbrev PackedMemory (α : Type) := Memory Buffer (Cell α)

abbrev ScratchMemory (α : Type) := Memory Scratch (ScratchCell α)

variable {α : Type}

/-- `m` and `n`. -/
def Problem.m (p : Problem α) : ℕ := p.tilesM * 12

def Problem.n (p : Problem α) : ℕ := p.tilesN * 32

/-- Sizes of the local arrays and of the output. -/
def scratchSize (p : Problem α) : Scratch → ℕ
  | .sumSubblock => 12 * 8 * 32
  | .sumBlock => 12 * 32
  | .sum => 12 * 32
  | .output => p.m * p.n

def newLocals (scratch : ScratchMemory α) : ScratchMemory α :=
  ((scratch.renew .sumSubblock fun _ => none).renew .sumBlock fun _ => none).renew .sum fun _ => none

section Block

variable [Inhabited α] (ops : FloatOps α α) (packed : PackedMemory α) (blockA slot : ℕ)

/-- `w_scale` of a sub-block, widened. -/
def loadScale (i_qsk : ℕ) : Option (ℕ → ℤ) :=
  packed.loadLanes .weightScale (slot * 256 + i_qsk * 32) 32

/-- The loop over the rows that adds a block to `sum`. The immediate-reduce kernel widens the scales
of the weights here. -/
def addBlock (widen : α → α) (i_qk : ℕ) (scratch : ScratchMemory α) : Option (ScratchMemory α) :=
  (packed.loadLanes .weightD (slot * 32) 32).bind fun w_d =>
  forUp (fun i_m scratch =>
    (packed.load .activationD (blockA * 12 + i_m)).bind fun a_d =>
    (scratch.fetchLanes .sumBlock id (i_m * 32) 32).bind fun sum_block_row =>
    let d := fun lane => ops.mul (widen (w_d lane)) a_d
    (if i_qk = 0 then some fun lane => ops.mul (ops.ofInt (sum_block_row lane)) (d lane)
    else (scratch.fetchLanes .sum id (i_m * 32) 32).map fun sum_row lane =>
      ops.fma (sum_row lane) (ops.ofInt (sum_block_row lane)) (d lane)).bind fun sum_row =>
    scratch.storeLanes .sum (i_m * 32) 32 fun lane => some (sum_row lane)) 0 12 scratch

/-- One sub-block of the immediate-reduce kernel, whose sums are scaled at once. -/
def irSubblock (i_qsk : ℕ) : ScratchMemory α → Option (ScratchMemory α) :=
  forUp (fun i scratch =>
    (sumSubblock packed blockA slot i_qsk i 31).bind fun sum_subblock =>
    (loadScale packed slot i_qsk).bind fun w_scale =>
    (if i_qsk = 0 then some (vwmulVV sum_subblock w_scale)
    else (scratch.fetchLanes .sumBlock id (i * 32) 32).map fun sum_block_row =>
      vwmaccVV sum_block_row sum_subblock w_scale).bind fun sum_block_row =>
    scratch.storeLanes .sumBlock (i * 32) 32 fun lane => some (sum_block_row lane)) 0 12

def irBlock (i_qk : ℕ) (scratch : ScratchMemory α) : Option (ScratchMemory α) :=
  (forUp (irSubblock packed blockA slot) 0 8 scratch).bind
  (addBlock ops packed blockA slot ops.widen i_qk)

/-- `OP_SAVE_SUBBLOCK` for every row. -/
def saveSubblock (i_qsk : ℕ) : ScratchMemory α → Option (ScratchMemory α) :=
  forUp (fun i scratch =>
    (sumSubblock packed blockA slot i_qsk i 31).bind fun sum_subblock =>
    scratch.storeLanes .sumSubblock ((i * 8 + i_qsk) * 32) 32 fun lane => some (sum_subblock lane))
    0 12

/-- The reduction that the batch-reduce kernel makes of the saved sums. -/
def reduceSubblocks : ScratchMemory α → Option (ScratchMemory α) :=
  forUp (fun i_m scratch =>
    (forUp (fun i_qsk sum_block_row =>
      (loadScale packed slot i_qsk).bind fun w_scale =>
      (scratch.fetchLanes .sumSubblock id ((i_m * 8 + i_qsk) * 32) 32).map fun sum_subblock_row =>
      if i_qsk = 0 then vwmulVV sum_subblock_row w_scale
      else vwmaccVV sum_block_row sum_subblock_row w_scale) 0 8 fun _ => 0).bind fun sum_block_row =>
    scratch.storeLanes .sumBlock (i_m * 32) 32 fun lane => some (sum_block_row lane)) 0 12

def brBlock (i_qk : ℕ) (scratch : ScratchMemory α) : Option (ScratchMemory α) :=
  (forUp (saveSubblock packed blockA slot) 0 8 scratch).bind fun scratch =>
  (reduceSubblocks packed slot scratch).bind (addBlock ops packed blockA slot id i_qk)

end Block

section Gemm

variable [Inhabited α] (ops : FloatOps α α) (eighth : α) (p : Problem α)

/-- One tile of the immediate-reduce kernel. -/
def irTile (packed : PackedMemory α) (i_mr i_nr : ℕ) (scratch : ScratchMemory α) :
    Option (ScratchMemory α) :=
  (forUp (fun i_qk => irBlock ops packed (i_mr * p.blocks + i_qk) (i_nr * p.blocks + i_qk) i_qk)
    0 p.blocks scratch).bind
  (forUp (fun i_m scratch =>
    (scratch.fetchLanes .sum id (i_m * 32) 32).bind fun sum_row =>
    scratch.storeLanes .output ((i_mr * 12 + i_m) * p.n + i_nr * 32) 32 fun lane =>
      some (ops.mul (sum_row lane) eighth)) 0 12)

/-- `ggml_gemm_iq2_xxs_q8_K_ir`. -/
def gemmIr : PackedMemory α × ScratchMemory α → Option (PackedMemory α × ScratchMemory α) :=
  fun (packed, scratch) =>
  (decompressIr p.weight p.blocks p.tilesN packed).bind fun packed =>
  (forUp (fun i_mr => forUp (irTile ops eighth p packed i_mr) 0 p.tilesN) 0 p.tilesM
    (newLocals scratch)).map fun scratch => (packed, scratch)

/-- One tile of the batch-reduce kernel in chunk `i_kc`; a later chunk adds to the output. -/
def brTile (packed : PackedMemory α) (i_nr i_kc i_mr : ℕ) (scratch : ScratchMemory α) :
    Option (ScratchMemory α) :=
  (forUp (fun i_qk => brBlock ops packed (i_mr * p.blocks + (i_kc * kcBlocks + i_qk)) i_qk i_qk)
    0 (min (p.blocks - i_kc * kcBlocks) kcBlocks) scratch).bind
  (forUp (fun i_m scratch =>
    (scratch.fetchLanes .sum id (i_m * 32) 32).bind fun sum_row =>
    (if i_kc = 0 then some fun lane => ops.mul (sum_row lane) eighth
    else (scratch.fetchLanes .output id ((i_mr * 12 + i_m) * p.n + i_nr * 32) 32).map
      fun c_row lane => ops.fma (c_row lane) eighth (sum_row lane)).bind fun c_row =>
    scratch.storeLanes .output ((i_mr * 12 + i_m) * p.n + i_nr * 32) 32 fun lane =>
      some (c_row lane)) 0 12)

/-- `w_d` of the batch-reduce kernel holds floats. -/
def widened (weight : ℕ → BlockIq2xxs α) (x : ℕ) : BlockIq2xxs α :=
  { weight x with d := ops.widen (weight x).d }

def divCeil (a b : ℕ) : ℕ := (a + b - 1) / b

/-- `ggml_gemm_iq2_xxs_q8_K_br`. -/
def gemmBr : PackedMemory α × ScratchMemory α → Option (PackedMemory α × ScratchMemory α) :=
  fun (packed, scratch) =>
  forUp (fun i_nr => forUp (fun i_kc (packed, scratch) =>
    (decompressBr (widened ops p.weight) p.blocks i_nr i_kc packed).bind fun packed =>
    (forUp (brTile ops eighth p packed i_nr i_kc) 0 p.tilesM scratch).map fun scratch =>
      (packed, scratch)) 0 (divCeil (p.blocks * 256) (kcBlocks * 256))) 0 p.tilesN
    (packed, newLocals scratch)

/-- `prepare` and `run` with either kernel; `previous` is what the output holds before. -/
def runGemm (kernel : PackedMemory α × ScratchMemory α → Option (PackedMemory α × ScratchMemory α))
    (iterations : ℕ) (packed : PackedMemory α) (scratch : ScratchMemory α) :
    Option (ScratchMemory α) :=
  (packActivation p.activation p.tilesM p.blocks packed).bind fun packed =>
  (forUp (fun _ => kernel) 0 iterations (packed, scratch)).map fun (_, scratch) => scratch

end Gemm

end Pfng.Iq2
