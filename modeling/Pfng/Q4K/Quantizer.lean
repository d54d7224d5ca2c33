import Mathlib.Data.Finset.Max
import Mathlib.Tactic.FieldSimp
import Pfng.Lib.Program
import Pfng.Lib.Register
import Pfng.Lib.Rounding
import Pfng.Q4K.ScaleCodec

/-! `quantize_row_q4_K` over an ordered field, and its two ratios as functions of the extremes of
the sub-blocks. -/
namespace Pfng.Q4K
open Checked Function Rounding Register

variable {α : Type} [Field α] [LinearOrder α]

/-- `lo` and `hi` after the scan of a sub-block. -/
def extremes (x : ℕ → α) (sb : ℕ) : α × α :=
  (List.range' 1 31).foldl
    (fun (lo, hi) j => (min lo (x (sb * 32 + j)), max hi (x (sb * 32 + j))))
    (x (sb * 32), x (sb * 32))

/-- `v ? v : 1`. -/
def orOne (v : α) : α := if v ≠ 0 then v else 1

def ls (x : ℕ → α) (sb : ℕ) : α := ((extremes x sb).2 - (extremes x sb).1) / 15

def lm (x : ℕ → α) (sb : ℕ) : α := -(extremes x sb).1 / orOne (ls x sb)

def maxs (x : ℕ → α) : α := (List.range 8).foldl (fun maxs sb => max maxs (ls x sb)) 0

def maxm (x : ℕ → α) : α := (List.range 8).foldl (fun maxm sb => max maxm (lm x sb)) 0

def ds (x : ℕ → α) : α := maxs x / 63

def dm (x : ℕ → α) : α := maxm x / 63

/-- An array of `n` elements, filled in order. -/
def array {β : Type} (n : ℕ) (zero : β) (f : ℕ → Option β) : Option (ℕ → β) :=
  forUp (fun i a => (f i).map (update a i)) 0 n fun _ => zero

variable [FloorRing α]

/-- `(int)std::round(x)`, undefined where int cannot hold the result. -/
def intRound (x : α) : Option ℤ := if Fits 32 (away x) then some (away x) else none

/-- The rounded ratio `s[i]`. -/
def scaleField (x : ℕ → α) (i : ℕ) : Option ℤ := (intRound (ls x i / orOne (ds x))).map (min 63)

/-- The rounded ratio `m[i]`. -/
def minField (x : ℕ → α) (i : ℕ) : Option ℤ := (intRound (lm x i / orOne (dm x))).map (min 63)

/-- `low` or `high` of element `j` of a sub-block. -/
def quant (x : ℕ → α) (sb j : ℕ) : Option ℤ :=
  (intRound (x (sb * 32 + j) / orOne (ls x sb) + lm x sb)).map fun q => max 0 (min q 15)

def packQuants (x : ℕ → α) : Option (ℕ → BitVec 8) :=
  forUp (fun pair => forUp (fun j qs =>
    (quant x (pair * 2) j).bind fun low =>
    (quant x (pair * 2 + 1) j).map fun high =>
      update qs (pair * 32 + j) (BitVec.ofInt 8 low ||| BitVec.ofInt 8 high <<< 4))
    0 32) 0 4 fun _ => 0

/-- One block; `half` is `GGML_FP32_TO_FP16`. -/
def quantizeBlock (half : α → α) (x : ℕ → α) : Option (BlockQ4K α) :=
  (array 8 0 fun i => (scaleField x i).map (BitVec.ofInt 8)).bind fun s =>
  (array 8 0 fun i => (minField x i).map (BitVec.ofInt 8)).bind fun m =>
  (packQuants x).map fun qs => ⟨half (ds x), half (dm x), packScales s m, qs⟩

/-- `quantize_row_q4_K` for a row of `blocks` blocks, into an output with any contents. -/
def quantizeRow (half : α → α) (input : ℕ → α) (blocks : ℕ) (output : ℕ → BlockQ4K α) :
    Option (ℕ → BlockQ4K α) :=
  forUp (fun b output =>
    (quantizeBlock half fun i => input (b * 256 + i)).map (update output b)) 0 blocks output

omit [FloorRing α] in
theorem array_ends {β : Type} {n : ℕ} (zero : β) {f : ℕ → Option β} {g : ℕ → β}
    (each : ∀ i < n, f i = some (g i)) : Ends (array n zero f) fun a => ∀ i < n, a i = g i := by
  have entries : ∀ i < n, Ends (f i) (· = g i) := fun i hi => ⟨g i, each i hi, rfl⟩
  exact updates_ends entries fun _ => zero

end Pfng.Q4K
