import Pfng.Q40.ImeRr

/-! What `prepare` leaves for the weight-stationary kernel, and the registers that the kernel
loads from it. -/
namespace Pfng.Q40.ImeRr
open Checked Ime Finset

variable {α : Type} [Field α] [LinearOrder α] [FloorRing α]
variable (request : Bench.BenchmarkRequest) (half : α → α) (input : Input α)

def rowBlock (row block : ℕ) : BlockQ80 α :=
  quantizedActivation half input.activation (request.k / 32) row block

omit [Field α] [LinearOrder α] [FloorRing α] in
def columnBlock (column block : ℕ) : BlockQ40 α := input.weight (column * (request.k / 32) + block)

def contribution (row column block : ℕ) : α :=
  integerSum (columnBlock request input column block) (rowBlock request half input row block) *
    ((rowBlock request half input row block).d * (columnBlock request input column block).d)

/-- The buffers, cell by cell; `chunk` is what the C chunk holds. -/
def contents (chunk : ℕ → α) : Contents Buffer (Ime2Cell α α)
  | .aQs, x => (rowBlock request half input (x / 256 % (request.m / 8) * 8 + x % 128 / 16)
      (x / 256 / (request.m / 8))).qs (x % 256 / 128 * 16 + x % 16)
  | .aScales, x =>
      (rowBlock request half input
        ((x / 64 % scaleGroups (request.m / 8) * 8 + x % 8) * 8 + x % 64 / 8)
        (x / 64 / scaleGroups (request.m / 8))).d
  | .bQs, x => (columnBlock request input (x / 512 / (request.k / 32) * 32 + x % 512 / 16)
      (x / 512 % (request.k / 32))).qs (x % 16)
  | .bScales, x => (columnBlock request input (x / 256 / (request.k / 32) * 32 + x % 256 / 8)
      (x / 256 % (request.k / 32))).d
  | .scratch _, x => chunk x
  | .acc, _ => 0
  | .output, x => ∑ b ∈ range (request.k / 32),
      contribution request half input (x / request.n) (x % request.n) b

def activationCells : Region Buffer :=
  ActivationCells 8 (request.m / 8) (request.k / 32) (aQuantPlace (request.m / 8))
    (aScalePlace (request.m / 8))

def weightCells : Region Buffer := WeightCells (request.n / 32) (request.k / 32) bScalePlace

/-- What `prepare` fills with operands. -/
def operands : Region Buffer := fun k x => activationCells request k x ∨ weightCells request k x

section Values

variable (chunk : ℕ → α) {tile block : ℕ}

theorem contents_aQs {row window j : ℕ} (ht : tile < request.m / 8) (hr : row < 8) (hw : window < 2)
    (hj : j < 16) :
    contents request half input chunk .aQs
      (aQuantPlace (request.m / 8) tile block row + window * 128 + j) =
      (rowBlock request half input (tile * 8 + row) block).qs (window * 16 + j) := by
  have slot : ((block * (request.m / 8) + tile) * 256 + row * 16 + window * 128 + j) / 256 =
      block * (request.m / 8) + tile := by omega
  rw [aQuantPlace, contents, slot, Layout.row ht, Layout.column ht]
  congr 2
  · omega
  · omega
  · omega

theorem scaleGroups_lt {tile a_tiles : ℕ} (ht : tile < a_tiles) : tile / 8 < scaleGroups a_tiles := by
  rw [scaleGroups]
  omega

theorem contents_aScales {row : ℕ} (ht : tile < request.m / 8) (hr : row < 8) :
    contents request half input chunk .aScales (aScalePlace (request.m / 8) tile block row) =
      (rowBlock request half input (tile * 8 + row) block).d := by
  have slot : ((block * scaleGroups (request.m / 8) + tile / 8) * 64 + (row * 8 + tile % 8)) / 64 =
      block * scaleGroups (request.m / 8) + tile / 8 := by omega
  rw [aScalePlace, contents, slot, Layout.row (scaleGroups_lt ht), Layout.column (scaleGroups_lt ht)]
  congr 2
  omega

theorem contents_bQs {column j : ℕ} (hb : block < request.k / 32) (hc : column < 32) (hj : j < 16) :
    contents request half input chunk .bQs
      ((tile * (request.k / 32) + block) * 512 + (column / 8 * 128 + column % 8 * 16) + j) =
      (columnBlock request input (tile * 32 + column) block).qs j := by
  have slot : ((tile * (request.k / 32) + block) * 512 + (column / 8 * 128 + column % 8 * 16) + j) /
      512 = tile * (request.k / 32) + block := by omega
  rw [contents, slot, Layout.row hb, Layout.column hb]
  congr 2
  · omega
  · omega

theorem contents_bScales {column : ℕ} (hb : block < request.k / 32) (hc : column < 32) :
    contents request half input chunk .bScales
      (bScalePlace (tile * (request.k / 32) + block) column) =
      (columnBlock request input (tile * 32 + column) block).d := by
  have slot : ((tile * (request.k / 32) + block) * 256 + (column / 8 * 64 + column % 8 * 8)) / 256 =
      tile * (request.k / 32) + block := by omega
  rw [bScalePlace, contents, slot, Layout.row hb, Layout.column hb]
  congr 2
  omega

end Values

omit [Field α] [LinearOrder α] [FloorRing α] in
theorem fill_effect (u : Contents Buffer (Ime2Cell α α)) {R : Region Buffer} {k : Buffer} {n : ℕ}
    {x : Ime2Cell α α k} (bound : n ≤ bufferSize request k) (apart : ∀ i, ¬ R k i) :
    Effect (bufferSize request) u R (fun memory => memory.fill k n x) u R fun k' _ => k' = k := by
  have stores : Writes (bufferSize request) (fun memory : Ime2Memory α α => memory.fill k n x)
      (Function.update u k fun _ => x) _ :=
    Writes.fill bound fun i _ => by rw [Function.update_self]
  refine Effect.weaken stores (fun _ _ no => no.elim) ?_ fun k' i cell => cell.1
  intro k' i hR
  refine .inr ⟨?_, hR, rfl⟩
  rintro ⟨rfl, _⟩
  exact apart i hR

theorem packActivation_fills (chunk : ℕ → α) :
    Writes (bufferSize request)
      (packActivation half input.activation 8 (request.m / 8) (request.k / 32)
        (aQuantPlace (request.m / 8)) (aScalePlace (request.m / 8)))
      (contents request half input chunk) (activationCells request) := by
  refine packActivation_writes ?_ ?_ ?_ ?_
  · intro tile ht block hb row hr
    have slot := Layout.index_lt hb ht
    rw [aQuantPlace, bufferSize, Nat.mul_comm (request.m / 8)]
    omega
  · intro tile ht block hb row hr
    have slot := Layout.index_lt hb (scaleGroups_lt ht)
    rw [aScalePlace, bufferSize]
    omega
  · intro tile ht block hb row hr window hw j hj
    exact contents_aQs request half input chunk ht hr hw hj
  · intro tile ht block hb row hr
    exact contents_aScales request half input chunk ht hr

theorem packWeights_fills (chunk : ℕ → α) :
    Writes (bufferSize request)
      (packWeights input.weight (request.n / 32) (request.k / 32) bScalePlace)
      (contents request half input chunk) (weightCells request) := by
  refine packWeights_writes (Nat.le_refl _) ?_ ?_ ?_
  · intro slot hs column hc
    rw [bScalePlace, bufferSize]
    omega
  · intro tile ht block hb column hc j hj
    exact contents_bQs request half input chunk hb hc hj
  · intro tile ht block hb column hc
    exact contents_bScales request half input chunk hb hc

theorem prepare_effect (chunk : ℕ → α) :
    Effect (bufferSize request) (contents request half input chunk) (fun _ _ => False)
      (prepare half request input) (contents request half input chunk) (operands request)
      fun _ _ => True := by
  have zeroA := fill_effect request (contents request half input chunk) (R := fun _ _ => False)
    (k := .aScales) (x := 0) (Nat.le_refl _) fun _ no => no
  have zeroB := fill_effect request (contents request half input chunk)
    (R := activationCells request) (k := .bScales) (x := 0) (Nat.le_refl _) (by
      rintro i ⟨_, _, _, _, _, _, ⟨no, _⟩ | ⟨no, _⟩⟩
      · cases no
      · cases no)
  have weights := Effect.keep (R := activationCells request)
    (packWeights_fills request half input chunk) (fun _ _ no => no.elim) (by
      rintro k x ⟨_, _, _, _, _, _, ⟨rfl, _⟩ | ⟨rfl, _⟩⟩ ⟨_, _, _, _, _, _, ⟨no, _⟩ | ⟨no, _⟩⟩
      all_goals cases no)
  have activation := packActivation_fills request half input chunk
  exact (zeroA.seq (Effect.seq activation (zeroB.seq weights))).weaken (fun _ _ no => no.elim)
    (fun k x cell => .inl ⟨cell, rfl⟩) fun _ _ _ => trivial

end Pfng.Q40.ImeRr
