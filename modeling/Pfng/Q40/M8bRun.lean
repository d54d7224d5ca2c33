import Pfng.Lib.Blocking
import Pfng.Q40.M8b

/-! A run of the batch-reduction kernels on packed operands leaves, for every element, the blocks
added up in increasing order. -/
namespace Pfng.Q40.BatchReduction
open Checked Ime Finset

variable {F H : Type}

def Operands.column (operands : Operands F H) (request : Bench.BenchmarkRequest) (column block : ℕ) :
    BlockQ40 H :=
  operands.weight (column * (request.k / 32) + block)

/-- An element after its first `n` blocks. -/
def Operands.partialSum (ops : FloatOps F H) (request : Bench.BenchmarkRequest)
    (operands : Operands F H) (row column n : ℕ) : F :=
  accumulated ops (fun b => blockSum (operands.column request column b) (operands.activation row b))
    (fun b => (operands.column request column b).d) (fun b => (operands.activation row b).d)
    ops.zero n

section Contents

variable (ops : FloatOps F H) (request : Bench.BenchmarkRequest) (operands : Operands F H)
variable (unit : MatrixUnit) (slot : ℕ → ℕ × ℕ) (c : ℕ → Option F)

/-- The row and the element that byte `o` of a staged block of eight rows holds. -/
def stagedRow (o : ℕ) : ℕ := o / 128 * 4 + o % 32 / 8

def stagedDepth (o : ℕ) : ℕ := o % 128 / 32 * 8 + o % 8

/-- The buffers, cell by cell. `slot` is the row tile and the K block that a packed activation block
belongs to, `c` what the packed C buffer holds. -/
def contents : Contents Buffer (Cell F H)
  | .bytes .staged, x => some ((operands.activation
      (x / 256 / (request.k / 32) * 8 + stagedRow (x % 256)) (x / 256 % (request.k / 32))).qs
        (stagedDepth (x % 256)))
  | .bytes .packedA, x => some ((operands.activation
      ((slot (x / (kMr unit * 32))).1 * kMr unit + quantRow unit (x % (kMr unit * 32)))
      (slot (x / (kMr unit * 32))).2).qs (quantDepth unit (x % (kMr unit * 32))))
  | .bytes .packedB, x => some (packedByte unit (operands.column request
      (x / (kNr unit * 16) / (request.k / 32) * kNr unit + weightColumn unit (x % (kNr unit * 16)))
      (x / (kNr unit * 16) % (request.k / 32))) (weightDepth unit (x % (kNr unit * 16))))
  | .floats .staged, x =>
      some (operands.activation (x / 8 / (request.k / 32) * 8 + x % 8) (x / 8 % (request.k / 32))).d
  | .floats .packedA, x => some (operands.activation
      ((slot (x / kMr unit)).1 * kMr unit + x % kMr unit) (slot (x / kMr unit)).2).d
  | .floats .acc, _ => some ops.zero
  | .floats .packedC, x => c x
  | .floats .output, x =>
      some (operands.partialSum ops request (x / request.n) (x % request.n) (request.k / 32))
  | .scalesB, x => some (operands.column request
      (x / kNr unit / (request.k / 32) * kNr unit + x % kNr unit)
      (x / kNr unit % (request.k / 32))).d
  | .unpacked, x => ⟨some (weightByte (operands.column request
      (x / (kNr unit * 32) / (request.k / 32) * kNr unit + weightColumn unit (x % (kNr unit * 32)))
      (x / (kNr unit * 32) % (request.k / 32))) (unpackedDepth unit (x % (kNr unit * 32)))), 1⟩
  | .components _, _ => none

/-- The packed operands; of the activation, the blocks in the slots that `live` selects. -/
def operandCells (live : ℕ → Prop) : Region Buffer
  | .bytes .packedA, x => live (x / (kMr unit * 32))
  | .bytes .packedB, x => x < request.n / kNr unit * (request.k / 32) * (kNr unit * 16)
  | .floats .packedA, x => live (x / kMr unit)
  | .scalesB, x => x < request.n / kNr unit * (request.k / 32) * kNr unit
  | _, _ => False

def UnpackedCells : Region Buffer := fun k x =>
  k = .unpacked ∧ x < request.n / kNr unit * (request.k / 32) * (kNr unit * 32)

/-- The operands of a tile from block `block_k` on. -/
def tileData (tile_m tile_n block_k : ℕ) : TileData F H where
  component b row column :=
    blockSum (operands.column request (tile_n * kNr unit + column) (block_k + b))
      (operands.activation (tile_m * kMr unit + row) (block_k + b))
  scaleW b column := (operands.column request (tile_n * kNr unit + column) (block_k + b)).d
  scaleA b row := (operands.activation (tile_m * kMr unit + row) (block_k + b)).d

theorem tileData_sum {tile_m tile_n block_k n row column : ℕ} :
    (tileData request operands unit tile_m tile_n block_k).sum ops
      (fun row column => operands.partialSum ops request (tile_m * kMr unit + row)
        (tile_n * kNr unit + column) block_k) n row column =
      operands.partialSum ops request (tile_m * kMr unit + row) (tile_n * kNr unit + column)
        (block_k + n) := by
  unfold Operands.partialSum
  rw [accumulated_add]
  rfl

theorem kMr_pos : 0 < kMr unit := by
  cases unit with
  | ime1 => decide
  | ime2 => decide

theorem kNr_pos : 0 < kNr unit := by
  cases unit with
  | ime1 => decide
  | ime2 => decide

end Contents

section Ready

variable {ops : FloatOps F H} {request : Bench.BenchmarkRequest} {operands : Operands F H}
variable {unit : MatrixUnit} {slot : ℕ → ℕ × ℕ} {c : ℕ → Option F} {live : ℕ → Prop} {slots : ℕ}
variable {m : BatchMemory F H} {a_block tile_m tile_n block_k count : ℕ}

/-- The scales of the kernel's blocks are those of the tile. -/
theorem ready_of_holds {weights : ℕ → ℕ → BatchMemory F H → Option WeightRegisters}
    (sizes : m.size = bufferSize request unit slots)
    (holds : Holds (contents ops request operands unit slot c) (operandCells request unit live) m)
    (ht : tile_n < request.n / kNr unit) (hk : block_k + count ≤ request.k / 32)
    (found : ∀ b < count, live (a_block + b) ∧ slot (a_block + b) = (tile_m, block_k + b))
    (inside : ∀ s, live s → s < slots)
    (registers : ∀ b < count, ∀ inner < numKIter unit, Ends (weights b inner m)
      (WindowWeights unit (fun column =>
        operands.column request (tile_n * kNr unit + column) (block_k + b)) inner)) :
    Ready unit (tileArguments unit a_block (tile_n * (request.k / 32) + block_k) count) weights
      (tileData request operands unit tile_m tile_n block_k) m where
  dots b hb := by
    have place : ∀ o < kMr unit * 32, (a_block * (kMr unit * 32) + b * (kMr unit * 32) + o) /
        (kMr unit * 32) = a_block + b ∧
        (a_block * (kMr unit * 32) + b * (kMr unit * 32) + o) % (kMr unit * 32) = o := by
      intro o ho
      rw [← Nat.add_mul]
      exact ⟨Layout.row ho, Layout.column ho⟩
    refine dots_ends (w := fun column => _) (a := fun row => _) (registers b hb) fun o ho => ?_
    obtain ⟨row, rest⟩ := place o ho
    obtain ⟨alive, same⟩ := found b hb
    constructor
    · rw [sizes]
      change a_block * (kMr unit * 32) + b * (kMr unit * 32) + o < slots * (kMr unit * 32)
      rw [← Nat.add_mul]
      exact Layout.index_lt (inside _ alive) ho
    · change m.cell _ (a_block * (kMr unit * 32) + b * (kMr unit * 32) + o) = _
      rw [holds (.bytes .packedA) _ (by
        change live _
        rw [row]
        exact alive)]
      change some _ = some _
      rw [row, rest, same]
  scalesW b hb column hc := by
    change b < count at hb
    have slot_lt : tile_n * (request.k / 32) + (block_k + b) <
        request.n / kNr unit * (request.k / 32) := Layout.index_lt ht (by omega)
    have address : (tile_n * (request.k / 32) + block_k) * kNr unit + b * kNr unit + column =
        (tile_n * (request.k / 32) + (block_k + b)) * kNr unit + column := by
      rw [← Nat.add_mul, Nat.add_assoc]
    have bound := Layout.index_lt slot_lt hc
    change _ + b * kNr unit + column < _ ∧ m.cell _ (_ + b * kNr unit + column) = _
    dsimp only [tileArguments]
    rw [address, sizes, holds .scalesB _ bound]
    refine ⟨bound, ?_⟩
    change some _ = some _
    have inRow : block_k + b < request.k / 32 := by omega
    rw [Layout.row hc, Layout.column hc, Layout.row inRow, Layout.column inRow]
    rfl
  scalesA b hb row hr := by
    obtain ⟨alive, same⟩ := found b hb
    change a_block * kMr unit + b * kMr unit + row < _ ∧
      m.cell _ (a_block * kMr unit + b * kMr unit + row) = _
    rw [← Nat.add_mul, sizes, holds (.floats .packedA) _ (by
      change live _
      rw [Layout.row hr]
      exact alive)]
    refine ⟨Layout.index_lt (inside _ alive) hr, ?_⟩
    change some _ = some _
    rw [Layout.row hr, Layout.column hr, same]
    rfl

theorem packed_registers (sizes : m.size = bufferSize request unit slots)
    (holds : Holds (contents ops request operands unit slot c) (operandCells request unit live) m)
    (ht : tile_n < request.n / kNr unit) (hk : block_k + count ≤ request.k / 32) {b : ℕ}
    (hb : b < count) {inner : ℕ} (hi : inner < numKIter unit) :
    Ends (packedWeights unit ((tile_n * (request.k / 32) + block_k) * (kNr unit * 16) +
        b * (kNr unit * 16)) inner m)
      (WindowWeights unit (fun column =>
        operands.column request (tile_n * kNr unit + column) (block_k + b)) inner) := by
  have slot_lt : tile_n * (request.k / 32) + (block_k + b) <
      request.n / kNr unit * (request.k / 32) := Layout.index_lt ht (by omega)
  have inRow : block_k + b < request.k / 32 := by omega
  rw [← Nat.add_mul, Nat.add_assoc]
  refine packedWeights_ends (fun o ho => ?_) hi
  have bound := Layout.index_lt slot_lt ho
  rw [sizes, holds (.bytes .packedB) _ bound]
  refine ⟨bound, ?_⟩
  change some _ = some _
  rw [Layout.row ho, Layout.column ho, Layout.row inRow, Layout.column inRow]

variable (unit) in
theorem unpacked_registers (room : request.n / kNr unit * (request.k / 32) * (kNr unit * 32) ≤ m.size .unpacked)
    (holds : Holds (contents ops request operands unit slot c) (UnpackedCells request unit) m)
    (ht : tile_n < request.n / kNr unit) (hk : block_k + count ≤ request.k / 32) {b : ℕ}
    (hb : b < count) {inner : ℕ} (hi : inner < numKIter unit) :
    Ends (unpackedWeights unit ((tile_n * (request.k / 32) + block_k) * (kNr unit * 32) +
        b * (kNr unit * 32)) inner m)
      (WindowWeights unit (fun column =>
        operands.column request (tile_n * kNr unit + column) (block_k + b)) inner) := by
  have slot_lt : tile_n * (request.k / 32) + (block_k + b) <
      request.n / kNr unit * (request.k / 32) := Layout.index_lt ht (by omega)
  have inRow : block_k + b < request.k / 32 := by omega
  rw [← Nat.add_mul, Nat.add_assoc]
  refine unpackedWeights_ends (fun o ho => ?_) hi
  have bound := Layout.index_lt slot_lt ho
  refine ⟨bound.trans_le room, ?_⟩
  rw [holds .unpacked _ ⟨rfl, bound⟩]
  change some _ = some _
  rw [Layout.row ho, Layout.column ho, Layout.row inRow, Layout.column inRow]

end Ready

section Tile

variable [Inhabited F] {unit : MatrixUnit} {m : BatchMemory F H} {f : ℕ → ℕ → F}

theorem copyTile_ends {source target : Pointer} (held : HoldsTile unit source f m)
    (other : source.buffer ≠ target.buffer) (rows : kNr unit ≤ target.stride)
    (bound : ∀ row < kMr unit, ∀ column < kNr unit,
      target.base + row * target.stride + column < m.size (.floats target.buffer)) :
    Ends (copyTile unit source target m) fun m' =>
      Within (TileCells unit target) m m' ∧ HoldsTile unit target f m' := by
  have value : ∀ row < kMr unit, ∀ column < kNr unit,
      Function.update m.cell (.floats target.buffer) (fun x => some
        (f ((x - target.base) / target.stride) ((x - target.base) % target.stride)))
        (.floats target.buffer) (target.base + row * target.stride + column) =
        some (f row column) := by
    intro row hr column hc
    rw [Function.update_self, Nat.add_assoc, Nat.add_sub_cancel_left, Layout.row (hc.trans_le rows),
      Layout.column (hc.trans_le rows)]
  have copies : Fills m.size m.cell (TileCells unit source) (copyTile unit source target)
      (Function.update m.cell (.floats target.buffer) fun x => some
        (f ((x - target.base) / target.stride) ((x - target.base) % target.stride))) _ :=
    Fills.loop (fun row hr => Fills.copyLanes (f row) (fun column hc => (held row hr column hc).1)
      (bound row hr) (fun column hc =>
        ⟨⟨rfl, row, hr, column, hc, rfl⟩, (held row hr column hc).2⟩) (value row hr)) (by
      rintro row hr k x ⟨rfl, _⟩ ⟨same, _⟩
      exact other (Buffer.floats.inj same))
  refine (copies m rfl fun _ _ _ => rfl).mono fun m' ⟨change, left⟩ => ⟨change.mono ?_, ?_⟩
  · rintro k x ⟨row, hr, rfl, column, hc, rfl⟩
    exact ⟨rfl, row, hr, column, hc, rfl⟩
  · intro row hr column hc
    refine ⟨by rw [change.size]; exact bound row hr column hc, ?_⟩
    rw [left _ _ ⟨row, hr, rfl, column, hc, rfl⟩, value row hr column hc]

end Tile

section Run

variable {ops : FloatOps F H} {request : Bench.BenchmarkRequest}
variable {operands : Operands F H} {unit : MatrixUnit} {slot : ℕ → ℕ × ℕ} {c : ℕ → Option F}
variable {live : ℕ → Prop} {slots : ℕ} {tile_m tile_n : ℕ}

def outputElement (ops : FloatOps F H) (request : Bench.BenchmarkRequest) (operands : Operands F H)
    (unit : MatrixUnit) (tile_m tile_n block_k row column : ℕ) : F :=
  operands.partialSum ops request (tile_m * kMr unit + row) (tile_n * kNr unit + column) block_k

/-- A kernel on the operands of one tile adds its blocks to the accumulators. `A` is what the run
knows besides; it must give the kernel its weights. -/
theorem tileKernel_ends [Inhabited F] [Inhabited H] {place : Place} (block_k : ℕ)
    {m : BatchMemory F H} {a_block count : ℕ} {A : Region Buffer} (source : Bool → Source)
    {sink : Bool → Pointer} (weights : ℕ → ℕ → BatchMemory F H → Option WeightRegisters)
    (sizes : m.size = bufferSize request unit slots)
    (holds : Holds (contents ops request operands unit slot c) A m)
    (known : ∀ k x, operandCells request unit live k x → A k x)
    (apart : ∀ k x, A k x → ¬ KernelCells unit place sink k x)
    (registers : ∀ m' : BatchMemory F H, m'.size = bufferSize request unit slots →
      Holds (contents ops request operands unit slot c) A m' → ∀ b < count,
      ∀ inner < numKIter unit, Ends (weights b inner m') (WindowWeights unit (fun column =>
        operands.column request (tile_n * kNr unit + column) (block_k + b)) inner))
    (ht : tile_n < request.n / kNr unit) (hk : block_k + count ≤ request.k / 32) (pos : 0 < count)
    (found : ∀ b < count, live (a_block + b) ∧ slot (a_block + b) = (tile_m, block_k + b))
    (inside : ∀ s, live s → s < slots) (again : source false = .cells (sink false))
    (rows : ∀ last, kNr unit ≤ (sink last).stride)
    (bound : ∀ last, ∀ row < kMr unit, ∀ column < kNr unit,
      (sink last).base + row * (sink last).stride + column < m.size (.floats (sink last).buffer))
    (supplied : Supplies ops unit (outputElement ops request operands unit tile_m tile_n block_k) m
      (source true)) :
    Ends (batchKernel ops unit place weights
      (tileArguments unit a_block (tile_n * (request.k / 32) + block_k) count) source sink m) fun m' =>
      Within (KernelCells unit place sink) m m' ∧ HoldsTile unit (sink true)
        (outputElement ops request operands unit tile_m tile_n (block_k + count)) m' := by
  have ready : ∀ m', Within (KernelCells unit place sink) m m' →
      Ready unit (tileArguments unit a_block (tile_n * (request.k / 32) + block_k) count) weights
        (tileData request operands unit tile_m tile_n block_k) m' := by
    intro m' change
    have sizes' := change.size.trans sizes
    have holds' : Holds (contents ops request operands unit slot c) A m' := by
      intro k x cell
      rw [change.frame k x (apart k x cell), holds k x cell]
    exact ready_of_holds sizes' (holds'.mono known) ht hk found inside (registers m' sizes' holds')
  refine (batchKernel_ends source ready again rows bound (by rw [sizes]; exact Nat.le_refl _) pos
    supplied).mono fun m' ⟨change, tile⟩ => ⟨change, ?_⟩
  intro row hr column hc
  rw [outputElement, ← tileData_sum]
  exact tile row hr column hc

theorem packedKernel_ends [Inhabited F] [Inhabited H] (place : Place) (block_k : ℕ)
    {m : BatchMemory F H} {a_block count : ℕ} {acc : Pointer}
    (sizes : m.size = bufferSize request unit slots)
    (holds : Holds (contents ops request operands unit slot c) (operandCells request unit live) m)
    (ht : tile_n < request.n / kNr unit) (hk : block_k + count ≤ request.k / 32) (pos : 0 < count)
    (found : ∀ b < count, live (a_block + b) ∧ slot (a_block + b) = (tile_m, block_k + b))
    (inside : ∀ s, live s → s < slots) (other : acc.buffer ≠ .packedA)
    (rows : kNr unit ≤ acc.stride)
    (held : HoldsTile unit acc (outputElement ops request operands unit tile_m tile_n block_k) m) :
    Ends (packedKernel ops unit place
      (tileArguments unit a_block (tile_n * (request.k / 32) + block_k) count)
      ((tile_n * (request.k / 32) + block_k) * (kNr unit * 16)) acc m) fun m' =>
      Within (fun k x => k = .components place ∨ TileCells unit acc k x) m m' ∧
        HoldsTile unit acc (outputElement ops request operands unit tile_m tile_n (block_k + count))
          m' := by
  have apart : ∀ k x, operandCells request unit live k x →
      ¬ KernelCells unit place (fun _ => acc) k x := by
    rintro k x cell (rfl | ⟨_, rfl, _⟩)
    · exact cell
    · cases same : acc.buffer with
      | packedA => exact other same
      | staged => rwa [same] at cell
      | acc => rwa [same] at cell
      | packedC => rwa [same] at cell
      | output => rwa [same] at cell
  refine (tileKernel_ends block_k (fun _ => .cells acc) _ sizes holds (fun _ _ cell => cell) apart
    (fun m' sizes' holds' b hb inner hi => packed_registers sizes' holds' ht hk hb hi) ht hk pos found
    inside rfl (fun _ => rows) (fun _ row hr column hc => (held row hr column hc).1) held).mono
    fun m' ⟨change, tile⟩ => ⟨change.mono ?_, tile⟩
  rintro k x (rfl | ⟨_, cell⟩)
  · exact .inl rfl
  · exact .inr cell

def Scratch : Buffer → Prop := fun k => (∃ place, k = .components place) ∨ k = .floats .acc

def OutputRows (request : Bench.BenchmarkRequest) (unit : MatrixUnit) (tile_m : ℕ) : Region Buffer :=
  MatrixRows (.floats .output) request.n (kMr unit) tile_m

theorem output_address (row column : ℕ) :
    (outputPointer request unit tile_m tile_n).base + row * request.n + column =
      (tile_m * kMr unit + row) * request.n + (tile_n * kNr unit + column) := by
  rw [outputPointer]
  ring

theorem contents_output {row column : ℕ} (inN : tile_n * kNr unit + column < request.n) :
    contents ops request operands unit slot c (.floats .output)
        ((tile_m * kMr unit + row) * request.n + (tile_n * kNr unit + column)) =
      some (outputElement ops request operands unit tile_m tile_n (request.k / 32) row column) := by
  change some _ = some _
  rw [Layout.row inN, Layout.column inN]
  rfl

def Apart (A : Region Buffer) : Prop := ∀ k x, A k x → ¬ Scratch k ∧ k ≠ .floats .output

theorem scratch_output (_ : ℕ) : ¬ Scratch (.floats .output) := by
  rintro (⟨_, no⟩ | no)
  · cases no
  · cases no

theorem operands_apart : Apart (operandCells request unit live) := by
  intro k x cell
  constructor
  · rintro (⟨_, rfl⟩ | rfl)
    · exact cell
    · exact cell
  · rintro rfl
    exact cell

theorem row_fits (ht : tile_n < request.n / kNr unit) : kNr unit ≤ request.n := by
  have whole := Nat.div_mul_le_self request.n (kNr unit)
  have one := Nat.mul_le_mul_right (kNr unit) (Nat.succ_le_of_lt (Nat.zero_lt_of_lt ht))
  omega

theorem output_bound (wholeM : request.m / kMr unit * kMr unit = request.m)
    (wholeN : request.n / kNr unit * kNr unit = request.n) (htm : tile_m < request.m / kMr unit)
    (ht : tile_n < request.n / kNr unit) :
    ∀ row < kMr unit, ∀ column < kNr unit,
      (outputPointer request unit tile_m tile_n).base +
        row * (outputPointer request unit tile_m tile_n).stride + column <
        bufferSize request unit slots (.floats .output) := by
  intro row hr column hc
  rw [show (outputPointer request unit tile_m tile_n).stride = request.n from rfl, output_address]
  refine Layout.index_lt ?_ (tile_column_lt wholeN ht hc)
  have := Layout.index_lt htm hr
  rwa [wholeM] at this

theorem output_holds {m : BatchMemory F H} (wholeN : request.n / kNr unit * kNr unit = request.n)
    (ht : tile_n < request.n / kNr unit)
    (copied : HoldsTile unit (outputPointer request unit tile_m tile_n)
      (outputElement ops request operands unit tile_m tile_n (request.k / 32)) m) :
    Holds (contents ops request operands unit slot c)
      (TileCells unit (outputPointer request unit tile_m tile_n)) m := by
  rintro k x ⟨rfl, row, hr, column, hc, rfl⟩
  rw [(copied row hr column hc).2,
    show (outputPointer request unit tile_m tile_n).stride = request.n from rfl, output_address]
  exact (contents_output (tile_column_lt wholeN ht hc)).symm

section Output

variable {A : Region Buffer}

variable (unit) in
theorem renewScratch (k : Buffer) (f : ℕ → Cell F H k) {u : Contents Buffer (Cell F H)}
    {m : BatchMemory F H} (scratch : Scratch k) (apart : Apart A) (holds : Holds u A m) :
    Within (fun k _ => Scratch k) m (m.renew k f) ∧ Holds u A (m.renew k f) ∧
      ∀ {p : Pointer} {g : ℕ → ℕ → F}, .floats p.buffer ≠ k → HoldsTile unit p g m →
        HoldsTile unit p g (m.renew k f) := by
  have fresh : Effect m.size u A (fun m => some (m.renew k f)) _ _ _ :=
    Effect.renew fun x cell => (apart _ x cell).1 scratch
  obtain ⟨_, same, change, left⟩ := fresh m rfl holds
  cases same
  refine ⟨change.mono ?_, left, fun other held => HoldsTile.within held change fun _ => other⟩
  rintro k' _ rfl
  exact scratch

theorem tile_effect [Inhabited F] (kernel : BatchMemory F H → Option (BatchMemory F H))
    (wholeN : request.n / kNr unit * kNr unit = request.n)
    (wholeM : request.m / kMr unit * kMr unit = request.m) (htm : tile_m < request.m / kMr unit)
    (ht : tile_n < request.n / kNr unit) (apart : Apart A)
    (spec : ∀ m, m.size = bufferSize request unit slots →
      Holds (contents ops request operands unit slot c) A m →
      HoldsTile unit (accPointer unit) (outputElement ops request operands unit tile_m tile_n 0) m →
      Ends (kernel m) fun m' => Within (fun k _ => Scratch k) m m' ∧ HoldsTile unit (accPointer unit)
        (outputElement ops request operands unit tile_m tile_n (request.k / 32)) m') :
    Effect (bufferSize request unit slots) (contents ops request operands unit slot c) A
      (fun memory => (kernel (memory.renew (.floats .acc) fun _ => some ops.zero)).bind
        (copyTile unit (accPointer unit) (outputPointer request unit tile_m tile_n)))
      (contents ops request operands unit slot c)
      (TileCells unit (outputPointer request unit tile_m tile_n))
      (fun k x => Scratch k ∨ TileCells unit (outputPointer request unit tile_m tile_n) k x) := by
  have zeroed : Effect (bufferSize request unit slots) (contents ops request operands unit slot c) A
      (fun memory => some (memory.renew (.floats .acc) fun _ => some ops.zero)) _ _ _ :=
    Effect.renewed (fun _ => rfl) fun x cell => (apart _ x cell).1 (.inr rfl)
  intro m sizes holds
  obtain ⟨_, same, change₀, left₀⟩ := zeroed m sizes holds
  cases same
  have sizes₀ := change₀.size.trans sizes
  have accs : HoldsTile unit (accPointer unit)
      (outputElement ops request operands unit tile_m tile_n 0)
      (m.renew (.floats .acc) fun _ => some ops.zero) := by
    intro row hr column hc
    refine ⟨?_, left₀ (.floats .acc) _ (.inr rfl)⟩
    rw [sizes₀, accPointer, Nat.zero_add]
    exact Layout.index_lt hr hc
  refine (spec _ sizes₀ (left₀.mono fun _ _ => .inl) accs).bind fun m₁ ⟨change₁, tile⟩ => ?_
  have sizes₁ := change₁.size.trans sizes₀
  have other : (accPointer unit).buffer ≠ (outputPointer request unit tile_m tile_n).buffer := nofun
  refine (copyTile_ends tile other (row_fits ht) ?_).mono fun m₂ ⟨change₂, copied⟩ => ⟨⟨?_, ?_⟩, ?_⟩
  · rw [sizes₁]
    exact output_bound wholeM wholeN htm ht
  · exact change₂.size.trans sizes₁ |>.trans sizes.symm
  · intro k x no
    rw [not_or] at no
    rw [change₂.frame k x no.2, change₁.frame k x no.1, change₀.frame k x fun eq => no.1 (.inr eq)]
  · exact output_holds wholeN ht copied

theorem columns_effect {body : ℕ → BatchMemory F H → Option (BatchMemory F H)}
    (wholeN : request.n / kNr unit * kNr unit = request.n) (apart : Apart A)
    (each : ∀ tile_n < request.n / kNr unit, Effect (bufferSize request unit slots)
      (contents ops request operands unit slot c) A (body tile_n)
      (contents ops request operands unit slot c) (TileCells unit (outputPointer request unit tile_m tile_n))
      (fun k x => Scratch k ∨ TileCells unit (outputPointer request unit tile_m tile_n) k x)) :
    Effect (bufferSize request unit slots) (contents ops request operands unit slot c) A
      (forUp body 0 (request.n / kNr unit)) (contents ops request operands unit slot c)
      (OutputRows request unit tile_m) (fun k x => Scratch k ∨ OutputRows request unit tile_m k x) := by
  have tile : ∀ tile_n, TileCells unit (outputPointer request unit tile_m tile_n) =
      MatrixTile (.floats .output) request.n (kMr unit) (kNr unit) tile_m tile_n := by
    intro tile_n
    funext k x
    unfold TileCells MatrixTile
    simp only [show (outputPointer request unit tile_m tile_n).stride = request.n from rfl,
      output_address]
    rfl
  refine Effect.tileColumns wholeN (kNr_pos unit) apart scratch_output fun tile_n ht => ?_
  rw [← tile tile_n]
  exact each tile_n ht

theorem rows_effect {body : ℕ → BatchMemory F H → Option (BatchMemory F H)} {order : List ℕ}
    (wholeM : request.m / kMr unit * kMr unit = request.m) (apart : Apart A)
    (complete : order.Perm (List.range (request.m / kMr unit)))
    (each : ∀ tile_m < request.m / kMr unit, Effect (bufferSize request unit slots)
      (contents ops request operands unit slot c) A (body tile_m)
      (contents ops request operands unit slot c) (OutputRows request unit tile_m)
      (fun k x => Scratch k ∨ OutputRows request unit tile_m k x)) :
    Effect (bufferSize request unit slots) (contents ops request operands unit slot c) A
      (forEach body order) (contents ops request operands unit slot c)
      (fun k x => k = .floats .output ∧ x < request.m * request.n)
      (fun k _ => Scratch k ∨ k = .floats .output) := by
  exact Effect.tileRows wholeM (kMr_pos unit) apart scratch_output complete each

end Output

theorem runColumns_effect [Inhabited F]
    {kernel : Arguments → ℕ → Pointer → BatchMemory F H → Option (BatchMemory F H)}
    (wholeN : request.n / kNr unit * kNr unit = request.n)
    (wholeM : request.m / kMr unit * kMr unit = request.m) (htm : tile_m < request.m / kMr unit)
    (spec : ∀ tile_n < request.n / kNr unit, ∀ m, m.size = bufferSize request unit slots →
      Holds (contents ops request operands unit slot c) (operandCells request unit live) m →
      HoldsTile unit (accPointer unit) (outputElement ops request operands unit tile_m tile_n 0) m →
      Ends (kernel (tileArguments unit (tile_m * (request.k / 32)) (tile_n * (request.k / 32))
          (request.k / 32)) (tile_n * (request.k / 32) * (kNr unit * 16)) (accPointer unit) m)
        fun m' => Within (fun k _ => Scratch k) m m' ∧ HoldsTile unit (accPointer unit)
          (outputElement ops request operands unit tile_m tile_n (request.k / 32)) m') :
    Effect (bufferSize request unit slots) (contents ops request operands unit slot c)
      (operandCells request unit live) (runColumns ops request unit kernel tile_m)
      (contents ops request operands unit slot c) (OutputRows request unit tile_m)
      (fun k x => Scratch k ∨ OutputRows request unit tile_m k x) :=
  columns_effect wholeN operands_apart fun tile_n ht =>
    tile_effect _ wholeN wholeM htm ht operands_apart (spec tile_n ht)

end Run

end Pfng.Q40.BatchReduction
