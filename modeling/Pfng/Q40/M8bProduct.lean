import Mathlib.Data.Rat.Floor
import Pfng.Q40.M8bPacking

/-! `q4_0-q8_0-IME-m8b` computes the product on both generations. -/
namespace Pfng.Q40.BatchReduction
open Checked Ime Finset

variable {F H : Type}

section Plain

variable {ops : FloatOps F H} {request : Bench.BenchmarkRequest} {operands : Operands F H}
variable {fourRowScale : ℕ → ℕ → F} {unit : MatrixUnit} {c : ℕ → Option F}

theorem plain_cells {k : Buffer} {x : ℕ} :
    operandCells request unit (plainLive request unit) k x ↔
      ActivationCells request unit k x ∨ WeightCells request unit k x := by
  have bytes : 0 < kMr unit * 32 := Nat.mul_pos (kMr_pos unit) (by decide)
  unfold operandCells ActivationCells WeightCells plainLive
  cases k with
  | bytes b =>
      cases b with
      | staged => simp
      | packedA => simp [Nat.div_lt_iff_lt_mul bytes]
      | packedB => simp
  | floats f =>
      cases f with
      | packedA => simp [Nat.div_lt_iff_lt_mul (kMr_pos unit)]
      | staged => simp
      | acc => simp
      | packedC => simp
      | output => simp
  | scalesB => simp
  | unpacked => simp
  | components place => simp

theorem plain_found {tile_m : ℕ} (ht : tile_m < request.m / kMr unit) :
    ∀ b < request.k / 32, plainLive request unit (tile_m * (request.k / 32) + b) ∧
      plainSlot request (tile_m * (request.k / 32) + b) = (tile_m, 0 + b) := by
  intro b hb
  rw [plainSlot, Layout.row hb, Layout.column hb, Nat.zero_add]
  exact ⟨Layout.index_lt ht hb, rfl⟩

variable [Inhabited F]

variable (fourRowScale) in
omit [Inhabited F] in
theorem packed_effect {slots : ℕ} {live : ℕ → Prop} {slot : ℕ → ℕ × ℕ}
    {pack : BatchMemory F H → Option (BatchMemory F H)}
    (fills : Fills (bufferSize request .ime1 slots) (contents ops request operands .ime1 slot c)
      (StagedCells request) pack (contents ops request operands .ime1 slot c)
      fun k x => ∃ s, live s ∧ SlotCells s k x) :
    Effect (bufferSize request .ime1 slots) (contents ops request operands .ime1 slot c)
      (fun _ _ => False) (fun memory => (initializeQ40Ime8 request operands fourRowScale memory).bind pack)
      (contents ops request operands .ime1 slot c) (operandCells request .ime1 live)
      fun _ _ => True := by
  have staged : Effect (bufferSize request .ime1 slots)
      (contents ops request operands .ime1 slot c) (fun _ _ => False)
      (initializeQ40Ime8 request operands fourRowScale)
      (contents ops request operands .ime1 slot c)
      (fun k x => StagedCells request k x ∨ WeightCells request .ime1 k x) _ := initialize_writes
  have kept := Effect.keep (R := fun k x => StagedCells request k x ∨ WeightCells request .ime1 k x)
    fills (fun _ _ => .inl) (by
      rintro k x (cell | cell) ⟨_, _, ⟨rfl, _⟩ | ⟨rfl, _⟩⟩
      · exact cell
      · exact cell
      · exact cell
      · exact cell)
  refine (staged.seq kept).weaken (fun _ _ no => no.elim) ?_ fun _ _ _ => trivial
  intro k x cell
  refine .inl ⟨?_, rfl⟩
  unfold operandCells at cell
  split at cell
  · exact .inr ⟨_, cell, .inl ⟨rfl, _, Nat.mod_lt _ (by decide), (Nat.div_add_mod' x 256).symm⟩⟩
  · exact .inl (.inr cell)
  · exact .inr ⟨_, cell, .inr ⟨rfl, _, Nat.mod_lt _ (by decide), (Nat.div_add_mod' x 8).symm⟩⟩
  · exact .inl (.inr cell)
  · exact cell.elim

variable (ops request operands fourRowScale c) in
theorem prepareIme1_effect :
    Effect (bufferSize request .ime1 (request.m / 8 * (request.k / 32)))
      (contents ops request operands .ime1 (plainSlot request) c) (fun _ _ => False)
      (prepareIme1 request operands fourRowScale)
      (contents ops request operands .ime1 (plainSlot request) c)
      (operandCells request .ime1 (plainLive request .ime1)) fun _ _ => True :=
  packed_effect fourRowScale reorder_fills

variable (ops request operands c) in
omit [Inhabited F] in
theorem prepareIme2_effect :
    Effect (bufferSize request .ime2 (request.m / 16 * (request.k / 32)))
      (contents ops request operands .ime2 (plainSlot request) c) (fun _ _ => False)
      (prepareIme2 request operands)
      (contents ops request operands .ime2 (plainSlot request) c)
      (operandCells request .ime2 (plainLive request .ime2)) fun _ _ => True := by
  have activation : Writes (bufferSize request .ime2 (request.m / 16 * (request.k / 32)))
      (packActivationIme2 request operands)
      (contents ops request operands .ime2 (plainSlot request) c) _ := packActivationIme2_writes
  have whole := Writes.seq activation packWeightsIme2_writes
  refine Effect.weaken whole (fun _ _ no => no.elim) ?_ fun _ _ _ => trivial
  intro k x cell
  exact .inl ⟨plain_cells.mp cell, rfl⟩

variable [Inhabited H]

/-- A kernel on whole rows of blocks meets what the loop over the columns asks. -/
theorem plainKernel_ends {place : Place} {tile_m tile_n : ℕ} {m : BatchMemory F H}
    (pos : 0 < request.k / 32) (htm : tile_m < request.m / kMr unit)
    (ht : tile_n < request.n / kNr unit)
    (sizes : m.size = bufferSize request unit (request.m / kMr unit * (request.k / 32)))
    (holds : Holds (contents ops request operands unit (plainSlot request) c)
      (operandCells request unit (plainLive request unit)) m)
    (held : HoldsTile unit (accPointer unit) (outputElement ops request operands unit tile_m tile_n 0)
      m) :
    Ends (packedKernel ops unit place (tileArguments unit (tile_m * (request.k / 32))
        (tile_n * (request.k / 32)) (request.k / 32)) (tile_n * (request.k / 32) * (kNr unit * 16))
        (accPointer unit) m) fun m' =>
      Within (fun k _ => Scratch k) m m' ∧ HoldsTile unit (accPointer unit)
        (outputElement ops request operands unit tile_m tile_n (request.k / 32)) m' := by
  have other : (accPointer unit).buffer ≠ .packedA := nofun
  have run := packedKernel_ends place 0 sizes holds ht (by rw [Nat.zero_add]) pos (plain_found htm)
    (fun _ alive => alive) other (Nat.le_refl _) held
  rw [Nat.add_zero, Nat.zero_add] at run
  refine run.mono fun m' ⟨change, tile⟩ => ⟨change.mono ?_, tile⟩
  rintro k x (rfl | ⟨rfl, _⟩)
  · exact .inl ⟨_, rfl⟩
  · exact .inr rfl

theorem m8Kernel_ends {live : ℕ → Prop} {slot : ℕ → ℕ × ℕ} {slots tile_m tile_n block_k count : ℕ}
    {m : BatchMemory F H} {a_block : ℕ} {acc : Pointer}
    (sizes : m.size = bufferSize request .ime1 slots)
    (holds : Holds (contents ops request operands .ime1 slot c) (operandCells request .ime1 live) m)
    (ht : tile_n < request.n / kNr .ime1) (hk : block_k + count ≤ request.k / 32) (pos : 0 < count)
    (found : ∀ b < count, live (a_block + b) ∧ slot (a_block + b) = (tile_m, block_k + b))
    (inside : ∀ s, live s → s < slots) (other : acc.buffer ≠ .packedA)
    (rows : kNr .ime1 ≤ acc.stride)
    (held : HoldsTile .ime1 acc (outputElement ops request operands .ime1 tile_m tile_n block_k) m) :
    Ends (m8Kernel ops
      (tileArguments .ime1 a_block (tile_n * (request.k / 32) + block_k) count)
      ((tile_n * (request.k / 32) + block_k) * (kNr .ime1 * 16)) acc m) fun m' =>
      Within (fun k x => Scratch k ∨ TileCells .ime1 acc k x) m m' ∧
        HoldsTile .ime1 acc (outputElement ops request operands .ime1 tile_m tile_n (block_k + count))
          m' := by
  obtain ⟨change, left, keeps⟩ := renewScratch .ime1 (.components .stack)
    (fun _ => none) (.inl ⟨_, rfl⟩) operands_apart holds
  refine (packedKernel_ends .stack block_k (change.size.trans sizes) left ht hk pos found inside other
    rows (keeps nofun held)).mono fun m' ⟨change', tile⟩ => ⟨?_, tile⟩
  refine (change.mono fun _ _ => .inl).trans (change'.mono ?_)
  rintro k x (rfl | cell)
  · exact .inl (.inl ⟨_, rfl⟩)
  · exact .inr cell

theorem runIme1_effect (pos : 0 < request.k / 32)
    (wholeM : request.m / 8 * 8 = request.m) (wholeN : request.n / 16 * 16 = request.n)
    (orders : Orders ℕ (request.m / 8)) (iterations : ℕ) :
    Effect (bufferSize request .ime1 (request.m / 8 * (request.k / 32)))
      (contents ops request operands .ime1 (plainSlot request) c)
      (operandCells request .ime1 (plainLive request .ime1)) (runIme1 ops request orders iterations)
      (contents ops request operands .ime1 (plainSlot request) c)
      (fun k x => 0 < iterations ∧ k = .floats .output ∧ x < request.m * request.n)
      (fun k _ => Scratch k ∨ k = .floats .output) := by
  refine Effect.passes (fun iteration _ => rows_effect wholeM operands_apart (orders.complete iteration)
    fun tile_m htm => runColumns_effect wholeN wholeM htm fun tile_n ht m sizes holds held => ?_) ?_
  · have other : (accPointer .ime1).buffer ≠ .packedA := nofun
    have run := m8Kernel_ends sizes holds ht (Nat.zero_add _).le pos (plain_found htm)
      (fun _ alive => alive) other (Nat.le_refl _) held
    rw [Nat.add_zero, Nat.zero_add] at run
    refine run.mono fun m' ⟨change, tile⟩ => ⟨change.mono ?_, tile⟩
    rintro k x (scratch | ⟨rfl, _⟩)
    · exact scratch
    · exact .inr rfl
  · rintro k x cell (scratch | output)
    · exact (operands_apart k x cell).1 scratch
    · exact (operands_apart k x cell).2 output

theorem runIme2_effect (pos : 0 < request.k / 32)
    (wholeM : request.m / 16 * 16 = request.m) (wholeN : request.n / 32 * 32 = request.n)
    (schedule : Schedule (request.m / 16) (Option ℤ)) (iterations : ℕ) :
    Effect (bufferSize request .ime2 (request.m / 16 * (request.k / 32)))
      (contents ops request operands .ime2 (plainSlot request) c)
      (operandCells request .ime2 (plainLive request .ime2)) (runIme2 ops request schedule iterations)
      (contents ops request operands .ime2 (plainSlot request) c)
      (fun k x => 0 < iterations ∧ k = .floats .output ∧ x < request.m * request.n)
      (fun k _ => Scratch k ∨ k = .floats .output) := by
  refine Effect.passes (fun iteration _ => rows_effect wholeM operands_apart (schedule.complete iteration)
    fun tile_m htm => ?_) ?_
  · have fresh : Effect (bufferSize request .ime2 (request.m / 16 * (request.k / 32)))
        (contents ops request operands .ime2 (plainSlot request) c)
        (operandCells request .ime2 (plainLive request .ime2))
        (fun memory : BatchMemory F H => some (memory.renew
          (.components (schedule.place iteration tile_m)) (schedule.scratch iteration tile_m)))
        (contents ops request operands .ime2 (plainSlot request) c)
        (operandCells request .ime2 (plainLive request .ime2)) _ := Effect.renew fun _ cell => cell
    have columns : Effect (bufferSize request .ime2 (request.m / 16 * (request.k / 32)))
        (contents ops request operands .ime2 (plainSlot request) c)
        (operandCells request .ime2 (plainLive request .ime2))
        (runColumns ops request .ime2 (packedKernel ops .ime2 (schedule.place iteration tile_m)) tile_m)
        (contents ops request operands .ime2 (plainSlot request) c) _ _ :=
      runColumns_effect wholeN wholeM htm
        fun tile_n ht m sizes holds held => plainKernel_ends pos htm ht sizes holds held
    refine (fresh.seq columns).weaken (fun _ _ cell => ⟨cell, rfl⟩) (fun _ _ cell => .inl ⟨cell, rfl⟩) ?_
    rintro k x (rfl | cell)
    · exact .inl (.inl ⟨_, rfl⟩)
    · exact cell
  · rintro k x cell (scratch | output)
    · exact (operands_apart k x cell).1 scratch
    · exact (operands_apart k x cell).2 output

/-- What the first generation leaves in the output, for any float steps. -/
theorem prepared_runIme1 (operands : Operands F H) (fourRowScale : ℕ → ℕ → F)
    (supported : (validateShape 8 16 32 request).supported = true)
    (orders : Orders ℕ (request.m / 8)) {iterations : ℕ} (some_iteration : 1 ≤ iterations)
    (previous : ℕ → Option F) (memory : BatchMemory F H)
    (sizes : memory.size = bufferSize request .ime1 (request.m / 8 * (request.k / 32))) :
    Ends ((prepareIme1 request operands fourRowScale memory).bind fun memory =>
        runIme1 ops request orders iterations (memory.renew (.floats .output) previous)) fun memory =>
      ∀ x < request.m * request.n, memory.cell (.floats .output) x =
        contents ops request operands .ime1 (plainSlot request) (fun _ => none) (.floats .output) x := by
  obtain ⟨⟨_, _, depth⟩, wholeM, wholeN, wholeK⟩ := validateShape_supported supported
  have pos : 0 < request.k / 32 := by omega
  have packed := prepareIme1_effect ops request operands fourRowScale fun _ => none
  have fresh : Effect (bufferSize request .ime1 (request.m / 8 * (request.k / 32)))
      (contents ops request operands .ime1 (plainSlot request) fun _ => none)
      (operandCells request .ime1 (plainLive request .ime1))
      (fun memory => some (memory.renew (.floats .output) previous)) _ _ _ :=
    Effect.renew fun _ cell => cell
  have later := fresh.seq (runIme1_effect pos wholeM wholeN orders iterations)
  refine (packed.seq later memory sizes fun _ _ no => no.elim).mono fun memory ⟨_, left⟩ => ?_
  intro x hx
  exact left (.floats .output) x ⟨some_iteration, rfl, hx⟩

end Plain

section Exact

variable {α : Type} [Field α]

theorem accumulated_exact (weight : ℕ → BlockQ40 α) (activation : ℕ → BlockQ80 α) (start : α) (n : ℕ) :
    accumulated (FloatOps.exact α) (fun b => blockSum (weight b) (activation b))
      (fun b => (weight b).d) (fun b => (activation b).d) start n =
      start + product weight activation n := by
  unfold product
  induction n with
  | zero => exact (add_zero start).symm
  | succ n ih =>
      rw [accumulated, ih, sum_range_succ, ← add_assoc]
      change _ + ((blockSum _ _ : ℤ) : α) * ((weight n).d * (activation n).d) = _
      rw [blockSum, mul_comm, mul_comm (weight n).d]

theorem partialSum_exact (request : Bench.BenchmarkRequest) (operands : Operands α α)
    (row column n : ℕ) :
    operands.partialSum (FloatOps.exact α) request row column n =
      product (operands.column request column) (operands.activation row) n :=
  (accumulated_exact _ _ 0 n).trans (zero_add _)

/-- The operands of `q4_0-q8_0` inputs. -/
def quantisedOperands [LinearOrder α] [FloorRing α] (half : α → α)
    (request : Bench.BenchmarkRequest) (input : Input α) : Operands α α :=
  ⟨quantizedActivation half input.activation (request.k / 32), input.weight⟩

variable [Inhabited α]

omit [Inhabited α] in
theorem contents_exact {request : Bench.BenchmarkRequest} {operands : Operands α α}
    {unit : MatrixUnit} {slot : ℕ → ℕ × ℕ} {c : ℕ → Option α} {m n : ℕ} (hn : n < request.n) :
    contents (FloatOps.exact α) request operands unit slot c (.floats .output) (m * request.n + n) =
      some (product (operands.column request n) (operands.activation m) (request.k / 32)) := by
  change some _ = some _
  rw [Layout.row hn, Layout.column hn, partialSum_exact]

/-- The kernel of the second generation computes the product of the quantised operands; each
element of a component is stored once, at its place in row-major order. -/
theorem ime2_product [LinearOrder α] [FloorRing α] (half : α → α) (request : Bench.BenchmarkRequest)
    (input : Input α) (supported : (validateShape 16 32 32 request).supported = true)
    (schedule : Schedule (request.m / 16) (Option ℤ)) {iterations : ℕ}
    (some_iteration : 1 ≤ iterations) (previous : ℕ → Option α) (memory : BatchMemory α α)
    (sizes : memory.size = bufferSize request .ime2 (request.m / 16 * (request.k / 32))) :
    (Ends ((prepareIme2 request (quantisedOperands half request input) memory).bind fun memory =>
        runIme2 (FloatOps.exact α) request schedule iterations
          (memory.renew (.floats .output) previous)) fun memory =>
      ∀ m < request.m, ∀ n < request.n, memory.cell (.floats .output) (m * request.n + n) =
        some (product (fun b => input.weight (n * (request.k / 32) + b))
          (quantizedActivation half input.activation (request.k / 32) m) (request.k / 32))) ∧
      ((scatterStores .ime2).flatMap (ScatterStore.cells .ime2)).Perm (List.range (16 * 32)) ∧
      ∀ store ∈ scatterStores .ime2, ∀ lane < store.vl .ime2, store.selects .ime2 lane = true →
        ∃ row < 16, ∃ column < 32, store.base .ime2 + lane = row * 32 + column ∧
          row / 8 * 4 + column / 8 = store.index ∧
          row % 8 * 8 + column % 8 = store.high * 32 + lane := by
  refine ⟨?_, scatter_once .ime2, fun store mem lane inside on => scatter_place mem inside on⟩
  obtain ⟨⟨_, _, depth⟩, wholeM, wholeN, wholeK⟩ := validateShape_supported supported
  have pos : 0 < request.k / 32 := by omega
  have packed := prepareIme2_effect (FloatOps.exact α) request (quantisedOperands half request input)
    fun _ => none
  have fresh : Effect (bufferSize request .ime2 (request.m / 16 * (request.k / 32)))
      (contents (FloatOps.exact α) request (quantisedOperands half request input) .ime2
        (plainSlot request) fun _ => none) (operandCells request .ime2 (plainLive request .ime2))
      (fun memory => some (memory.renew (.floats .output) previous)) _ _ _ :=
    Effect.renew fun _ cell => cell
  have later := fresh.seq (runIme2_effect pos wholeM wholeN schedule iterations)
  refine (packed.seq later memory sizes fun _ _ no => no.elim).mono fun memory ⟨_, left⟩ => ?_
  intro m hm n hn
  rw [left (.floats .output) _ ⟨some_iteration, rfl, Layout.index_lt hm hn⟩]
  exact contents_exact hn

/-- The kernel of the first generation computes the product of its packed operands. -/
theorem ime1_product (request : Bench.BenchmarkRequest) (operands : Operands α α)
    (fourRowScale : ℕ → ℕ → α) (supported : (validateShape 8 16 32 request).supported = true)
    (orders : Orders ℕ (request.m / 8)) {iterations : ℕ} (some_iteration : 1 ≤ iterations)
    (previous : ℕ → Option α) (memory : BatchMemory α α)
    (sizes : memory.size = bufferSize request .ime1 (request.m / 8 * (request.k / 32))) :
    Ends ((prepareIme1 request operands fourRowScale memory).bind fun memory =>
        runIme1 (FloatOps.exact α) request orders iterations
          (memory.renew (.floats .output) previous)) fun memory =>
      ∀ m < request.m, ∀ n < request.n, memory.cell (.floats .output) (m * request.n + n) =
        some (product (fun b => operands.weight (n * (request.k / 32) + b)) (operands.activation m)
          (request.k / 32)) := by
  refine (prepared_runIme1 operands fourRowScale supported orders some_iteration previous memory
    sizes).mono fun memory left => ?_
  intro m hm n hn
  rw [left _ (Layout.index_lt hm hn)]
  exact contents_exact hn

end Exact

def sampleTiles (m n : ℕ) : Bench.BenchmarkRequest := ⟨2 * m, 2 * n, 64, 0, 1, 1, 1, 0, 0, true, []⟩

def variedOperands {F : Type} [NatCast F] : Operands F ℚ := ⟨variedBlock, variedInput.weight⟩

def sampleSchedule : Schedule ((sampleTiles 16 32).m / 16) (Option ℤ) where
  order := fun iteration => if iteration % 2 = 0 then [1, 0] else [0, 1]
  complete := by
    intro iteration
    split <;> decide
  allocated := fun iteration tile => iteration % 2 = tile
  scratch := fun _ _ _ => some 5

def sampleOrders : Orders ℕ 2 := ⟨fun _ => [1, 0], fun _ => by decide⟩

/-- A memory that nothing was written to. -/
def freshMemory {F H : Type} (size : Buffer → ℕ) : BatchMemory F H where
  size := size
  cell := fun k _ => match k with
    | .bytes _ => none
    | .floats _ => none
    | .scalesB => none
    | .unpacked => ⟨none, 0⟩
    | .components _ => none

theorem sample_ime2_product : Ends ((prepareIme2 (sampleTiles 16 32)
      (quantisedOperands id (sampleTiles 16 32) variedInput)
      (freshMemory (bufferSize (sampleTiles 16 32) .ime2 4))).bind fun memory =>
      runIme2 (FloatOps.exact ℚ) (sampleTiles 16 32) sampleSchedule 2
        (memory.renew (.floats .output) fun _ => some 8)) fun memory =>
    memory.cell (.floats .output) (21 * 64 + 37) = some (71070 / 127) := by
  refine (ime2_product id (sampleTiles 16 32) variedInput (by decide) sampleSchedule (by decide)
    (fun _ => some 8) _ rfl).1.mono fun memory h => ?_
  refine (h 21 (by decide) 37 (by decide)).trans ?_
  decide +kernel

theorem sample_ime1_product : Ends ((prepareIme1 (sampleTiles 8 16) variedOperands (fun _ _ => 3)
      (freshMemory (bufferSize (sampleTiles 8 16) .ime1 4))).bind fun memory =>
      runIme1 (FloatOps.exact ℚ) (sampleTiles 8 16) sampleOrders 2
        (memory.renew (.floats .output) fun _ => none)) fun memory =>
    memory.cell (.floats .output) (11 * 32 + 21) = some 292472 := by
  refine (ime1_product (sampleTiles 8 16) variedOperands (fun _ _ => 3) (by decide) sampleOrders
    (by decide) (fun _ => none) _ rfl).mono fun memory h => ?_
  refine (h 11 (by decide) 21 (by decide)).trans ?_
  decide +kernel

end Pfng.Q40.BatchReduction
