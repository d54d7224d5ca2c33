import Pfng.Q40.M4Product
import Pfng.Q40.M4b

/-! The batch reduction of four rows. The K loop is carried by the blocks that are reduced and the
components of the blocks that wait in their slots. -/
namespace Pfng.Q40.ImmediateReduction.BatchRed
open Checked Ime BatchReduction Words

variable {F H : Type}

theorem Component.of_own (b : ℕ) (x : F) : Component.of b (some ⟨x, b⟩) = some x := by
  simp [Component.of]

section Unpack

def ComponentCells (dst : ℕ) : Region Unit := fun _ x => ∃ o < 64, x = dst + o

/-- The half stores and the masked stores together write a component in row-major order. -/
theorem storeUnpack_writes {size : Unit → ℕ} {v : Contents Unit fun _ => Option (Component F)}
    {acc : ℕ → ℕ → F} {block dst : ℕ} (room : dst + 64 ≤ size ())
    (value : ∀ row < 4, ∀ column < 16, v () (dst + (row * 16 + column)) =
      some ⟨acc (column / 4 * 2 + row / 2) (row % 2 * 4 + column % 4), block⟩) :
    Writes size (storeUnpack block acc dst 16) v (ComponentCells dst) := by
  have place : ∀ r < 8, ∀ half < 2, ∀ lane < 4,
      (r % 2 * 2 + half) * 16 + (r / 2 * 4 + lane) < 64 ∧
      v () (dst + ((r % 2 * 2 + half) * 16 + (r / 2 * 4 + lane))) =
        some ⟨acc r (half * 4 + lane), block⟩ := by
    intro r hr half hh lane hl
    have register : (r / 2 * 4 + lane) / 4 * 2 + (r % 2 * 2 + half) / 2 = r := by omega
    have inside : (r % 2 * 2 + half) % 2 * 4 + (r / 2 * 4 + lane) % 4 = half * 4 + lane := by omega
    have element := value (r % 2 * 2 + half) (by omega) (r / 2 * 4 + lane) (by omega)
    rw [register, inside] at element
    exact ⟨by omega, element⟩
  have low : ∀ r < 8, Writes size (fun buffer => buffer.storeLanes ()
      (dst + r % 2 * 2 * 16 + r / 2 * 4) 4 fun lane => some (Component.mk (acc r lane) block)) v
      fun k x => k = () ∧ ∃ lane < 4, x = dst + r % 2 * 2 * 16 + r / 2 * 4 + lane := by
    intro r hr
    have here : ∀ lane, dst + r % 2 * 2 * 16 + r / 2 * 4 + lane =
        dst + ((r % 2 * 2 + 0) * 16 + (r / 2 * 4 + lane)) := by
      intro lane
      omega
    refine Writes.storeLanes ?_ ?_
    · intro lane hl
      have inside := (place r hr 0 (by decide) lane hl).1
      rw [here]
      omega
    · intro lane hl
      rw [here, (place r hr 0 (by decide) lane hl).2, Nat.zero_mul, Nat.zero_add]
  have high : ∀ r < 8, Writes size (fun buffer => buffer.storeMasked () (fun lane => 3 < lane)
      (dst + (r % 2 * 2 + 1) * 16 - 4 + r / 2 * 4) 8
        fun lane => some (Component.mk (acc r lane) block)) v fun k x =>
      k = () ∧ ∃ lane < 8, decide (3 < lane) = true ∧
        x = dst + (r % 2 * 2 + 1) * 16 - 4 + r / 2 * 4 + lane := by
    intro r hr
    have here : ∀ lane, 3 < lane → dst + (r % 2 * 2 + 1) * 16 - 4 + r / 2 * 4 + lane =
        dst + ((r % 2 * 2 + 1) * 16 + (r / 2 * 4 + (lane - 4))) := by
      intro lane on
      omega
    refine Fills.storeMasked ?_ ?_
    · intro lane hl on
      have inside := (place r hr 1 (by decide) (lane - 4) (by omega)).1
      rw [here lane (of_decide_eq_true on)]
      omega
    · intro lane hl on
      have above : 1 * 4 + (lane - 4) = lane := by
        have := of_decide_eq_true on
        omega
      rw [here lane (of_decide_eq_true on), (place r hr 1 (by decide) (lane - 4) (by omega)).2, above]
  have stores := (Writes.loop low).seq (Writes.loop high)
  refine stores.weaken (fun _ _ no => no) fun _ x => ?_
  constructor
  · rintro ⟨o, ho, rfl⟩
    have register : o % 16 / 4 * 2 + o / 32 < 8 := by omega
    rcases Nat.lt_or_ge (o / 16 % 2) 1 with even | odd
    · exact .inl ⟨_, register, rfl, o % 4, Nat.mod_lt o (by decide), by omega⟩
    · exact .inr ⟨_, register, rfl, 4 + o % 4, by omega, decide_eq_true (by omega), by omega⟩
  · rintro (⟨r, hr, _, lane, hl, rfl⟩ | ⟨r, hr, _, lane, hl, on, rfl⟩)
    · exact ⟨r % 2 * 2 * 16 + r / 2 * 4 + lane, by omega, by omega⟩
    · have above := of_decide_eq_true on
      exact ⟨(r % 2 * 2 + 1) * 16 + r / 2 * 4 + (lane - 4), by omega, by omega⟩

end Unpack

variable [OfWord F]

/-- One element: each component is scaled by the row, then by the column while it is added. -/
def reducedElement (ops : FloatOps F H) (weight : ℕ → BlockQ40 H) (activation : ℕ → BlockQ80 Word) :
    ℕ → F
  | 0 => ops.zero
  | b+1 => ops.fma (reducedElement ops weight activation b)
      (ops.mul (ops.ofInt (blockSum (weight b) (activation b))) (OfWord.ofWord (activation b).d))
      (ops.widen (weight b).d)

section Loop

variable {ops : FloatOps F H} {rows : ℕ → ℕ → BlockQ80 Word} {columns : ℕ → ℕ → BlockQ40 H}
variable {quantA quantB BlockCountK : ℕ} {memory : M4Memory H F}

variable (ops rows columns) in
/-- The component of block `b` lies in its slot. -/
def HoldsComponent (b : ℕ) (buffer : ReduceInput F) : Prop := ∀ row < 4, ∀ lane < 16,
  buffer.cell () (b % 32 * 64 + (row * 16 + lane)) =
    some ⟨ops.ofInt (blockSum (columns b lane) (rows b row)), b⟩

variable (ops rows columns) in
/-- The first `n` blocks are reduced, each of them once. -/
structure Reduced (n : ℕ) (batch : Batch F) : Prop where
  sums : ∀ row < 4, ∀ lane < 16, batch.acc row lane =
    reducedElement ops (fun b => columns b lane) (fun b => rows b row) n
  reduced : batch.reduced = (List.range n).map fun b => (b % 32, b)

/-- The blocks that are reduced when `bk` blocks are stored. -/
def reducedBlocks (BlockCountK bk : ℕ) : ℕ := if bk = BlockCountK then bk else bk / 32 * 32

variable (ops rows columns) in
structure BatchInvariant (BlockCountK bk : ℕ) (batch : Batch F) : Prop where
  size : batch.buffer.size = (reduceInputBuffer (F := F)).size
  reduced : Reduced ops rows columns (reducedBlocks BlockCountK bk) batch
  waiting : ∀ b, reducedBlocks BlockCountK bk ≤ b → b < bk →
    HoldsComponent ops rows columns b batch.buffer

variable [Inhabited F] [Inhabited H]

theorem reduceComponent_ends {b : ℕ} {batch : Batch F}
    (block : HoldsBlock .staged (quantA + b * 144) (quantB + b) (rows b) (columns b) memory)
    (size : batch.buffer.size = (reduceInputBuffer (F := F)).size)
    (waits : HoldsComponent ops rows columns b batch.buffer)
    (before : Reduced ops rows columns b batch) :
    Ends (reduceComponent ops quantA quantB memory b (b % 32) batch) fun batch' =>
      batch'.buffer = batch.buffer ∧ Reduced ops rows columns (b + 1) batch' := by
  have slot : b % 32 * 4 * 16 = b % 32 * 64 := by omega
  have component : Ends (batch.buffer.fetchLanes () (Component.of b) (b % 32 * 4 * 16) 64)
      fun r => ∀ x < 64, r x = ops.ofInt (blockSum (columns b (x % 16)) (rows b (x / 16))) := by
    rw [slot]
    refine fetchLanes_ends ?_ ?_
    · intro x hx
      rw [size]
      have := Nat.mod_lt b (by decide : 0 < 32)
      change _ < 4 * 16 * 32
      omega
    · intro x hx
      have cell := waits (x / 16) (Nat.div_lt_of_lt_mul hx) (x % 16) (Nat.mod_lt x (by decide))
      rw [Nat.div_add_mod'] at cell
      rw [cell, Component.of_own]
  refine component.bind fun component values => ?_
  refine (fetchLanes_ends (fun lane hl => (block.scales lane hl).1)
    fun lane hl => (block.scales lane hl).2).bind fun bsh scales => ?_
  refine (aScales_ends block).map fun as floats => ⟨rfl, ?_, ?_⟩
  · intro row hr lane hl
    dsimp only
    rw [values _ (Layout.index_lt hr hl), Layout.row hl, Layout.column hl, floats row hr,
      scales lane hl, before.sums row hr lane hl, reducedElement]
  · dsimp only
    rw [before.reduced, List.range_succ, List.map_append, List.map_singleton]

theorem reduction_ends {start count : ℕ} {batch : Batch F} (aligned : start % 32 = 0)
    (few : count ≤ 32)
    (blocks : ∀ b < start + count,
      HoldsBlock .staged (quantA + b * 144) (quantB + b) (rows b) (columns b) memory)
    (size : batch.buffer.size = (reduceInputBuffer (F := F)).size)
    (waiting : ∀ b, start ≤ b → b < start + count → HoldsComponent ops rows columns b batch.buffer)
    (before : Reduced ops rows columns start batch) :
    Ends (forUp (fun rci => reduceComponent ops quantA quantB memory (start + rci) rci) 0 count batch)
      fun batch' => batch'.buffer = batch.buffer ∧ Reduced ops rows columns (start + count) batch' := by
  refine loop_ends (fun rci (batch' : Batch F) => batch'.buffer = batch.buffer ∧
    Reduced ops rows columns (start + rci) batch') ⟨rfl, before⟩ fun rci hr batch' ⟨same, done⟩ => ?_
  have slot : (start + rci) % 32 = rci := by omega
  have inside : start + rci < start + count := Nat.add_lt_add_left hr start
  have waits := waiting (start + rci) (Nat.le_add_right _ _) inside
  rw [← same] at waits
  have step := reduceComponent_ends (blocks _ inside) (by rw [same, size]) waits done
  rw [slot] at step
  exact step.mono fun batch'' ⟨kept, more⟩ => ⟨kept.trans same, more⟩

/-- A block is stored to its slot; the last one of a batch, or of all, has the batch reduced. -/
theorem blockStep_ends {bk : ℕ} {batch : Batch F} (hb : bk < BlockCountK)
    (blocks : ∀ b < BlockCountK,
      HoldsBlock .staged (quantA + b * 144) (quantB + b) (rows b) (columns b) memory)
    (h : BatchInvariant ops rows columns BlockCountK bk batch) :
    Ends (blockStep ops quantA quantB BlockCountK memory bk batch)
      (BatchInvariant ops rows columns BlockCountK (bk + 1)) := by
  have done : reducedBlocks BlockCountK bk = bk / 32 * 32 := if_neg (Nat.ne_of_lt hb)
  have slot : ∀ b, b % kRedBatchSize * 4 * 16 = b % 32 * 64 := by
    intro b
    unfold kRedBatchSize
    omega
  unfold blockStep
  refine (dots_ends (blocks bk hb)).bind fun inner_acc sums => ?_
  have stored : Writes batch.buffer.size (storeUnpack bk
      (fun r lane => ops.ofInt (inner_acc (r / 2) (r % 2 * 8 + lane)))
      (bk % kRedBatchSize * 4 * 16) 16) (fun _ x => some (Component.mk (ops.ofInt (blockSum
        (columns bk (x % 64 % 16)) (rows bk (x % 64 / 16)))) bk))
      (ComponentCells (bk % kRedBatchSize * 4 * 16)) := by
    refine storeUnpack_writes ?_ ?_
    · rw [slot, h.size]
      have := Nat.mod_lt bk (by decide : 0 < 32)
      change _ ≤ 4 * 16 * 32
      omega
    · intro row hr column hc
      have register : (column / 4 * 2 + row / 2) / 2 = column / 4 := by omega
      have lane : (column / 4 * 2 + row / 2) % 2 * 8 + (row % 2 * 4 + column % 4) =
          row * 4 + column % 4 := by omega
      have four := Nat.mod_lt column (by decide : 0 < 4)
      rw [slot, Layout.column (by omega : row * 16 + column < 64), Layout.row hc, Layout.column hc,
        register, lane, sums _ (by omega) _ (by omega), Layout.row four, Layout.column four,
        Nat.div_add_mod']
  refine (stored batch.buffer rfl fun _ _ no => no.elim).bind fun buffer ⟨change, left⟩ => ?_
  have size : buffer.size = (reduceInputBuffer (F := F)).size := change.size.trans h.size
  have waiting : ∀ b, bk / 32 * 32 ≤ b → b < bk + 1 → HoldsComponent ops rows columns b buffer := by
    intro b low high row hr lane hl
    have x : row * 16 + lane < 64 := Layout.index_lt hr hl
    rcases Nat.lt_or_ge b bk with earlier | last
    · rw [change.frame, h.waiting b (by rwa [done]) earlier row hr lane hl]
      rintro ⟨o, ho, same⟩
      rw [slot] at same
      have equal := (Layout.unique x ho same).1
      omega
    · obtain rfl : b = bk := by omega
      rw [left () _ ⟨row * 16 + lane, x, by rw [slot]⟩]
      dsimp only
      rw [Layout.column x, Layout.row hl, Layout.column hl]
  have before := h.reduced
  rw [done] at before
  dsimp only
  split
  · next full =>
      have count : bk + 1 - (if (bk + 1) % kRedBatchSize = 0 then kRedBatchSize
            else (bk + 1) % kRedBatchSize) = bk / 32 * 32 ∧
          (if (bk + 1) % kRedBatchSize = 0 then kRedBatchSize else (bk + 1) % kRedBatchSize) ≤ 32 ∧
          bk / 32 * 32 + (if (bk + 1) % kRedBatchSize = 0 then kRedBatchSize
            else (bk + 1) % kRedBatchSize) = bk + 1 := by
        unfold kRedBatchSize
        split <;> omega
      obtain ⟨start, few, all⟩ := count
      have after : reducedBlocks BlockCountK (bk + 1) = bk + 1 := by
        unfold reducedBlocks
        unfold kRedBatchSize at full
        split <;> omega
      rw [start]
      have kept : Reduced ops rows columns (bk / 32 * 32) { batch with buffer } :=
        ⟨before.sums, before.reduced⟩
      refine Ends.mono (reduction_ends (Nat.mul_mod_left _ _) few ?_ size ?_ kept)
        fun batch' ⟨same, reduced⟩ => ⟨?_, ?_, ?_⟩
      · rw [all]
        intro b inside
        exact blocks b (by omega)
      · rwa [all]
      · rw [same]
        exact size
      · rwa [after, ← all]
      · rw [after]
        intro b low high
        omega
  · next more =>
      have after : reducedBlocks BlockCountK (bk + 1) = bk / 32 * 32 := by
        unfold reducedBlocks
        unfold kRedBatchSize at more
        rw [if_neg fun last => more (.inr last)]
        omega
      refine .some ⟨size, ?_, ?_⟩
      · rw [after]
        exact ⟨before.sums, before.reduced⟩
      · rwa [after]

theorem reduceTile_ends
    (blocks : ∀ b < BlockCountK,
      HoldsBlock .staged (quantA + b * 144) (quantB + b) (rows b) (columns b) memory) :
    Ends (reduceTile ops quantA quantB BlockCountK memory)
      (Reduced ops rows columns BlockCountK) := by
  have start : BatchInvariant ops rows columns BlockCountK 0
      ⟨reduceInputBuffer, fun _ _ => ops.zero, []⟩ := by
    have none : reducedBlocks BlockCountK 0 = 0 := by
      unfold reducedBlocks
      split <;> rfl
    refine ⟨rfl, ?_, fun b _ no => absurd no (Nat.not_lt_zero b)⟩
    rw [none]
    exact ⟨fun _ _ _ _ => rfl, rfl⟩
  have run := loop_ends (BatchInvariant ops rows columns BlockCountK) start
    fun bk (hb : bk < BlockCountK) batch h => blockStep_ends hb blocks h
  refine run.mono fun batch h => ?_
  have all := h.reduced
  rwa [reducedBlocks, if_pos rfl] at all

end Loop

section Exact

variable {α : Type} [Field α] [OfWord α]

theorem reducedElement_exact (weight : ℕ → BlockQ40 α) (activation : ℕ → BlockQ80 Word) (n : ℕ) :
    reducedElement (FloatOps.exact α) weight activation n = product weight
      (fun b => ⟨OfWord.ofWord (activation b).d, (activation b).qs⟩) n := by
  unfold product
  induction n with
  | zero => rfl
  | succ n ih =>
      rw [reducedElement, ih, Finset.sum_range_succ]
      change _ + ((blockSum _ _ : ℤ) : α) * OfWord.ofWord (activation n).d * (weight n).d = _
      rw [blockSum]
      ring

variable {request : Bench.BenchmarkRequest} {operands : Operands Word α}

variable [Inhabited α]

theorem tile_effect (wholeM : request.m / 4 * 4 = request.m)
    (wholeN : request.n / 16 * 16 = request.n) {tile_m tile_n : ℕ} (htm : tile_m < request.m / 4)
    (ht : tile_n < request.n / 16) :
    Effect (m4Size request) (m4Contents (FloatOps.exact α) request operands fun _ => none)
      (M4Operands request .staged)
      (fun memory => (reduceTile (FloatOps.exact α) (tile_m * (request.k / 32) * 144)
        (tile_n * (request.k / 32)) (request.k / 32) memory).bind fun batch =>
        memory.storeRows (.floats .output) (tile_m * 4 * request.n + tile_n * 16) request.n 4 16
          fun row lane => some (batch.acc row lane))
      (m4Contents (FloatOps.exact α) request operands fun _ => none)
      (MatrixTile (.floats .output) request.n 4 16 tile_m tile_n)
      (MatrixTile (.floats .output) request.n 4 16 tile_m tile_n) := by
  have address : ∀ row column, tile_m * 4 * request.n + tile_n * 16 + row * request.n + column =
      (tile_m * 4 + row) * request.n + (tile_n * 16 + column) := by
    intro row column
    ring
  refine Effect.read (fun m sizes holds => reduceTile_ends (tileBlocks sizes holds htm ht))
    fun batch h => ?_
  refine Fills.weaken (A := M4Operands request .staged) (Fills.storeRows ?_ ?_)
    (fun _ _ cell => cell) fun k x => ?_
  · intro row hr lane hl
    rw [address]
    exact Layout.index_lt (tile_column_lt wholeM htm hr) (tile_column_lt wholeN ht hl)
  · intro row hr lane hl
    rw [address, h.sums row hr lane hl, reducedElement_exact]
    change _ = some _
    have inside := tile_column_lt wholeN ht hl
    rw [Layout.row inside, Layout.column inside, partialSum_exact]
    rfl
  · simp only [MatrixTile, address]

theorem run_effect (wholeM : request.m / 4 * 4 = request.m)
    (wholeN : request.n / 16 * 16 = request.n) (iterations : ℕ) :
    Effect (m4Size request) (m4Contents (FloatOps.exact α) request operands fun _ => none)
      (M4Operands request .staged) (run (FloatOps.exact α) request iterations)
      (m4Contents (FloatOps.exact α) request operands fun _ => none)
      (fun k x => 0 < iterations ∧ k = .floats .output ∧ x < request.m * request.n)
      (fun k _ => False ∨ k = .floats .output) := by
  have apart : ∀ k x, M4Operands request .staged k x → ¬ False ∧ k ≠ .floats .output := by
    rintro k x cell
    refine ⟨id, ?_⟩
    rintro rfl
    exact cell
  refine Effect.passes (fun _ _ => ?_) ?_
  · rw [forUp_eq_forEach, ← List.range_eq_range']
    refine Effect.tileRows (N := fun _ _ => False) wholeM (by decide) apart (fun _ => id)
      (List.Perm.refl _) fun tile_m htm => Effect.tileColumns wholeN (by decide) apart (fun _ => id)
        fun tile_n ht m sizes holds => ?_
    exact (tile_effect wholeM wholeN htm ht m sizes holds).mono fun m' ⟨change, left⟩ =>
      ⟨change.mono fun _ _ => .inr, left⟩
  · rintro k x cell (no | rfl)
    · exact no
    · exact cell

/-- The run leaves the product of the blocks, for any number of K blocks. On every tile each block
is reduced once, from the slot that its own component was stored to, with its own scales. -/
theorem m4b_product (request : Bench.BenchmarkRequest) (operands : Operands Word α)
    (fourRowScale : ℕ → ℕ → Word) (supported : (validateShape 4 16 32 request).supported = true)
    {iterations : ℕ} (some_iteration : 1 ≤ iterations) (previous : ℕ → Option α)
    (memory : M4Memory α α) (sizes : memory.size = m4Size request) :
    (Ends ((prepare request operands fourRowScale memory).bind fun memory =>
        run (FloatOps.exact α) request iterations (memory.renew (.floats .output) previous))
      fun memory => ∀ m < request.m, ∀ n < request.n,
        memory.cell (.floats .output) (m * request.n + n) =
          some (product (fun b => operands.weight (n * (request.k / 32) + b))
            ((decoded operands).activation m) (request.k / 32))) ∧
    ∀ tile_m < request.m / 4, ∀ tile_n < request.n / 16,
      Ends ((prepare request operands fourRowScale memory).bind
          (reduceTile (FloatOps.exact α) (tile_m * (request.k / 32) * 144)
            (tile_n * (request.k / 32)) (request.k / 32))) fun batch =>
        batch.reduced = (List.range (request.k / 32)).map fun bk => (bk % 32, bk) := by
  obtain ⟨_, wholeM, wholeN, _⟩ := validateShape_supported supported
  have prepared := prepare_effect (FloatOps.exact α) request operands fourRowScale fun _ => none
  constructor
  · have fresh : Effect (m4Size request) (m4Contents (FloatOps.exact α) request operands fun _ => none)
        (M4Operands request .staged)
        (fun memory => some (memory.renew (.floats .output) previous)) _ _ _ :=
      Effect.renew fun _ cell => cell
    have whole := prepared.seq (fresh.seq (run_effect wholeM wholeN iterations))
    refine (whole memory sizes fun _ _ no => no.elim).mono fun memory ⟨_, left⟩ => ?_
    intro m hm n hn
    rw [left (.floats .output) _ ⟨some_iteration, rfl, Layout.index_lt hm hn⟩]
    change some _ = some _
    rw [Layout.row hn, Layout.column hn, partialSum_exact]
    rfl
  · intro tile_m htm tile_n ht
    refine (prepared memory sizes fun _ _ no => no.elim).bind fun memory ⟨change, left⟩ => ?_
    exact (reduceTile_ends (tileBlocks (change.size.trans sizes) left htm ht)).mono
      fun batch h => h.reduced

end Exact

section Sample

/-- The words as the numbers that they count. -/
local instance : OfWord ℚ := ⟨fun w => w.toNat⟩

/-- 33 blocks: the last batch has one. -/
theorem sample_m4b_product :
    (Ends ((prepare sampleRows variedOperands (fun _ _ => 3)
        (m4Unwritten (m4Size sampleRows))).bind fun memory =>
      run (FloatOps.exact ℚ) sampleRows 2 (memory.renew (.floats .output) fun _ => some 7)) fun memory =>
      memory.cell (.floats .output) 0 = some (-2945228)) ∧
    Ends ((prepare sampleRows variedOperands (fun _ _ => 3)
        (m4Unwritten (m4Size sampleRows))).bind (reduceTile (FloatOps.exact ℚ) 0 0 33)) fun batch =>
      batch.reduced.getLast? = some (0, 32) := by
  have both := m4b_product sampleRows variedOperands
    (fun _ _ => 3) (by decide) (by decide : 1 ≤ 2) (fun _ => some 7)
    (m4Unwritten (m4Size sampleRows)) rfl
  constructor
  · refine both.1.mono fun memory h => ?_
    refine (h 0 (by decide) 0 (by decide)).trans ?_
    decide +kernel
  · refine (both.2 0 (by decide) 0 (by decide)).mono fun batch h => ?_
    rw [h]
    decide

end Sample

end Pfng.Q40.ImmediateReduction.BatchRed
