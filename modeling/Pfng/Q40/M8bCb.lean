import Pfng.Q40.Panels

/-! `q4_0-q8_0-IME-m8b-CB`: the kernel of the first generation on panels of 32 K blocks, whose slots
are padded to whole panels. -/
namespace Pfng.Q40.BatchReduction
open Checked Ime

variable {F H : Type}

section Definitions

variable (ops : FloatOps F H) (request : Bench.BenchmarkRequest)

namespace CacheBlocking

/-- `[K panel][M tile][local block]`. -/
def layout : PanelLayout (request.m / 8) (request.k / 32) where
  kBlocksPerPanel := 32
  base p := p * (request.m / 8) * 32
  stride _ := 32
  pos := PanelLayout.pos_32
  base_eq p := by rw [Nat.mul_right_comm]
  fits := PanelLayout.fits_32 request

/-- Slots of `packed_a_qs` and `packed_a_scales`. -/
def slots : ℕ := (layout request).panels * (request.m / 8) * 32

/-- `chunk_tiles`: as many tiles as a panel of their activation fits into `kAChunkBudgetBytes`. -/
def chunkTiles : ℕ := max 1 (min (request.m / 8) (128 * 1024 / (32 * (8 * 32 + 8 * 4))))

variable [Inhabited F] [Inhabited H]

def prepare (operands : Operands F H) (fourRowScale : ℕ → ℕ → F) (memory : BatchMemory F H) :
    Option (BatchMemory F H) :=
  (initializeQ40Ime8 request operands fourRowScale memory).bind (packPanels request (layout request))

/-- One tile of C in one panel. The first panel begins with zeros. -/
def tile (p tile_m tile_n : ℕ) (memory : BatchMemory F H) : Option (BatchMemory F H) :=
  let block_k := p * (layout request).kBlocksPerPanel
  let b_block := tile_n * (request.k / 32) + block_k
  let c_tile := cTile request .ime1 tile_m tile_n
  (if block_k = 0 then
    memory.storeLanes (.floats .packedC) c_tile.base (kMr .ime1 * kNr .ime1) fun _ => some ops.zero
  else some memory).bind
  (m8Kernel ops (tileArguments .ime1 ((layout request).slot p tile_m 0) b_block
    ((layout request).localBlocks p)) (b_block * (kNr .ime1 * 16)) c_tile)

def run (orders : BlockedOrders (request.m / 8) (request.n / 16)) (iterations : ℕ) :
    BatchMemory F H → Option (BatchMemory F H) :=
  forUp (fun iteration memory =>
    (forUp (fun p => chunkedTiles (request.m / 8) (chunkTiles request)
      (fun chunk => orders.tiles.order (iteration, p, chunk)) (tile ops request p)) 0
      (layout request).panels memory).bind
    (copyOut request .ime1 (orders.copies.order iteration))) 0 iterations

end CacheBlocking

end Definitions

namespace CacheBlocking

variable {ops : FloatOps F H} {request : Bench.BenchmarkRequest} {operands : Operands F H}

theorem live_lt {s : ℕ} (live : (layout request).Live s) : s < slots request := by
  obtain ⟨p, hp, tile_m, ht, local_block, hl, rfl⟩ := live
  rw [slots, Nat.mul_assoc, Nat.mul_comm (request.m / 8)]
  exact PanelLayout.slot_lt hp ht hl

variable [Inhabited F] [Inhabited H]

theorem kernel_ends {p tile_m tile_n : ℕ} (hp : p < (layout request).panels)
    (htm : tile_m < request.m / 8) (ht : tile_n < request.n / 16) {m : BatchMemory F H}
    {c : ℕ → Option F} (sizes : m.size = bufferSize request .ime1 (slots request))
    (holds : Holds (contents ops request operands .ime1 (layout request).owner c)
      (operandCells request .ime1 (layout request).Live) m)
    (held : HoldsTile .ime1 (cTile request .ime1 tile_m tile_n)
      (outputElement ops request operands .ime1 tile_m tile_n ((layout request).done p)) m) :
    Ends (m8Kernel ops (tileArguments .ime1 ((layout request).slot p tile_m 0)
        (tile_n * (request.k / 32) + p * (layout request).kBlocksPerPanel)
        ((layout request).localBlocks p))
        ((tile_n * (request.k / 32) + p * (layout request).kBlocksPerPanel) * (kNr .ime1 * 16))
        (cTile request .ime1 tile_m tile_n) m) fun m' =>
      Within (fun k x => Scratch k ∨ TileCells .ime1 (cTile request .ime1 tile_m tile_n) k x) m m' ∧
        HoldsTile .ime1 (cTile request .ime1 tile_m tile_n)
          (outputElement ops request operands .ime1 tile_m tile_n ((layout request).done (p + 1))) m' := by
  obtain ⟨first, some_block, next⟩ := PanelLayout.done_succ hp
  have other : (cTile request .ime1 tile_m tile_n).buffer ≠ .packedA := nofun
  rw [first] at held
  rw [next, first]
  exact m8Kernel_ends sizes holds ht (PanelLayout.panel_le some_block) some_block
    (PanelLayout.found hp htm) (fun s live => live_lt live) other (Nat.le_refl _) held

variable (operands) in
omit [Inhabited F] [Inhabited H] in
theorem zeros_ends {tile_m tile_n : ℕ} (htm : tile_m < request.m / 8) (ht : tile_n < request.n / 16)
    {m : BatchMemory F H} (sizes : m.size = bufferSize request .ime1 (slots request)) :
    Ends (m.storeLanes (.floats .packedC) (cTile request .ime1 tile_m tile_n).base
        (kMr .ime1 * kNr .ime1) fun _ => some ops.zero) fun m' =>
      Within (TileCells .ime1 (cTile request .ime1 tile_m tile_n)) m m' ∧
        HoldsTile .ime1 (cTile request .ime1 tile_m tile_n)
          (outputElement ops request operands .ime1 tile_m tile_n 0) m' := by
  have zeros : Writes (bufferSize request .ime1 (slots request)) (fun memory : BatchMemory F H =>
      memory.storeLanes (.floats .packedC) (cTile request .ime1 tile_m tile_n).base
        (kMr .ime1 * kNr .ime1) fun _ => some ops.zero)
      (contents ops request operands .ime1 (layout request).owner
        (packedSums ops request operands .ime1 0)) _ :=
    Writes.storeLanes (fun lane hl => Layout.index_lt (Layout.index_lt htm ht) hl) fun lane hl => by
      obtain ⟨row, hr, column, hc, rfl⟩ := Layout.lt_iff.mp hl
      have zero : outputElement ops request operands .ime1 tile_m tile_n 0 row column = ops.zero := rfl
      rw [← Nat.add_assoc, ← zero]
      exact (packedSums_tile ht hr hc).symm
  refine (zeros m sizes fun _ _ no => no.elim).mono fun m' ⟨change, left⟩ => ⟨?_, ?_⟩
  · exact change.mono fun _ _ cell => cTile_cells.mpr cell
  · exact holdsTile_of_holds (change.size.trans sizes) left htm ht fun _ _ cell => cTile_cells.mp cell

theorem tile_ends {p tile_m tile_n : ℕ} (hp : p < (layout request).panels)
    (htm : tile_m < request.m / 8) (ht : tile_n < request.n / 16) {m : BatchMemory F H}
    {c : ℕ → Option F} (sizes : m.size = bufferSize request .ime1 (slots request))
    (holds : Holds (contents ops request operands .ime1 (layout request).owner c)
      (operandCells request .ime1 (layout request).Live) m)
    (held : 0 < p → HoldsTile .ime1 (cTile request .ime1 tile_m tile_n)
      (outputElement ops request operands .ime1 tile_m tile_n ((layout request).done p)) m) :
    Ends (tile ops request p tile_m tile_n m) fun m' =>
      Within (fun k x => Scratch k ∨ TileCells .ime1 (cTile request .ime1 tile_m tile_n) k x) m m' ∧
        HoldsTile .ime1 (cTile request .ime1 tile_m tile_n)
          (outputElement ops request operands .ime1 tile_m tile_n ((layout request).done (p + 1))) m' := by
  unfold tile
  dsimp only
  rcases Nat.eq_zero_or_pos p with rfl | later
  · rw [if_pos (Nat.zero_mul _)]
    refine (zeros_ends operands htm ht sizes).bind fun m₁ ⟨change, zeroed⟩ => ?_
    have holds₁ : Holds (contents ops request operands .ime1 (layout request).owner c)
        (operandCells request .ime1 (layout request).Live) m₁ := by
      intro k x cell
      rw [change.frame k x, holds k x cell]
      rintro ⟨rfl, _⟩
      exact cell
    refine (kernel_ends hp htm ht (change.size.trans sizes) holds₁ (by
      rwa [PanelLayout.done_zero])).mono fun m' ⟨change', added⟩ => ⟨?_, added⟩
    exact (change.mono fun _ _ => .inr).trans change'
  · have some_panel : p * (layout request).kBlocksPerPanel ≠ 0 :=
      (Nat.mul_pos later (layout request).pos).ne'
    rw [if_neg some_panel]
    exact kernel_ends hp htm ht sizes holds (held later)

theorem run_effect (blocks : 0 < request.k / 32) (wholeM : request.m / 8 * 8 = request.m)
    (wholeN : request.n / 16 * 16 = request.n)
    (orders : BlockedOrders (request.m / 8) (request.n / 16)) (iterations : ℕ)
    {c : ℕ → Option F} :
    Effect (bufferSize request .ime1 (slots request))
      (contents ops request operands .ime1 (layout request).owner c)
      (operandCells request .ime1 (layout request).Live) (run ops request orders iterations)
      (contents ops request operands .ime1 (layout request).owner c)
      (fun k x => 0 < iterations ∧ k = .floats .output ∧ x < request.m * request.n)
      (fun k _ => Scratch k ∨ k = .floats .packedC ∨ k = .floats .output) := by
  refine Effect.passes (fun iteration _ => iteration_effect blocks wholeM wholeN
    (fun _ => Nat.le_max_left _ _) (fun p chunk => orders.tiles.complete _)
    (orders.copies.complete iteration) ?_ fun p hp tile_m htm tile_n ht m sizes holds held =>
      tile_ends hp htm ht sizes holds held) ?_
  · intro k x cell
    refine ⟨(operands_apart k x cell).1, ?_⟩
    rintro rfl
    exact cell
  · rintro k x cell (scratch | rfl | output)
    · exact (operands_apart k x cell).1 scratch
    · exact cell
    · exact (operands_apart k x cell).2 output

/-- Cache blocking changes no element of the output, and reads nothing that was not written before. -/
theorem cache_blocking_output (ops : FloatOps F H) (request : Bench.BenchmarkRequest)
    (operands : Operands F H) (fourRowScale : ℕ → ℕ → F)
    (supported : (validateShape 8 16 32 request).supported = true)
    (plainOrders : Orders ℕ (request.m / 8))
    (orders : BlockedOrders (request.m / 8) (request.n / 16)) {iterations : ℕ}
    (some_iteration : 1 ≤ iterations) (previous previous' packed : ℕ → Option F)
    (memory memory' : BatchMemory F H)
    (sizes : memory.size = bufferSize request .ime1 (request.m / 8 * (request.k / 32)))
    (sizes' : memory'.size = bufferSize request .ime1 (slots request)) :
    Ends ((prepareIme1 request operands fourRowScale memory).bind fun memory =>
        runIme1 ops request plainOrders iterations (memory.renew (.floats .output) previous))
      fun plain => Ends ((prepare request operands fourRowScale memory').bind fun memory =>
          run ops request orders iterations
            ((memory.renew (.floats .output) previous').renew (.floats .packedC) packed))
        fun blocked => ∀ x < request.m * request.n,
          (plain.cell (.floats .output) x).isSome ∧
            blocked.cell (.floats .output) x = plain.cell (.floats .output) x := by
  obtain ⟨⟨_, _, depth⟩, wholeM, wholeN, wholeK⟩ := validateShape_supported supported
  have blocks : 0 < request.k / 32 := by omega
  refine (prepared_runIme1 operands fourRowScale supported plainOrders some_iteration previous memory
    sizes).mono fun plain left => ?_
  have prepared := packed_effect fourRowScale
    (packPanels_fills ops operands (fun _ => none) (layout request) fun s live => live_lt live)
  have output : Effect (bufferSize request .ime1 (slots request))
      (contents ops request operands .ime1 (layout request).owner fun _ => none)
      (operandCells request .ime1 (layout request).Live)
      (fun memory => some (memory.renew (.floats .output) previous')) _ _ _ :=
    Effect.renew fun _ cell => cell
  have fresh : Effect (bufferSize request .ime1 (slots request))
      (contents ops request operands .ime1 (layout request).owner fun _ => none)
      (operandCells request .ime1 (layout request).Live)
      (fun memory => some (memory.renew (.floats .packedC) packed)) _ _ _ :=
    Effect.renew fun _ cell => cell
  have later := output.seq (fresh.seq (run_effect blocks wholeM wholeN orders iterations))
  refine (prepared.seq later memory' sizes' fun _ _ no => no.elim).mono
    fun blocked ⟨_, left'⟩ => ?_
  intro x hx
  rw [left x hx]
  exact ⟨rfl, left' (.floats .output) x ⟨some_iteration, rfl, hx⟩⟩

theorem sample_cache_blocking :
    Ends ((prepareIme1 sampleRequest variedOperands (fun _ _ => 3)
        (freshMemory (bufferSize sampleRequest .ime1 33))).bind fun memory =>
      runIme1 (FloatOps.exact ℚ) sampleRequest (.inOrder ℕ 1) 1
        (memory.renew (.floats .output) fun _ => none))
      fun plain => Ends ((prepare sampleRequest variedOperands
          (fun _ _ => 3) (freshMemory (bufferSize sampleRequest .ime1 (slots sampleRequest)))).bind
            fun memory => run (FloatOps.exact ℚ) sampleRequest (.inOrder 1 1) 1
              ((memory.renew (.floats .output) fun _ => some 5).renew (.floats .packedC) fun _ => some 7))
        fun blocked => blocked.cell (.floats .output) 0 = plain.cell (.floats .output) 0 := by
  refine (cache_blocking_output (FloatOps.exact ℚ) sampleRequest
    variedOperands (fun _ _ => 3) (by decide) (.inOrder ℕ 1)
    (.inOrder 1 1) (by decide) (fun _ => none) (fun _ => some 5) (fun _ => some 7)
    (freshMemory (bufferSize sampleRequest .ime1 33))
    (freshMemory (bufferSize sampleRequest .ime1 (slots sampleRequest))) rfl rfl).mono fun plain same => ?_
  exact same.mono fun blocked same => (same 0 (by decide)).2

end CacheBlocking

end Pfng.Q40.BatchReduction
