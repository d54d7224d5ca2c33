import Pfng.Q40.M8bDpu
import Pfng.Q40.Panels

/-! `q4_0-q8_0-IME-m8b-DPU-CB`: unpacked weights and panels of 16 K blocks without padding. -/
namespace Pfng.Q40.BatchReduction
open Checked Ime

variable {F H : Type}

namespace DynPreUnpackCacheBlocking

section Definitions

variable (ops : FloatOps F H) (request : Bench.BenchmarkRequest)

/-- `panel_base = block_k * tiles_m`, `local_blocks` slots to a tile. -/
def layout : PanelLayout (request.m / 8) (request.k / 32) where
  kBlocksPerPanel := 16
  base p := p * 16 * (request.m / 8)
  stride p := min 16 (request.k / 32 - p * 16)
  pos := PanelLayout.pos_16
  base_eq _ := rfl
  fits _ := ⟨Nat.le_refl _, Nat.min_le_left _ _⟩

def chunkTiles (p : ℕ) : ℕ :=
  max 1 (min (request.m / 8) (128 * 1024 / ((layout request).localBlocks p * (8 * 32 + 8 * 4))))

variable [Inhabited F] [Inhabited H]

def loadFrom (rowC : Pointer) (firstKc firstReductionFlush : Bool) : Source :=
  if firstReductionFlush then if firstKc then .zero else .cells rowC else .cells (accPointer .ime1)

def storeTo (rowC : Pointer) (finalReductionFlush : Bool) : Pointer :=
  if finalReductionFlush then rowC else accPointer .ime1

/-- `SQ4BitGemmM8Kernel_CompInt8_ScaleFp16_Impl_Intrin_BatchRed_DynPreUnpack_CacheBlocking`. -/
def kernel (args : Arguments) (baseWQs : ℕ) (rowC : Pointer) (firstKc : Bool)
    (memory : BatchMemory F H) : Option (BatchMemory F H) :=
  batchKernel ops .ime1 .stack (fun bk => unpackedWeights .ime1 (baseWQs + bk * (kNr .ime1 * 32))) args
    (loadFrom rowC firstKc) (storeTo rowC)
    ((memory.renew (.floats .acc) fun _ => none).renew (.components .stack) fun _ => none)

def prepare (operands : Operands F H) (fourRowScale : ℕ → ℕ → F) (memory : BatchMemory F H) :
    Option (BatchMemory F H) :=
  (initializeQ40Ime8 request operands fourRowScale memory).bind (packPanels request (layout request))

/-- The first parallel loop, panel by panel for each tile of columns. -/
def unpackPanels (order : List ℕ) (memory : BatchMemory F H) : Option (BatchMemory F H) :=
  forEach (fun tile_n => forUp (fun p =>
    let block := tile_n * (request.k / 32) + p * (layout request).kBlocksPerPanel
    unpackQ40 (block * 256) (block * 512) ((layout request).localBlocks p)) 0 (layout request).panels)
    order (newUnpacked memory)

def tile (p tile_m tile_n : ℕ) (memory : BatchMemory F H) : Option (BatchMemory F H) :=
  let block_k := p * (layout request).kBlocksPerPanel
  let b_block := tile_n * (request.k / 32) + block_k
  kernel ops (tileArguments .ime1 ((layout request).slot p tile_m 0) b_block
    ((layout request).localBlocks p)) (b_block * (kNr .ime1 * 32)) (cTile request .ime1 tile_m tile_n)
    (block_k = 0) memory

def run (unpacks : Orders ℕ (request.n / 16))
    (orders : BlockedOrders (request.m / 8) (request.n / 16)) (iterations : ℕ) :
    BatchMemory F H → Option (BatchMemory F H) :=
  forUp (fun iteration memory => (unpackPanels request (unpacks.order iteration) memory).bind
    fun memory =>
    (forUp (fun p => chunkedTiles (request.m / 8) (chunkTiles request p)
      (fun chunk => orders.tiles.order (iteration, p, chunk)) (tile ops request p)) 0
      (layout request).panels memory).bind
    (copyOut request .ime1 (orders.copies.order iteration))) 0 iterations

end Definitions

variable {ops : FloatOps F H} {request : Bench.BenchmarkRequest} {operands : Operands F H}
variable {c : ℕ → Option F}

theorem live_lt {s : ℕ} (live : (layout request).Live s) : s < request.m / 8 * (request.k / 32) := by
  obtain ⟨p, hp, tile_m, ht, local_block, hl, rfl⟩ := live
  exact PanelLayout.tight_slot_lt rfl ht hl

def Known (request : Bench.BenchmarkRequest) : Region Buffer := fun k x =>
  operandCells request .ime1 (layout request).Live k x ∨ UnpackedCells request .ime1 k x

theorem known_apart : Apart (Known request) := by
  rintro k x (cell | ⟨rfl, _⟩)
  · exact operands_apart k x cell
  · refine ⟨?_, nofun⟩
    rintro (⟨_, no⟩ | no)
    · cases no
    · cases no

theorem known_packedC {k : Buffer} {x : ℕ} (cell : Known request k x) : k ≠ .floats .packedC := by
  rintro rfl
  rcases cell with cell | ⟨no, _⟩
  · exact cell
  · cases no

variable (ops operands c) in
theorem unpackTile_effect (slots : ℕ) {tile_n : ℕ} (slot : ℕ → ℕ × ℕ) (ht : tile_n < request.n / 16)
    (room : request.n / 16 * (request.k / 32) * 512 ≤ request.n * request.k) :
    Effect (bufferSize request .ime1 slots) (beforeUnpack (contents ops request operands .ime1 slot c))
      (fun k x => PackedBytes request k x ∨
        UnpackedFrom (tile_n * (request.k / 32) * 512) (request.k / 32 * 512) k x)
      (forUp (fun p => unpackQ40
        ((tile_n * (request.k / 32) + p * (layout request).kBlocksPerPanel) * 256)
        ((tile_n * (request.k / 32) + p * (layout request).kBlocksPerPanel) * 512)
        ((layout request).localBlocks p)) 0 (layout request).panels)
      (contents ops request operands .ime1 slot c)
      (UnpackedFrom (tile_n * (request.k / 32) * 512) (request.k / 32 * 512))
      (UnpackedFrom (tile_n * (request.k / 32) * 512) (request.k / 32 * 512)) := by
  have panel : ∀ p < (layout request).panels, Effect (bufferSize request .ime1 slots)
      (beforeUnpack (contents ops request operands .ime1 slot c))
      (fun k x => PackedBytes request k x ∨ UnpackedFrom
        ((tile_n * (request.k / 32) + p * (layout request).kBlocksPerPanel) * 512)
        ((layout request).localBlocks p * 512) k x)
      (unpackQ40 ((tile_n * (request.k / 32) + p * (layout request).kBlocksPerPanel) * 256)
        ((tile_n * (request.k / 32) + p * (layout request).kBlocksPerPanel) * 512)
        ((layout request).localBlocks p)) (contents ops request operands .ime1 slot c)
      (UnpackedFrom ((tile_n * (request.k / 32) + p * (layout request).kBlocksPerPanel) * 512)
        ((layout request).localBlocks p * 512))
      (UnpackedFrom ((tile_n * (request.k / 32) + p * (layout request).kBlocksPerPanel) * 512)
        ((layout request).localBlocks p * 512)) := by
    intro p hp
    refine unpackQ40_effect ops operands slot c slots _ ?_ room
    have row := Nat.mul_le_mul_right (request.k / 32) (Nat.succ_le_of_lt ht)
    rw [Nat.succ_mul] at row
    have inRow := PanelLayout.panel_le (PanelLayout.done_succ hp).2.1
    rw [Nat.add_assoc]
    exact (Nat.add_le_add_left inRow _).trans row
  have before : ∀ p p', p < p' →
      (tile_n * (request.k / 32) + p * (layout request).kBlocksPerPanel) * 512 +
        (layout request).localBlocks p * 512 ≤
      (tile_n * (request.k / 32) + p' * (layout request).kBlocksPerPanel) * 512 := by
    intro p p' lt
    rw [← Nat.add_mul, Nat.add_assoc]
    exact Nat.mul_le_mul_right 512 (Nat.add_le_add_left (PanelLayout.panel_before lt) _)
  have panels := Effect.loopOwn panel fun p p' lt _ => by
    constructor
    · rintro k x (⟨rfl, _⟩ | cell)
      · rintro ⟨no, _⟩
        cases no
      · exact unpackedFrom_apart (before p p' lt) cell
    · exact fun k x cell cell' => unpackedFrom_apart (before p p' lt) cell' cell
  have place : ∀ p < (layout request).panels, ∀ o < (layout request).localBlocks p * 512,
      p * (layout request).kBlocksPerPanel * 512 + o < request.k / 32 * 512 ∧
        (tile_n * (request.k / 32) + p * (layout request).kBlocksPerPanel) * 512 + o =
          tile_n * (request.k / 32) * 512 + (p * (layout request).kBlocksPerPanel * 512 + o) := by
    intro p hp o ho
    have inRow := Nat.mul_le_mul_right 512 (PanelLayout.panel_le (PanelLayout.done_succ hp).2.1)
    rw [Nat.add_mul] at inRow
    exact ⟨(Nat.add_lt_add_left ho _).trans_le inRow, by rw [Nat.add_mul, Nat.add_assoc]⟩
  refine panels.weaken ?_ ?_ ?_
  · rintro k x ⟨p, hp, packed | ⟨rfl, o, ho, rfl⟩⟩
    · exact ⟨.inl packed, rfl⟩
    · obtain ⟨inside, same⟩ := place p hp o ho
      exact ⟨.inr ⟨rfl, _, inside, same⟩, rfl⟩
  · rintro k x ⟨rfl, o, ho, rfl⟩
    obtain ⟨block, hb, rest, hr, rfl⟩ := Layout.lt_iff.mp ho
    obtain ⟨hp, hl⟩ := (layout request).panel_of_block hb
    refine .inl ⟨⟨_, hp, rfl, _, Layout.index_lt hl hr, ?_⟩, rfl⟩
    rw [← Nat.add_assoc, ← Nat.add_mul, ← Nat.add_assoc, ← Nat.add_mul, Nat.add_assoc (tile_n * _),
      Nat.div_add_mod']
  · rintro k x ⟨p, hp, rfl, o, ho, rfl⟩
    obtain ⟨inside, same⟩ := place p hp o ho
    exact ⟨rfl, _, inside, same⟩

theorem unpackPanels_effect {slots : ℕ} {slot : ℕ → ℕ × ℕ} {order : List ℕ} {live : ℕ → Prop}
    (wholeN : request.n / 16 * 16 = request.n) (wholeK : request.k / 32 * 32 = request.k)
    (complete : order.Perm (List.range (request.n / 16))) :
    Effect (bufferSize request .ime1 slots) (contents ops request operands .ime1 slot c)
      (operandCells request .ime1 live) (unpackPanels request order)
      (contents ops request operands .ime1 slot c)
      (fun k x => operandCells request .ime1 live k x ∨ UnpackedCells request .ime1 k x)
      fun k _ => k = .unpacked := by
  have mem : ∀ tile, tile ∈ order ↔ tile < request.n / 16 := by
    intro tile
    rw [complete.mem_iff, List.mem_range]
  have before : ∀ i j, i < j →
      i * (request.k / 32) * 512 + request.k / 32 * 512 ≤ j * (request.k / 32) * 512 := by
    intro i j lt
    rw [← Nat.add_mul, ← Nat.succ_mul]
    exact Nat.mul_le_mul_right 512 (Nat.mul_le_mul_right _ lt)
  have tiles := Effect.forEachOwn (fun tile ht => unpackTile_effect ops operands c slots
    slot ((mem tile).mp ht) (unpacked_room wholeN wholeK).le) (by
      refine (complete.nodup_iff.mpr List.nodup_range).imp fun {i j} other => ?_
      have apart : ∀ k x, UnpackedFrom (i * (request.k / 32) * 512) (request.k / 32 * 512) k x →
          ¬ UnpackedFrom (j * (request.k / 32) * 512) (request.k / 32 * 512) k x := by
        intro k x cell cell'
        rcases Nat.lt_or_gt_of_ne other with lt | gt
        · exact unpackedFrom_apart (before i j lt) cell' cell
        · exact unpackedFrom_apart (before j i gt) cell cell'
      refine ⟨?_, apart⟩
      rintro k x (⟨rfl, _⟩ | cell)
      · rintro ⟨no, _⟩
        cases no
      · exact fun cell' => apart k x cell' cell)
  refine newUnpacked_effect (tiles.weaken ?_ ?_ ?_)
  · rintro k x ⟨_, _, packed | ⟨rfl, _⟩⟩
    · exact ⟨.inl packed, rfl⟩
    · exact ⟨.inr rfl, rfl⟩
  · rintro k x ⟨rfl, inside⟩
    change x < request.n / 16 * (request.k / 32) * 512 at inside
    rw [Nat.mul_assoc] at inside
    obtain ⟨tile, ht, o, ho, rfl⟩ := Layout.lt_iff.mp inside
    exact .inl ⟨⟨tile, (mem tile).mpr ht, rfl, o, ho, by rw [Nat.mul_assoc]⟩, rfl⟩
  · rintro k x ⟨_, _, rfl, _⟩
    rfl

variable [Inhabited F] [Inhabited H]

theorem tile_ends {p tile_m tile_n : ℕ} (wholeN : request.n / 16 * 16 = request.n)
    (wholeK : request.k / 32 * 32 = request.k) (hp : p < (layout request).panels)
    (htm : tile_m < request.m / 8) (ht : tile_n < request.n / 16) {m : BatchMemory F H}
    (sizes : m.size = bufferSize request .ime1 (request.m / 8 * (request.k / 32)))
    (holds : Holds (contents ops request operands .ime1 (layout request).owner c) (Known request) m)
    (held : 0 < p → HoldsTile .ime1 (cTile request .ime1 tile_m tile_n)
      (outputElement ops request operands .ime1 tile_m tile_n ((layout request).done p)) m) :
    Ends (tile ops request p tile_m tile_n m) fun m' =>
      Within (fun k x => Scratch k ∨ TileCells .ime1 (cTile request .ime1 tile_m tile_n) k x) m m' ∧
        HoldsTile .ime1 (cTile request .ime1 tile_m tile_n)
          (outputElement ops request operands .ime1 tile_m tile_n ((layout request).done (p + 1))) m' := by
  obtain ⟨first, some_block, next⟩ := PanelLayout.done_succ hp
  rw [next]
  obtain ⟨change₁, left₁, keeps₁⟩ := renewScratch .ime1 (.floats .acc)
    (fun _ => none) (.inr rfl) known_apart holds
  obtain ⟨change₂, left, keeps₂⟩ := renewScratch .ime1 (.components .stack)
    (fun _ => none) (.inl ⟨_, rfl⟩) known_apart left₁
  have change := change₁.trans change₂
  have sizes' := change.size.trans sizes
  have rows : ∀ last, kNr .ime1 ≤ (storeTo (cTile request .ime1 tile_m tile_n) last).stride := by
    intro last
    cases last with
    | true => exact Nat.le_refl _
    | false => exact Nat.le_refl _
  have bound : ∀ last, ∀ row < kMr .ime1, ∀ column < kNr .ime1,
      (storeTo (cTile request .ime1 tile_m tile_n) last).base +
        row * (storeTo (cTile request .ime1 tile_m tile_n) last).stride + column <
        bufferSize request .ime1 (request.m / 8 * (request.k / 32))
          (.floats (storeTo (cTile request .ime1 tile_m tile_n) last).buffer) := by
    intro last row hr column hc
    cases last with
    | true => exact cTile_bound htm ht row hr column hc
    | false =>
        change 0 + row * kNr .ime1 + column < kMr .ime1 * kNr .ime1
        rw [Nat.zero_add]
        exact Layout.index_lt hr hc
  have apart : ∀ k x, Known request k x →
      ¬ KernelCells .ime1 .stack (storeTo (cTile request .ime1 tile_m tile_n)) k x := by
    rintro k x cell (rfl | ⟨last, rfl, _⟩)
    · exact (known_apart _ x cell).1 (.inl ⟨_, rfl⟩)
    · cases last with
      | true => exact known_packedC cell rfl
      | false => exact (known_apart _ x cell).1 (.inr rfl)
  have supplied : Supplies ops .ime1 (outputElement ops request operands .ime1 tile_m tile_n
      (p * (layout request).kBlocksPerPanel))
      ((m.renew (.floats .acc) fun _ => none).renew (.components .stack) fun _ => none)
      (loadFrom (cTile request .ime1 tile_m tile_n)
        (p * (layout request).kBlocksPerPanel = 0) true) := by
    rcases Nat.eq_zero_or_pos p with rfl | later
    · rw [decide_eq_true (Nat.zero_mul (layout request).kBlocksPerPanel), Nat.zero_mul]
      intro row _ column _
      rfl
    · have some_panel : p * (layout request).kBlocksPerPanel ≠ 0 :=
        (Nat.mul_pos later (layout request).pos).ne'
      rw [decide_eq_false some_panel, ← first]
      exact keeps₂ nofun (keeps₁ nofun (held later))
  have run := tileKernel_ends (p * (layout request).kBlocksPerPanel)
    (loadFrom (cTile request .ime1 tile_m tile_n) (p * (layout request).kBlocksPerPanel = 0))
    (fun bk => unpackedWeights .ime1
      ((tile_n * (request.k / 32) + p * (layout request).kBlocksPerPanel) * (kNr .ime1 * 32) +
        bk * (kNr .ime1 * 32))) sizes' left (fun _ _ => .inl) apart (fun m' sizes' holds' b hb inner hi => by
      have room := (unpacked_room wholeN wholeK).le
      rw [show request.n * request.k = m'.size .unpacked by rw [sizes']; rfl] at room
      exact unpacked_registers .ime1 room (holds'.mono fun _ _ => .inr) ht
        (PanelLayout.panel_le some_block) hb hi)
    ht (PanelLayout.panel_le some_block) some_block (PanelLayout.found hp htm)
    (fun s live => live_lt live) rfl rows (by rwa [sizes']) supplied
  rw [first]
  refine run.mono fun m' ⟨change', tile⟩ => ⟨(change.mono fun _ _ => .inl).trans (change'.mono ?_), tile⟩
  rintro k x (rfl | ⟨last, cell⟩)
  · exact .inl (.inl ⟨_, rfl⟩)
  · cases last with
    | true => exact .inr cell
    | false => exact .inl (.inr cell.1)

theorem run_effect (blocks : 0 < request.k / 32) (wholeM : request.m / 8 * 8 = request.m)
    (wholeN : request.n / 16 * 16 = request.n) (wholeK : request.k / 32 * 32 = request.k)
    (unpacks : Orders ℕ (request.n / 16))
    (orders : BlockedOrders (request.m / 8) (request.n / 16)) (iterations : ℕ) :
    Effect (bufferSize request .ime1 (request.m / 8 * (request.k / 32)))
      (contents ops request operands .ime1 (layout request).owner c)
      (operandCells request .ime1 (layout request).Live) (run ops request unpacks orders iterations)
      (contents ops request operands .ime1 (layout request).owner c)
      (fun k x => 0 < iterations ∧ k = .floats .output ∧ x < request.m * request.n)
      (fun k _ => k = .unpacked ∨ Scratch k ∨ k = .floats .packedC ∨ k = .floats .output) := by
  refine Effect.passes (fun iteration _ =>
    (unpackPanels_effect wholeN wholeK (unpacks.complete iteration)).seq (iteration_effect blocks
      wholeM wholeN (fun _ => Nat.le_max_left _ _) (fun p chunk => orders.tiles.complete _)
      (orders.copies.complete iteration)
      (fun k x cell => ⟨(known_apart k x cell).1, known_packedC cell⟩)
      fun p hp tile_m htm tile_n ht m sizes holds held =>
        tile_ends wholeN wholeK hp htm ht sizes holds held)) ?_
  rintro k x cell (rfl | scratch | rfl | output)
  · exact cell
  · exact (operands_apart k x cell).1 scratch
  · exact cell
  · exact (operands_apart k x cell).2 output

/-- Unpacking by panels and cache blocking change no element of the output. A load never meets an
unpacked byte of an earlier iteration, and the panels have one slot for each tile and K block. -/
theorem blocked_unpacking_output (ops : FloatOps F H) (request : Bench.BenchmarkRequest)
    (operands : Operands F H) (fourRowScale : ℕ → ℕ → F)
    (supported : (validateShape 8 16 32 request).supported = true)
    (plainOrders : Orders ℕ (request.m / 8)) (unpacks : Orders ℕ (request.n / 16))
    (orders : BlockedOrders (request.m / 8) (request.n / 16)) {iterations : ℕ}
    (some_iteration : 1 ≤ iterations) (previous previous' packed : ℕ → Option F)
    (memory memory' : BatchMemory F H)
    (sizes : memory.size = bufferSize request .ime1 (request.m / 8 * (request.k / 32)))
    (sizes' : memory'.size = bufferSize request .ime1 (request.m / 8 * (request.k / 32))) :
    (Ends ((DynPreUnpack.prepare request operands fourRowScale memory).bind fun memory =>
        DynPreUnpack.run ops request plainOrders iterations (memory.renew (.floats .output) previous))
      fun plain => Ends ((prepare request operands fourRowScale memory').bind fun memory =>
          run ops request unpacks orders iterations
            ((memory.renew (.floats .output) previous').renew (.floats .packedC) packed))
        fun blocked => ∀ x < request.m * request.n,
          (plain.cell (.floats .output) x).isSome ∧
            blocked.cell (.floats .output) x = plain.cell (.floats .output) x) ∧
      (∀ iteration, Ends ((prepare request operands fourRowScale memory').bind
        (unpackPanels request (unpacks.order iteration))) fun memory =>
          ∀ x < request.n * request.k, (memory.cell .unpacked x).writes = 1) ∧
      ((List.range (request.m / 8) ×ˢ List.range (request.k / 32)).map fun (tile_m, block) =>
        (layout request).slot (block / 16) tile_m (block % 16)).Perm
        (List.range (request.m / 8 * (request.k / 32))) := by
  obtain ⟨⟨_, _, depth⟩, wholeM, wholeN, wholeK⟩ := validateShape_supported supported
  have blocks : 0 < request.k / 32 := by omega
  have prepared := packed_effect fourRowScale
    (packPanels_fills ops operands (fun _ => none) (layout request) fun s live => live_lt live)
  refine ⟨?_, fun iteration => ?_, PanelLayout.slots_perm fun _ => rfl⟩
  · refine (DynPreUnpack.prepared_run operands fourRowScale supported plainOrders some_iteration
      previous memory sizes).mono fun plain left => ?_
    have output : Effect (bufferSize request .ime1 (request.m / 8 * (request.k / 32)))
        (contents ops request operands .ime1 (layout request).owner fun _ => none)
        (operandCells request .ime1 (layout request).Live)
        (fun memory => some (memory.renew (.floats .output) previous')) _ _ _ :=
      Effect.renew fun _ cell => cell
    have fresh : Effect (bufferSize request .ime1 (request.m / 8 * (request.k / 32)))
        (contents ops request operands .ime1 (layout request).owner fun _ => none)
        (operandCells request .ime1 (layout request).Live)
        (fun memory => some (memory.renew (.floats .packedC) packed)) _ _ _ :=
      Effect.renew fun _ cell => cell
    have later := output.seq (fresh.seq (run_effect blocks wholeM wholeN wholeK unpacks orders iterations))
    refine (prepared.seq later memory' sizes' fun _ _ no => no.elim).mono
      fun blocked ⟨_, left'⟩ => ?_
    intro x hx
    rw [left x hx]
    exact ⟨rfl, left' (.floats .output) x ⟨some_iteration, rfl, hx⟩⟩
  · have whole := prepared.seq (unpackPanels_effect wholeN wholeK (unpacks.complete iteration))
    refine (whole memory' sizes' fun _ _ no => no.elim).mono fun memory ⟨_, left⟩ => ?_
    intro x hx
    rw [← unpacked_room wholeN wholeK] at hx
    rw [left .unpacked x (.inr ⟨rfl, hx⟩)]
    rfl

theorem sample_blocked_unpacking : Ends ((DynPreUnpack.prepare sampleRequest
        variedOperands (fun _ _ => 3)
        (freshMemory (bufferSize sampleRequest .ime1 33))).bind fun memory =>
      DynPreUnpack.run (FloatOps.exact ℚ) sampleRequest (.inOrder ℕ 1) 2
        (memory.renew (.floats .output) fun _ => none))
    fun plain => Ends ((prepare sampleRequest variedOperands
        (fun _ _ => 3) (freshMemory (bufferSize sampleRequest .ime1 33))).bind fun memory =>
          run (FloatOps.exact ℚ) sampleRequest (.inOrder ℕ 1) (.inOrder 1 1) 2
            ((memory.renew (.floats .output) fun _ => some 5).renew (.floats .packedC) fun _ => some 7))
      fun blocked => blocked.cell (.floats .output) 0 = plain.cell (.floats .output) 0 := by
  refine (blocked_unpacking_output (FloatOps.exact ℚ) sampleRequest
    variedOperands (fun _ _ => 3) (by decide) (.inOrder ℕ 1)
    (.inOrder ℕ 1) (.inOrder 1 1) (by decide) (fun _ => none) (fun _ => some 5) (fun _ => some 7)
    (freshMemory (bufferSize sampleRequest .ime1 33))
    (freshMemory (bufferSize sampleRequest .ime1 33)) rfl rfl).1.mono fun plain same => ?_
  exact same.mono fun blocked same => (same 0 (by decide)).2

end DynPreUnpackCacheBlocking

end Pfng.Q40.BatchReduction
