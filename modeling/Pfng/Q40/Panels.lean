import Pfng.Lib.Blocking
import Pfng.Q40.M8bProduct

/-! What the cache-blocking variants share. The K blocks are split into panels, the packed activation
blocks lie panel by panel, and the tiles of C are summed up in a buffer of their own. -/
namespace Pfng.Q40.BatchReduction
open Checked Ime

variable {F H : Type}

/-- Where the activation blocks of `tiles` tiles of rows lie: `base p` is the slot of the first block
of panel `p`, and a tile takes `stride p` slots of it. -/
structure PanelLayout (tiles blocks_k : ℕ) where
  kBlocksPerPanel : ℕ
  base : ℕ → ℕ
  stride : ℕ → ℕ
  pos : 0 < kBlocksPerPanel
  base_eq : ∀ p, base p = p * kBlocksPerPanel * tiles
  fits : ∀ p, min kBlocksPerPanel (blocks_k - p * kBlocksPerPanel) ≤ stride p ∧
    stride p ≤ kBlocksPerPanel

namespace PanelLayout

theorem pos_16 : 0 < 16 := by decide

theorem pos_32 : 0 < 32 := by decide

theorem fits_32 (request : Bench.BenchmarkRequest) (p : ℕ) :
    min 32 (request.k / 32 - p * 32) ≤ 32 ∧ 32 ≤ 32 := ⟨Nat.min_le_left _ _, Nat.le_refl 32⟩

variable {tiles blocks_k : ℕ} (layout : PanelLayout tiles blocks_k)

/-- `for (block_k = 0; block_k < blocks_k; block_k += kBlocksPerPanel)`. -/
def panels : ℕ := chunkCount blocks_k layout.kBlocksPerPanel

/-- `local_blocks`: the last panel may be short. -/
def localBlocks (p : ℕ) : ℕ := min layout.kBlocksPerPanel (blocks_k - p * layout.kBlocksPerPanel)

def slot (p tile local_block : ℕ) : ℕ := layout.base p + tile * layout.stride p + local_block

def owner (s : ℕ) : ℕ × ℕ :=
  let p := s / (layout.kBlocksPerPanel * tiles)
  let rest := s % (layout.kBlocksPerPanel * tiles)
  (rest / layout.stride p, p * layout.kBlocksPerPanel + rest % layout.stride p)

def Live (s : ℕ) : Prop :=
  ∃ p < layout.panels, ∃ tile < tiles, ∃ local_block < layout.localBlocks p,
    s = layout.slot p tile local_block

/-- The blocks in the first `p` panels. -/
def done (p : ℕ) : ℕ := min blocks_k (p * layout.kBlocksPerPanel)

variable {layout}

theorem slot_in_panel {p tile local_block : ℕ} (ht : tile < tiles)
    (hl : local_block < layout.localBlocks p) :
    local_block < layout.stride p ∧
      tile * layout.stride p + local_block < layout.kBlocksPerPanel * tiles := by
  have inside := lt_of_lt_of_le hl (layout.fits p).1
  refine ⟨inside, (Layout.index_lt ht inside).trans_le ?_⟩
  rw [Nat.mul_comm]
  exact Nat.mul_le_mul_right tiles (layout.fits p).2

theorem owner_slot {p tile local_block : ℕ} (ht : tile < tiles)
    (hl : local_block < layout.localBlocks p) :
    layout.owner (layout.slot p tile local_block) =
      (tile, p * layout.kBlocksPerPanel + local_block) := by
  obtain ⟨inTile, inPanel⟩ := slot_in_panel ht hl
  have place : layout.slot p tile local_block =
      p * (layout.kBlocksPerPanel * tiles) + (tile * layout.stride p + local_block) := by
    rw [slot, layout.base_eq, Nat.mul_assoc, Nat.add_assoc]
  rw [owner, place, Layout.row inPanel, Layout.column inPanel, Layout.row inTile, Layout.column inTile]

theorem found {p tile : ℕ} (hp : p < layout.panels) (ht : tile < tiles) :
    ∀ b < layout.localBlocks p, layout.Live (layout.slot p tile 0 + b) ∧
      layout.owner (layout.slot p tile 0 + b) = (tile, p * layout.kBlocksPerPanel + b) := by
  intro b hb
  rw [show layout.slot p tile 0 + b = layout.slot p tile b from rfl]
  exact ⟨⟨p, hp, tile, ht, b, hb, rfl⟩, owner_slot ht hb⟩

theorem block_lt {p local_block : ℕ} (hl : local_block < layout.localBlocks p) :
    p * layout.kBlocksPerPanel + local_block < blocks_k := by
  rw [localBlocks] at hl
  omega

theorem panel_le {p : ℕ} (some_block : 0 < layout.localBlocks p) :
    p * layout.kBlocksPerPanel + layout.localBlocks p ≤ blocks_k := by
  have last := block_lt (Nat.sub_lt some_block Nat.one_pos)
  omega

theorem slot_lt {p tile local_block : ℕ} (hp : p < layout.panels) (ht : tile < tiles)
    (hl : local_block < layout.localBlocks p) :
    layout.slot p tile local_block < layout.panels * (layout.kBlocksPerPanel * tiles) := by
  rw [slot, layout.base_eq, Nat.mul_assoc, Nat.add_assoc]
  exact Layout.index_lt hp (slot_in_panel ht hl).2

theorem panel_lt {p : ℕ} : p < layout.panels ↔ p * layout.kBlocksPerPanel < blocks_k := by
  have pos := layout.pos
  rw [panels, chunkCount, Nat.lt_div_iff_mul_lt pos]
  omega

theorem done_zero : layout.done 0 = 0 := by
  rw [done, Nat.zero_mul, Nat.min_zero]

theorem done_succ {p : ℕ} (hp : p < layout.panels) :
    layout.done p = p * layout.kBlocksPerPanel ∧ 0 < layout.localBlocks p ∧
      layout.done (p + 1) = layout.done p + layout.localBlocks p := by
  have inside := panel_lt.mp hp
  have pos := layout.pos
  unfold done localBlocks
  rw [Nat.succ_mul]
  omega

theorem done_panels : layout.done layout.panels = blocks_k := by
  have all := mt panel_lt.mpr (Nat.lt_irrefl layout.panels)
  rw [done]
  omega

theorem panel_before {p p' : ℕ} (lt : p < p') :
    p * layout.kBlocksPerPanel + layout.localBlocks p ≤ p' * layout.kBlocksPerPanel := by
  have next := Nat.mul_le_mul_right layout.kBlocksPerPanel (Nat.succ_le_of_lt lt)
  rw [Nat.succ_mul] at next
  exact (Nat.add_le_add_left (Nat.min_le_left _ _) _).trans next

theorem panel_of_block {block : ℕ} (hb : block < blocks_k) :
    block / layout.kBlocksPerPanel < layout.panels ∧
      block % layout.kBlocksPerPanel < layout.localBlocks (block / layout.kBlocksPerPanel) := by
  have split := Nat.div_add_mod' block layout.kBlocksPerPanel
  have rest := Nat.mod_lt block layout.pos
  constructor
  · rw [panel_lt]
    omega
  · rw [localBlocks]
    omega

theorem tight_slot_lt {p tile local_block : ℕ} (tight : layout.stride p = layout.localBlocks p)
    (ht : tile < tiles) (hl : local_block < layout.localBlocks p) :
    layout.slot p tile local_block < tiles * blocks_k := by
  have last := panel_le (Nat.zero_lt_of_lt hl)
  calc layout.slot p tile local_block
      = p * layout.kBlocksPerPanel * tiles + (tile * layout.localBlocks p + local_block) := by
        rw [slot, layout.base_eq, tight, Nat.add_assoc]
    _ < p * layout.kBlocksPerPanel * tiles + tiles * layout.localBlocks p :=
        Nat.add_lt_add_left (Layout.index_lt ht hl) _
    _ = tiles * (p * layout.kBlocksPerPanel + layout.localBlocks p) := by ring
    _ ≤ tiles * blocks_k := Nat.mul_le_mul_left tiles last

/-- Without padding every slot is that of one tile and one K block. -/
theorem slots_perm (tight : ∀ p, layout.stride p = layout.localBlocks p) :
    ((List.range tiles ×ˢ List.range blocks_k).map fun (tile, block) =>
      layout.slot (block / layout.kBlocksPerPanel) tile (block % layout.kBlocksPerPanel)).Perm
      (List.range (tiles * blocks_k)) := by
  have found : ∀ tile < tiles, ∀ block < blocks_k,
      layout.owner (layout.slot (block / layout.kBlocksPerPanel) tile
        (block % layout.kBlocksPerPanel)) = (tile, block) := by
    intro tile ht block hb
    rw [owner_slot ht (panel_of_block hb).2, Nat.div_add_mod']
  have once : ((List.range tiles ×ˢ List.range blocks_k).map fun (tile, block) =>
      layout.slot (block / layout.kBlocksPerPanel) tile
        (block % layout.kBlocksPerPanel)).Nodup := by
    refine List.Nodup.map_on ?_ (List.nodup_range.product List.nodup_range)
    rintro ⟨tile, block⟩ mem ⟨tile', block'⟩ mem' same
    rw [List.mem_product, List.mem_range, List.mem_range] at mem mem'
    rw [← found tile mem.1 block mem.2, ← found tile' mem'.1 block' mem'.2]
    exact congrArg layout.owner same
  refine (once.subperm fun s mem => ?_).perm_of_length_le ?_
  · obtain ⟨⟨tile, block⟩, inside, rfl⟩ := List.mem_map.mp mem
    rw [List.mem_product, List.mem_range, List.mem_range] at inside
    exact List.mem_range.mpr (tight_slot_lt (tight _) inside.1 (panel_of_block inside.2).2)
  · rw [List.length_map, List.length_product, List.length_range, List.length_range,
      List.length_range]

theorem panels_pos (blocks : 0 < blocks_k) : 0 < layout.panels := by
  rw [panel_lt, Nat.zero_mul]
  exact blocks

end PanelLayout

section Definitions

variable [Inhabited F] [Inhabited H] (request : Bench.BenchmarkRequest)

/-- The loops of `prepare` over the panels. -/
def packPanels (layout : PanelLayout (request.m / 8) (request.k / 32)) :
    BatchMemory F H → Option (BatchMemory F H) :=
  forUp (fun p => forUp (fun tile_m => forUp (fun local_block memory =>
    let source := tile_m * (request.k / 32) + p * layout.kBlocksPerPanel + local_block
    let destination_block := layout.slot p tile_m local_block
    (copyFloats .staged .packedA (source * 8) (destination_block * 8) 8 memory).bind
      (copyChunks source destination_block))
    0 (layout.localBlocks p)) 0 (request.m / 8)) 0 layout.panels

/-- A tile of `packed_c`. -/
def cTile (unit : MatrixUnit) (tile_m tile_n : ℕ) : Pointer :=
  ⟨.packedC, (tile_m * (request.n / kNr unit) + tile_n) * (kMr unit * kNr unit), kNr unit⟩

def copyOut (unit : MatrixUnit) (order : List ℕ) : BatchMemory F H → Option (BatchMemory F H) :=
  forEach (fun tile_m => forUp (fun tile_n =>
    copyTile unit (cTile request unit tile_m tile_n) (outputPointer request unit tile_m tile_n))
    0 (request.n / kNr unit)) order

end Definitions

/-- The orders in which the threads of a cache-blocking run take their iterations: the tiles of
columns of each iteration, panel and chunk of rows, and the tiles of rows that are copied at last. -/
structure BlockedOrders (rows columns : ℕ) where
  tiles : Orders (ℕ × ℕ × ℕ) columns
  copies : Orders ℕ rows

def BlockedOrders.inOrder (rows columns : ℕ) : BlockedOrders rows columns :=
  ⟨.inOrder _ columns, .inOrder _ rows⟩

section Packing

variable {ops : FloatOps F H} {request : Bench.BenchmarkRequest} {operands : Operands F H}
variable {fourRowScale : ℕ → ℕ → F} {c : ℕ → Option F} {slots : ℕ}
variable {layout : PanelLayout (request.m / 8) (request.k / 32)}

variable (ops operands c layout) in
theorem packPanels_fills [Inhabited F] (room : ∀ s, layout.Live s → s < slots) :
    Fills (bufferSize request .ime1 slots) (contents ops request operands .ime1 layout.owner c)
      (StagedCells request) (packPanels request layout)
      (contents ops request operands .ime1 layout.owner c)
      (fun k x => ∃ s, layout.Live s ∧ SlotCells s k x) := by
  have blocks : ∀ p < layout.panels, ∀ tile_m < request.m / 8,
      ∀ local_block < layout.localBlocks p,
      Fills (bufferSize request .ime1 slots) (contents ops request operands .ime1 layout.owner c)
        (StagedCells request) (fun memory =>
          (copyFloats .staged .packedA
            ((tile_m * (request.k / 32) + p * layout.kBlocksPerPanel + local_block) * 8)
            (layout.slot p tile_m local_block * 8) 8 memory).bind
          (copyChunks (tile_m * (request.k / 32) + p * layout.kBlocksPerPanel + local_block)
            (layout.slot p tile_m local_block)))
        (contents ops request operands .ime1 layout.owner c)
        (SlotCells (layout.slot p tile_m local_block)) := by
    intro p hp tile_m ht local_block hl
    have inRow := PanelLayout.block_lt hl
    have inside := room _ ⟨p, hp, tile_m, ht, local_block, hl, rfl⟩
    have same := PanelLayout.owner_slot ht hl
    have source := Nat.add_assoc (tile_m * (request.k / 32)) (p * layout.kBlocksPerPanel) local_block
    refine (Fills.seq (copyScales_fills source ht inRow inside same)
      (copyChunks_fills source ht inRow inside same) fun k x cell no =>
        absurd (.inr no) (staged_apart cell)).weaken (fun _ _ cell => cell.elim id id) fun k x => ?_
    exact or_comm
  have whole := Fills.loop (fun p hp => Fills.loop (fun tile_m ht => Fills.loop (blocks p hp tile_m ht)
    fun _ _ k x cell => staged_apart cell) (by
      rintro tile_m _ k x cell ⟨_, _, packed⟩
      exact staged_apart cell packed)) (by
    rintro p _ k x cell ⟨_, _, _, _, packed⟩
    exact staged_apart cell packed)
  refine whole.weaken (fun _ _ cell => cell) fun k x => ?_
  constructor
  · rintro ⟨_, ⟨p, hp, tile_m, ht, local_block, hl, rfl⟩, packed⟩
    exact ⟨p, hp, tile_m, ht, local_block, hl, packed⟩
  · rintro ⟨p, hp, tile_m, ht, local_block, hl, packed⟩
    exact ⟨_, ⟨p, hp, tile_m, ht, local_block, hl, rfl⟩, packed⟩

end Packing

section Sums

variable (ops : FloatOps F H) (request : Bench.BenchmarkRequest) (operands : Operands F H)
variable (unit : MatrixUnit)

/-- The tiles of C after their first `n` blocks. -/
def packedSums (n x : ℕ) : Option F :=
  some (outputElement ops request operands unit
    (x / (kMr unit * kNr unit) / (request.n / kNr unit))
    (x / (kMr unit * kNr unit) % (request.n / kNr unit)) n
    (x % (kMr unit * kNr unit) / kNr unit) (x % (kMr unit * kNr unit) % kNr unit))

variable {ops request operands unit} {slot : ℕ → ℕ × ℕ} {slots tile_m tile_n n : ℕ}

theorem packedSums_tile (ht : tile_n < request.n / kNr unit) {row column : ℕ}
    (hr : row < kMr unit) (hc : column < kNr unit) :
    packedSums ops request operands unit n
        ((cTile request unit tile_m tile_n).base + row * kNr unit + column) =
      some (outputElement ops request operands unit tile_m tile_n n row column) := by
  have inside := Layout.index_lt hr hc
  rw [packedSums, cTile, Nat.add_assoc, Layout.row inside, Layout.column inside, Layout.row ht,
    Layout.column ht, Layout.row hc, Layout.column hc]

theorem cTile_bound (htm : tile_m < request.m / kMr unit) (ht : tile_n < request.n / kNr unit) :
    ∀ row < kMr unit, ∀ column < kNr unit,
      (cTile request unit tile_m tile_n).base + row * kNr unit + column <
        bufferSize request unit slots (.floats .packedC) := by
  intro row hr column hc
  rw [cTile, Nat.add_assoc]
  exact Layout.index_lt (Layout.index_lt htm ht) (Layout.index_lt hr hc)

theorem cTile_apart {i j : ℕ × ℕ} (hi : i.2 < request.n / kNr unit) (hj : j.2 < request.n / kNr unit)
    (other : i ≠ j) {k : Buffer} {x : ℕ} (cell : TileCells unit (cTile request unit i.1 i.2) k x) :
    ¬ TileCells unit (cTile request unit j.1 j.2) k x := by
  obtain ⟨_, row, hr, column, hc, rfl⟩ := cell
  rintro ⟨_, row', hr', column', hc', same⟩
  change _ * _ + row * kNr unit + column = _ * _ + row' * kNr unit + column' at same
  rw [Nat.add_assoc, Nat.add_assoc] at same
  have tiles := (Layout.unique (Layout.index_lt hr hc) (Layout.index_lt hr' hc') same).1
  have equal := Layout.unique hi hj tiles
  exact other (Prod.ext equal.1 equal.2)

theorem cTile_cells {k : Buffer} {x : ℕ} : TileCells unit (cTile request unit tile_m tile_n) k x ↔
    k = .floats .packedC ∧ ∃ lane < kMr unit * kNr unit,
      x = (cTile request unit tile_m tile_n).base + lane := by
  constructor
  · rintro ⟨rfl, row, hr, column, hc, rfl⟩
    exact ⟨rfl, _, Layout.index_lt hr hc, Nat.add_assoc _ _ _⟩
  · rintro ⟨rfl, lane, hl, rfl⟩
    obtain ⟨row, hr, column, hc, rfl⟩ := Layout.lt_iff.mp hl
    exact ⟨rfl, row, hr, column, hc, (Nat.add_assoc _ _ _).symm⟩

theorem holdsTile_of_holds {A : Region Buffer} {m : BatchMemory F H}
    (sizes : m.size = bufferSize request unit slots)
    (holds : Holds (contents ops request operands unit slot (packedSums ops request operands unit n)) A m)
    (htm : tile_m < request.m / kMr unit) (ht : tile_n < request.n / kNr unit)
    (known : ∀ k x, TileCells unit (cTile request unit tile_m tile_n) k x → A k x) :
    HoldsTile unit (cTile request unit tile_m tile_n)
      (outputElement ops request operands unit tile_m tile_n n) m := by
  intro row hr column hc
  rw [sizes]
  refine ⟨cTile_bound htm ht row hr column hc, ?_⟩
  refine (holds (.floats .packedC) _ (known _ _ ⟨rfl, row, hr, column, hc, rfl⟩)).trans ?_
  exact packedSums_tile ht hr hc

theorem holds_of_holdsTile {m : BatchMemory F H} (ht : tile_n < request.n / kNr unit)
    (held : HoldsTile unit (cTile request unit tile_m tile_n)
      (outputElement ops request operands unit tile_m tile_n n) m) :
    Holds (contents ops request operands unit slot (packedSums ops request operands unit n))
      (TileCells unit (cTile request unit tile_m tile_n)) m := by
  rintro k x ⟨rfl, row, hr, column, hc, rfl⟩
  refine (held row hr column hc).2.trans ?_
  exact (packedSums_tile ht hr hc).symm

theorem contents_packedC {c c' : ℕ → Option F} {k : Buffer} (other : k ≠ .floats .packedC) (x : ℕ) :
    contents ops request operands unit slot c k x = contents ops request operands unit slot c' k x := by
  cases k with
  | bytes b => cases b <;> rfl
  | floats f =>
      cases f with
      | packedC => exact absurd rfl other
      | staged => rfl
      | packedA => rfl
      | acc => rfl
      | output => rfl
  | scalesB => rfl
  | unpacked => rfl
  | components place => rfl

end Sums

section Pass

variable {ops : FloatOps F H} {request : Bench.BenchmarkRequest} {operands : Operands F H}
variable {unit : MatrixUnit} {slot : ℕ → ℕ × ℕ} {slots : ℕ} {A : Region Buffer}

def PackedC (request : Bench.BenchmarkRequest) (unit : MatrixUnit) : Region Buffer := fun k x =>
  ∃ tile : ℕ × ℕ, (tile.1 < request.m / kMr unit ∧ tile.2 < request.n / kNr unit) ∧
    TileCells unit (cTile request unit tile.1 tile.2) k x

/-- The panels take every tile of C from no block to all of them, whatever the order of the tiles in
a chunk. -/
theorem panels_effect {blocks_k : ℕ} {layout : PanelLayout (request.m / kMr unit) blocks_k}
    {chunk_tiles : ℕ → ℕ} {order : ℕ → ℕ → List ℕ}
    {body : ℕ → ℕ → ℕ → BatchMemory F H → Option (BatchMemory F H)}
    (some_tile : ∀ p, 0 < chunk_tiles p)
    (complete : ∀ p chunk, (order p chunk).Perm (List.range (request.n / kNr unit)))
    (apart : ∀ k x, A k x → ¬ Scratch k ∧ k ≠ .floats .packedC)
    (each : ∀ p < layout.panels, ∀ tile_m < request.m / kMr unit, ∀ tile_n < request.n / kNr unit,
      ∀ m : BatchMemory F H, m.size = bufferSize request unit slots →
      Holds (contents ops request operands unit slot
        (packedSums ops request operands unit (layout.done p))) A m →
      (0 < p → HoldsTile unit (cTile request unit tile_m tile_n)
        (outputElement ops request operands unit tile_m tile_n (layout.done p)) m) →
      Ends (body p tile_m tile_n m) fun m' =>
        Within (fun k x => Scratch k ∨ TileCells unit (cTile request unit tile_m tile_n) k x) m m' ∧
          HoldsTile unit (cTile request unit tile_m tile_n)
            (outputElement ops request operands unit tile_m tile_n (layout.done (p + 1))) m') :
    Effect (bufferSize request unit slots)
      (contents ops request operands unit slot (packedSums ops request operands unit (layout.done 0))) A
      (forUp (fun p => chunkedTiles (request.m / kMr unit) (chunk_tiles p) (order p) (body p)) 0
        layout.panels)
      (contents ops request operands unit slot
        (packedSums ops request operands unit (layout.done layout.panels)))
      (fun k x => A k x ∨ 0 < layout.panels ∧ PackedC request unit k x)
      (fun k x => Scratch k ∨ PackedC request unit k x) := by
  have flat : (fun p => chunkedTiles (request.m / kMr unit) (chunk_tiles p) (order p) (body p)) =
      fun p => forEach (fun tile : ℕ × ℕ => body p tile.1 tile.2)
        (tileVisits (request.m / kMr unit) (chunk_tiles p) (order p)) := by
    funext p
    exact chunkedTiles_eq _ _ _ _
  rw [flat]
  refine Effect.panels (N := fun k _ => Scratch k)
    (S := fun tile => TileCells unit (cTile request unit tile.1 tile.2))
    (v := fun p => contents ops request operands unit slot
      (packedSums ops request operands unit (layout.done p)))
    (fun tile => tile.1 < request.m / kMr unit ∧ tile.2 < request.n / kNr unit)
    (fun p _ => ⟨tileVisits_nodup (complete p), fun tile => mem_tileVisits (some_tile p) (complete p)⟩)
    (fun p k x known => contents_packedC (apart k x known).2 x) ?_ ?_ ?_
  · rintro p hp ⟨tile_m, tile_n⟩ ⟨htm, ht⟩ m sizes holds
    refine (each p hp tile_m htm tile_n ht m sizes (holds.mono fun _ _ => .inl) fun later =>
      holdsTile_of_holds sizes holds htm ht fun _ _ cell => .inr ⟨later, cell⟩).mono
      fun m' ⟨change, tile⟩ => ⟨change, holds_of_holdsTile ht tile⟩
  · intro k x known
    refine ⟨(apart k x known).1, ?_⟩
    rintro tile _ ⟨rfl, _⟩
    exact (apart _ x known).2 rfl
  · rintro i ⟨_, hi⟩ k x cell
    refine ⟨?_, fun j hj other => cTile_apart hi hj.2 other cell⟩
    obtain ⟨rfl, _⟩ := cell
    rintro (⟨_, no⟩ | no)
    · cases no
    · cases no

/-- The last loop leaves the output, in any order of the tiles. -/
theorem copyOut_effect [Inhabited F] {order : List ℕ}
    (wholeM : request.m / kMr unit * kMr unit = request.m)
    (wholeN : request.n / kNr unit * kNr unit = request.n)
    (complete : order.Perm (List.range (request.m / kMr unit))) :
    Effect (bufferSize request unit slots)
      (contents ops request operands unit slot (packedSums ops request operands unit (request.k / 32)))
      (PackedC request unit) (copyOut request unit order)
      (contents ops request operands unit slot (packedSums ops request operands unit (request.k / 32)))
      (fun k x => k = .floats .output ∧ x < request.m * request.n)
      (fun k _ => Scratch k ∨ k = .floats .output) := by
  have apart : Apart (PackedC request unit) := by
    rintro k x ⟨_, _, rfl, _⟩
    refine ⟨?_, nofun⟩
    rintro (⟨_, no⟩ | no)
    · cases no
    · cases no
  refine rows_effect wholeM apart complete fun tile_m htm => columns_effect wholeN apart
    fun tile_n ht m sizes holds => ?_
  have tile := holdsTile_of_holds sizes holds htm ht fun k x cell => ⟨(tile_m, tile_n), ⟨htm, ht⟩, cell⟩
  have other : (cTile request unit tile_m tile_n).buffer ≠
      (outputPointer request unit tile_m tile_n).buffer := nofun
  refine (copyTile_ends tile other ?_ ?_).mono fun m' ⟨change, copied⟩ =>
    ⟨change.mono fun _ _ => .inr, ?_⟩
  · exact row_fits ht
  · rw [sizes]
    exact output_bound wholeM wholeN htm ht
  · exact output_holds wholeN ht copied

theorem iteration_effect [Inhabited F] {layout : PanelLayout (request.m / kMr unit) (request.k / 32)}
    {chunk_tiles : ℕ → ℕ} {order : ℕ → ℕ → List ℕ} {copies : List ℕ}
    {body : ℕ → ℕ → ℕ → BatchMemory F H → Option (BatchMemory F H)} {c : ℕ → Option F}
    (blocks : 0 < request.k / 32) (wholeM : request.m / kMr unit * kMr unit = request.m)
    (wholeN : request.n / kNr unit * kNr unit = request.n) (some_tile : ∀ p, 0 < chunk_tiles p)
    (complete : ∀ p chunk, (order p chunk).Perm (List.range (request.n / kNr unit)))
    (copied : copies.Perm (List.range (request.m / kMr unit)))
    (apart : ∀ k x, A k x → ¬ Scratch k ∧ k ≠ .floats .packedC)
    (each : ∀ p < layout.panels, ∀ tile_m < request.m / kMr unit, ∀ tile_n < request.n / kNr unit,
      ∀ m : BatchMemory F H, m.size = bufferSize request unit slots →
      Holds (contents ops request operands unit slot
        (packedSums ops request operands unit (layout.done p))) A m →
      (0 < p → HoldsTile unit (cTile request unit tile_m tile_n)
        (outputElement ops request operands unit tile_m tile_n (layout.done p)) m) →
      Ends (body p tile_m tile_n m) fun m' =>
        Within (fun k x => Scratch k ∨ TileCells unit (cTile request unit tile_m tile_n) k x) m m' ∧
          HoldsTile unit (cTile request unit tile_m tile_n)
            (outputElement ops request operands unit tile_m tile_n (layout.done (p + 1))) m') :
    Effect (bufferSize request unit slots) (contents ops request operands unit slot c) A
      (fun memory => (forUp (fun p => chunkedTiles (request.m / kMr unit) (chunk_tiles p) (order p)
        (body p)) 0 layout.panels memory).bind (copyOut request unit copies))
      (contents ops request operands unit slot c)
      (fun k x => k = .floats .output ∧ x < request.m * request.n)
      (fun k _ => Scratch k ∨ k = .floats .packedC ∨ k = .floats .output) := by
  have sums := panels_effect some_tile complete apart each
  rw [PanelLayout.done_panels] at sums
  have copy : Effect (bufferSize request unit slots)
      (contents ops request operands unit slot (packedSums ops request operands unit (request.k / 32)))
      (fun k x => A k x ∨ 0 < layout.panels ∧ PackedC request unit k x) (copyOut request unit copies)
      (contents ops request operands unit slot (packedSums ops request operands unit (request.k / 32)))
      _ _ :=
    (copyOut_effect wholeM wholeN copied).weaken
      (fun _ _ cell => ⟨.inr ⟨PanelLayout.panels_pos blocks, cell⟩, rfl⟩)
      (fun _ _ cell => .inl ⟨cell, rfl⟩) fun _ _ cell => cell
  refine (sums.seq copy).weaken ?_ ?_ ?_
  · intro k x cell
    exact ⟨cell, contents_packedC (apart k x cell).2 x⟩
  · rintro k x ⟨rfl, inside⟩
    exact .inl ⟨⟨rfl, inside⟩, rfl⟩
  · rintro k x ((scratch | ⟨_, _, rfl, _⟩) | scratch | rfl)
    · exact .inl scratch
    · exact .inr (.inl rfl)
    · exact .inl scratch
    · exact .inr (.inr rfl)

end Pass

def sampleRequest : Bench.BenchmarkRequest := ⟨8, 16, 1056, 0, 1, 1, 1, 0, 0, true, []⟩

end Pfng.Q40.BatchReduction
