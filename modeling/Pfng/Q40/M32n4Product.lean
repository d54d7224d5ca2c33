import Mathlib.Data.Rat.Floor
import Pfng.Q40.HalfRun
import Pfng.Q40.M32n4

/-! A call stores the components of at most eight blocks, since that is the length of a panel of K;
the rows of its tile are then added to, block after block. -/
namespace Pfng.Q40.M32n4
open Checked Ime BatchReduction HalfBlocks

variable {F H : Type}

section Components

variable {scale : H → H} {a b blockCount : ℕ} {memory : HalfMemory F H}

theorem accumulators_ends {blockA blockB : ℕ} {row : ℕ → BlockQ80 H} {column : ℕ → BlockQ40 H}
    (block : HoldsBlock scale 8 4 blockA blockB row column memory) :
    Ends (accumulators blockA blockB memory) fun acc => ∀ index < 8, ∀ lane < 16,
      acc index lane = blockSum (column (lane % 4)) (row (index * 4 + lane / 4)) := by
  have weights : ∀ inner < 2, Ends
      (memory.fetchLanes .quantsB id (blockB * 64 + inner * kBytesPerVector) kBytesPerVector) fun packed =>
        ∀ lane < 32, packed lane = packedByte .ime1 (column (lane / 8)) (inner * 16 + lane % 8) := by
    intro inner hi
    have cell : ∀ lane < 32, blockB * 64 + inner * 32 + lane < memory.size .quantsB ∧
        memory.cell .quantsB (blockB * 64 + inner * 32 + lane) =
          some (packedByte .ime1 (column (lane / 8)) (inner * 16 + lane % 8)) := by
      intro lane hl
      have byte := block.quantsB (inner * (4 * 8) + lane) (by omega)
      have rest : lane < 4 * 8 := hl
      rwa [weightPair, Layout.row rest, Layout.column rest, ← Nat.add_assoc] at byte
    exact fetchLanes_ends (fun lane hl => (cell lane hl).1) fun lane hl => (cell lane hl).2
  have quants : ∀ inner < 2, ∀ half < 2, Ends (memory.fetchRows .quantsA id
      (blockA * 1024 + (inner * 64 + half * 32)) (4 * 32) 8 kBytesPerVector) fun activation =>
        ∀ index < 8, ∀ lane < 32, activation index lane =
          (row (index * 4 + lane / 8)).qs (inner * 16 + (half * 8 + lane % 8)) := by
    intro inner hi half hh
    have cell : ∀ index < 8, ∀ lane < 32,
        blockA * 1024 + (inner * 64 + half * 32) + index * 128 + lane < memory.size .quantsA ∧
        memory.cell .quantsA (blockA * 1024 + (inner * 64 + half * 32) + index * 128 + lane) =
          some ((row (index * 4 + lane / 8)).qs (inner * 16 + (half * 8 + lane % 8))) := by
      intro index hindex lane hl
      have rest : inner * 64 + half * 32 + lane < 128 := by omega
      have byte := block.quantsA (index * 128 + (inner * 64 + half * 32 + lane))
        (Layout.index_lt (m := 8) hindex rest)
      have inRow : (inner * 64 + half * 32 + lane) % 32 / 8 = lane / 8 := by omega
      have depth : (inner * 64 + half * 32 + lane) / 32 * 8 + (inner * 64 + half * 32 + lane) % 8 =
          inner * 16 + (half * 8 + lane % 8) := by omega
      rw [quantByte, Layout.row rest, Layout.column rest, inRow, depth] at byte
      rwa [show blockA * 1024 + (inner * 64 + half * 32) + index * 128 + lane =
        blockA * (8 * 128) + (index * 128 + (inner * 64 + half * 32 + lane)) by omega]
    exact fetchRows_ends (fun index hindex lane hl => (cell index hindex lane hl).1)
      fun index hindex lane hl => (cell index hindex lane hl).2
  have run : Ends (accumulators blockA blockB memory) fun acc =>
      ∀ index < 8, Windows (fun r => row (index * 4 + r)) column 2 (acc index) := by
    refine loop_ends (fun inner (acc : ℕ → ℕ → ℤ) =>
      ∀ index < 8, Windows (fun r => row (index * 4 + r)) column inner (acc index))
      (fun index _ => .zero) fun inner hi acc before => ?_
    have low := quants inner hi 0 (by decide)
    have high := quants inner hi 1 (by decide)
    simp only [Nat.zero_mul, Nat.one_mul, Nat.zero_add, Nat.add_zero, ← Nat.add_assoc] at low high
    refine (weights inner hi).bind fun packed weight => ?_
    unfold kBytesPerVector
    rw [Nat.mul_assoc]
    refine low.bind fun activation_low first => ?_
    refine high.map fun activation_high second => ?_
    intro index hindex
    refine (before index hindex).next ⟨first index hindex, ?_, weight⟩
    intro lane hl
    rw [second index hindex lane hl, Nat.add_assoc]
  exact run.mono fun acc windows index hindex lane hl => (windows index hindex).sum hl

variable {rows : ℕ → ℕ → BlockQ80 H} {columns : ℕ → ℕ → BlockQ40 H}

variable (rows columns) in
def componentContents : Contents Unit fun _ => Option ℤ := fun _ x =>
  some (blockSum (columns (x / 128) (x % 128 % 4)) (rows (x / 128) (x % 128 / 4)))

theorem blockComponents_writes {block : ℕ} (few : block < 8)
    (held : HoldsBlock scale 8 4 (a + block) (b + block) (rows block) (columns block) memory) :
    Writes (newComponents (kMr * kNr * 8)).size (blockComponents a b memory block)
      (componentContents rows columns) fun _ x => ∃ o < 128, x = block * 128 + o := by
  intro components sizes none
  refine (accumulators_ends held).bind fun acc sums => ?_
  have place : ∀ index < 8, ∀ lane < 16, index * 16 + lane < 128 ∧ (index * 16 + lane) % 4 = lane % 4 ∧
      (index * 16 + lane) / 4 = index * 4 + lane / 4 := by
    intro index hindex lane hl
    omega
  have stores : Writes (newComponents (kMr * kNr * 8)).size (forUp (fun index components =>
      components.storeLanes () (block * (kMr * kNr) + index * 16) 16 fun lane => some (acc index lane))
      0 8) (componentContents rows columns) _ := Writes.loop fun index hindex => Writes.storeLanes
    (fun lane hl => by
      obtain ⟨inside, _⟩ := place index hindex lane hl
      rw [Nat.add_assoc]
      exact Layout.index_lt (m := 8) few inside)
    fun lane hl => by
      obtain ⟨inside, column, row⟩ := place index hindex lane hl
      rw [Nat.add_assoc, componentContents, sums index hindex lane hl]
      change _ = some (blockSum (columns ((block * 128 + _) / 128) ((block * 128 + _) % 128 % 4))
        (rows ((block * 128 + _) / 128) ((block * 128 + _) % 128 / 4)))
      rw [Layout.row inside, Layout.column inside, column, row]
  refine stores.weaken (fun _ _ no => no) (fun _ x => ?_) components sizes none
  constructor
  · rintro ⟨o, ho, rfl⟩
    exact ⟨o / 16, by omega, rfl, o % 16, by omega, by change _ = block * 128 + _ + _; omega⟩
  · rintro ⟨index, hindex, _, lane, hl, rfl⟩
    exact ⟨index * 16 + lane, (place index hindex lane hl).1, Nat.add_assoc _ _ _⟩

theorem components_ends (few : blockCount ≤ 8)
    (blocks : ∀ block < blockCount,
      HoldsBlock scale 8 4 (a + block) (b + block) (rows block) (columns block) memory) :
    Ends (forUp (blockComponents a b memory) 0 blockCount (newComponents (kMr * kNr * 8)))
      fun components => components.size = (newComponents (kMr * kNr * 8)).size ∧
        ∀ block < blockCount, ∀ row < 32, ∀ lane < 4,
          components.cell () (block * 128 + (row * 4 + lane)) =
            some (blockSum (columns block lane) (rows block row)) := by
  have stores : Writes (newComponents (kMr * kNr * 8)).size (forUp (blockComponents a b memory) 0 blockCount)
      (componentContents rows columns) _ := Writes.loop fun block hb =>
    blockComponents_writes (Nat.lt_of_lt_of_le hb few) (blocks block hb)
  refine (stores _ rfl fun _ _ no => no.elim).mono fun components ⟨change, left⟩ => ⟨change.size, ?_⟩
  intro block hb row hr lane hl
  have inside : row * 4 + lane < 128 := Layout.index_lt (m := 32) hr hl
  rw [left () _ ⟨block, hb, _, inside, rfl⟩, componentContents, Layout.row inside, Layout.column inside,
    Layout.row hl, Layout.column hl]

end Components

section Tile

variable {ops : FloatOps F H} {request : Bench.BenchmarkRequest} {operands : Operands H H}

variable (request) in
/-- The K blocks in panels of eight. -/
def panels : PanelLayout (request.m / (8 * 4)) (request.k / 32) where
  kBlocksPerPanel := 8
  base p := p * 8 * (request.m / (8 * 4))
  stride _ := 8
  pos := by decide
  base_eq _ := rfl
  fits _ := ⟨Nat.min_le_left _ _, Nat.le_refl 8⟩

variable (ops operands request) in
/-- An element of the output after the first `n` blocks. -/
def sumAt (tile : ℕ × ℕ) (n row lane : ℕ) : F :=
  (halfOperands ops id operands).partialSum ops request (tile.1 * (8 * 4) + row) (tile.2 * 4 + lane) n

variable (request) in
def RowNeeds (tile : ℕ × ℕ) (row : ℕ) : Region HalfBuffer := fun k x =>
  HalfOperands request 8 4 k x ∨ TileRow .output request.n (8 * 4) 4 tile.1 tile.2 row k x

/-- The components of the blocks of panel `p`, as a call stores them. -/
def Stored (request : Bench.BenchmarkRequest) (operands : Operands H H) (p : ℕ) (tile : ℕ × ℕ)
    (components : Components) : Prop :=
  components.size = (newComponents (kMr * kNr * 8)).size ∧
    ∀ block < (panels request).localBlocks p, ∀ row < 32, ∀ lane < 4,
      components.cell () (block * 128 + (row * 4 + lane)) =
        some (blockSum (tileColumns request operands 4 tile.2 (p * 8 + block) lane)
          (tileRows operands 8 tile.1 (p * 8 + block) row))

variable (operands) in
theorem tileBlocks {p : ℕ} {tile : ℕ × ℕ} (ht : Tiles request 8 4 tile) {v : ℕ → Option F}
    {m : HalfMemory F H} (sizes : m.size = halfSize request 8 4)
    (holds : Holds (halfContents request operands id 8 4 (fun _ => none) v) (HalfOperands request 8 4) m) :
    ∀ block < (panels request).localBlocks p, HoldsBlock id 8 4
      (tile.1 * (request.k / 32) + p * 8 + block) (tile.2 * (request.k / 32) + p * 8 + block)
      (tileRows operands 8 tile.1 (p * 8 + block)) (tileColumns request operands 4 tile.2 (p * 8 + block))
      m := by
  intro block hb
  rw [Nat.add_assoc, Nat.add_assoc]
  exact holdsBlock_of_holds sizes holds ht.1 ht.2 (PanelLayout.block_lt hb)

theorem addBlocks_ends [Inhabited H] {p : ℕ} (hp : p < (panels request).panels) {tile : ℕ × ℕ}
    {components : Components} (stored : Stored request operands p tile components)
    {m : HalfMemory F H} (blocks : ∀ block < (panels request).localBlocks p, HoldsBlock id 8 4
      (tile.1 * (request.k / 32) + p * 8 + block) (tile.2 * (request.k / 32) + p * 8 + block)
      (tileRows operands 8 tile.1 (p * 8 + block)) (tileColumns request operands 4 tile.2 (p * 8 + block))
      m) {row : ℕ} (hr : row < 32) {output : ℕ → F}
    (before : ∀ lane < 4,
      output lane = sumAt ops request operands tile ((panels request).done p) row lane) :
    Ends (addBlocks ops (tile.1 * (request.k / 32) + p * 8) (tile.2 * (request.k / 32) + p * 8)
        ((panels request).localBlocks p) components row m output) fun output =>
      ∀ lane < 4, output lane = sumAt ops request operands tile ((panels request).done (p + 1)) row lane := by
  obtain ⟨size, sum⟩ := stored
  obtain ⟨done, _, next⟩ := PanelLayout.done_succ hp
  have few : (panels request).localBlocks p ≤ 8 := Nat.min_le_left _ _
  rw [next]
  refine loop_ends (fun i (output : ℕ → F) => ∀ lane < 4, output lane =
    sumAt ops request operands tile ((panels request).done p + i) row lane) before
    fun i hi output sums => ?_
  have slot : ∀ lane < 4, i * 128 + row * 4 + lane = i * 128 + (row * 4 + lane) ∧
      i * 128 + (row * 4 + lane) < 1024 := by
    intro lane hl
    omega
  refine (fetchLanes_ends (fun lane hl => ((blocks i hi).scalesB lane hl).1)
    fun lane hl => ((blocks i hi).scalesB lane hl).2).bind fun weight_scale scaleB => ?_
  have component : Ends (components.fetchLanes () id (i * 128 + row * 4) 4) fun component =>
      ∀ lane < 4, component lane = blockSum (tileColumns request operands 4 tile.2 (p * 8 + i) lane)
        (tileRows operands 8 tile.1 (p * 8 + i) row) := by
    refine fetchLanes_ends ?_ ?_
    · intro lane hl
      rw [(slot lane hl).1, size]
      exact (slot lane hl).2
    · intro lane hl
      rw [(slot lane hl).1]
      exact sum i hi row hr lane hl
  refine component.bind fun component sum => ?_
  obtain ⟨bound, scaleA⟩ := (blocks i hi).scalesA row hr
  have loaded : m.load .scalesA ((tile.1 * (request.k / 32) + p * 8 + i) * kMr + row) =
      some (some (tileRows operands 8 tile.1 (p * 8 + i) row).d) :=
    (if_pos bound).trans (congrArg some scaleA)
  rw [loaded]
  refine .some ?_
  intro lane hl
  dsimp only
  rw [sum lane hl, scaleB lane hl, sums lane hl, done]
  rfl

variable [Inhabited F] [Inhabited H]

variable (ops request) in
/-- The call for a tile in panel `p`. -/
def tileKernel (p : ℕ) (tile : ℕ × ℕ) : HalfMemory F H → Option (HalfMemory F H) :=
  m32n4Kernel ops (tile.1 * (request.k / 32) + p * 8) (tile.2 * (request.k / 32) + p * 8)
    (tile.1 * kMr * request.n + tile.2 * 4) ((panels request).localBlocks p) request.n

theorem reduceRow_effect (wholeM : request.m / (8 * 4) * (8 * 4) = request.m)
    (wholeN : request.n / 4 * 4 = request.n) {p : ℕ} (hp : p < (panels request).panels)
    {tile : ℕ × ℕ} (ht : Tiles request 8 4 tile) {components : Components}
    (stored : Stored request operands p tile components) {row : ℕ} (hr : row < 8 * 4) :
    Effect (halfSize request 8 4) (sumContents ops id request operands 8 4 ((panels request).done p))
      (RowNeeds request tile row)
      (reduceRow ops (tile.1 * (request.k / 32) + p * 8) (tile.2 * (request.k / 32) + p * 8)
        (tile.1 * kMr * request.n + tile.2 * 4) ((panels request).localBlocks p) request.n components row)
      (sumContents ops id request operands 8 4 ((panels request).done (p + 1)))
      (TileRow .output request.n (8 * 4) 4 tile.1 tile.2 row)
      (TileRow .output request.n (8 * 4) 4 tile.1 tile.2 row) := by
  have address : tile.1 * kMr * request.n + tile.2 * 4 + row * request.n =
      (tile.1 * (8 * 4) + row) * request.n + tile.2 * 4 := by
    change tile.1 * (8 * 4) * request.n + tile.2 * 4 + row * request.n = _
    ring
  have inside : ∀ lane < 4, tile.2 * 4 + lane < request.n := fun lane hl =>
    tile_column_lt wholeN ht.2 hl
  have room : ∀ lane < 4, (tile.1 * (8 * 4) + row) * request.n + (tile.2 * 4 + lane) <
      request.m * request.n := fun lane hl => Layout.index_lt (tile_column_lt wholeM ht.1 hr) (inside lane hl)
  have cell : ∀ n, ∀ lane < 4, sumContents ops id request operands 8 4 n .output
      ((tile.1 * (8 * 4) + row) * request.n + (tile.2 * 4 + lane)) =
        some (sumAt ops request operands tile n row lane) := by
    intro n lane hl
    change sums _ _ _ _ _ _ = _
    rw [sums, Layout.row (inside lane hl), Layout.column (inside lane hl)]
    rfl
  refine Effect.read (P := fun output => ∀ lane < 4,
    output lane = sumAt ops request operands tile ((panels request).done p) row lane) ?_ fun output before =>
    Effect.read (fun m sizes holds => addBlocks_ends hp stored
      (tileBlocks operands ht sizes (holds.mono fun _ _ => .inl)) hr before) fun output after => ?_
  · intro m sizes holds
    rw [address]
    refine fetchLanes_ends ?_ ?_
    · intro lane hl
      rw [Nat.add_assoc, sizes]
      exact room lane hl
    · intro lane hl
      rw [Nat.add_assoc, holds .output _ (.inr ⟨rfl, lane, hl, rfl⟩), cell _ lane hl]
      rfl
  · rw [address]
    refine Writes.fills (Writes.storeTileRow (by rfl) room ?_)
    intro lane hl
    exact (congrArg some (after lane hl)).trans (cell _ lane hl).symm

variable (ops operands) in
theorem tileKernel_effect (wholeM : request.m / (8 * 4) * (8 * 4) = request.m)
    (wholeN : request.n / 4 * 4 = request.n) {p : ℕ} (hp : p < (panels request).panels)
    {tile : ℕ × ℕ} (ht : Tiles request 8 4 tile) :
    Effect (halfSize request 8 4) (sumContents ops id request operands 8 4 ((panels request).done p))
      (fun k x => HalfOperands request 8 4 k x ∨ True ∧ OutputTile request 8 4 tile k x)
      (tileKernel ops request p tile)
      (sumContents ops id request operands 8 4 ((panels request).done (p + 1)))
      (OutputTile request 8 4 tile) (OutputTile request 8 4 tile) := by
  intro m sizes holds
  have few : (panels request).localBlocks p ≤ 8 := Nat.min_le_left _ _
  refine (components_ends few (tileBlocks operands ht sizes
    (holds.mono fun _ _ => .inl))).bind fun components stored => ?_
  refine (Effect.tile (fun lane hl => tile_column_lt wholeN ht.2 hl)
    (fun row hr => reduceRow_effect wholeM wholeN hp ht stored hr) ?_) m sizes (holds.mono ?_)
  · rintro row hr k x (operand | own) rfl
    · exact operand.elim
    · exact own
  · rintro k x ⟨row, hr, operand | ⟨rfl, lane, hl, rfl⟩⟩
    · exact .inl operand
    · exact .inr ⟨trivial, rfl, row, hr, lane, hl, rfl⟩

end Tile

section Run

variable {ops : FloatOps F H} {request : Bench.BenchmarkRequest} {operands : Operands H H}
variable [Inhabited F] [Inhabited H]

variable (request) in
def panelOrder : List (ℕ × ℕ) :=
  (tileVisits (request.n / 4) 128 fun _ => List.range (request.m / 32)).map Prod.swap

/-- The blocked loops take every tile once. -/
theorem runPanel_eq (wholeM : request.m / 32 * 32 = request.m) (wholeN : request.n / 4 * 4 = request.n)
    (p : ℕ) : runPanel ops request (p * kKcBlocks) =
      forEach (tileKernel ops request p) (panelOrder request) := by
  have chunks : chunkCount request.n kNc = chunkCount (request.n / 4) 128 := by
    unfold chunkCount kNc
    omega
  have rows : chunkCount request.m kMr = request.m / 32 := by
    unfold chunkCount kMr
    omega
  have flat := chunkedTiles_eq (request.n / 4) 128 (fun _ => List.range (request.m / 32))
    fun tile_n tile_m => tileKernel ops request p (tile_m, tile_n)
  unfold panelOrder
  rw [forEach_map]
  refine Eq.trans ?_ flat
  unfold runPanel chunkedTiles
  dsimp only
  rw [chunks, rows]
  refine congrArg (forUp · 0 _) (funext fun chunk => ?_)
  rw [List.range_eq_range', ← forUp_eq_forEach]
  refine congrArg (forUp · 0 _) (funext fun tile_m => ?_)
  have columns : chunkCount (min kNc (request.n - chunk * kNc)) 4 =
      min (request.n / 4) (chunk * 128 + 128) - chunk * 128 := by
    unfold chunkCount kNc
    omega
  rw [columns, forUp_shift _ (chunk * 128)]
  congr 1
  funext tile
  have first : chunk * kNc + tile * 4 = (chunk * 128 + tile) * 4 := by
    unfold kNc
    omega
  rw [first, Nat.mul_div_cancel _ (by decide : 0 < 4)]
  rfl

theorem iteration_effect (wholeM : request.m / (8 * 4) * (8 * 4) = request.m)
    (wholeN : request.n / 4 * 4 = request.n) :
    Effect (halfSize request 8 4) (sumContents ops id request operands 8 4 0) (HalfOperands request 8 4)
      (fun memory => (memory.fill .output (request.m * request.n) (some ops.zero)).bind
        (forUp (fun panel => runPanel ops request (panel * kKcBlocks)) 0
          (chunkCount (request.k / 32) kKcBlocks)))
      (sumContents ops id request operands 8 4 (request.k / 32)) (Output request)
      fun k _ => k = .output := by
  have zeros : Writes (halfSize request 8 4)
      (fun memory : HalfMemory F H => memory.fill .output (request.m * request.n) (some ops.zero))
      (sumContents ops id request operands 8 4 0) (Output request) :=
    Writes.fill (Nat.le_refl _) fun _ _ => rfl
  have cleared := Effect.keep (R := HalfOperands request 8 4) zeros (fun _ _ no => no.elim)
    fun k x cell output => operands_apart cell output.1
  have complete : ∀ chunk : ℕ, (List.range (request.m / 32)).Perm (List.range (request.m / 32)) :=
    fun _ => .refl _
  have visits : ∀ p < (panels request).panels, (panelOrder request).Nodup ∧
      ∀ tile, tile ∈ panelOrder request ↔ Tiles request 8 4 tile := by
    refine fun p _ => ⟨(tileVisits_nodup complete).map Prod.swap_injective, fun tile => ?_⟩
    obtain ⟨tile_m, tile_n⟩ := tile
    unfold panelOrder
    rw [List.mem_map_swap, mem_tileVisits (by decide) complete]
    exact And.comm
  have pass := pass_effect wholeM wholeN (by decide) (by decide) trivial visits
    fun p hp tile member => tileKernel_effect ops operands wholeM wholeN hp member
  simp only [runPanel_eq wholeM wholeN]
  refine (cleared.seq (pass.weaken ?_ (fun _ _ cell => .inl ⟨cell, rfl⟩) fun _ _ cell => cell)).weaken
    (fun _ _ cell => ⟨cell, rfl⟩) (fun _ _ cell => .inl ⟨cell, rfl⟩) ?_
  · rintro k x (cell | ⟨_, cell⟩)
    · exact ⟨.inl cell, rfl⟩
    · exact ⟨.inr cell, rfl⟩
  · rintro k x (cell | cell)
    · exact cell.1
    · exact cell

theorem run_effect (wholeM : request.m / (8 * 4) * (8 * 4) = request.m)
    (wholeN : request.n / 4 * 4 = request.n) (iterations : ℕ) :
    Effect (halfSize request 8 4) (sumContents ops id request operands 8 4 (request.k / 32))
      (HalfOperands request 8 4) (run ops request iterations)
      (sumContents ops id request operands 8 4 (request.k / 32))
      (fun k x => 0 < iterations ∧ Output request k x) fun k _ => k = .output :=
  Effect.passes (fun _ _ => (iteration_effect wholeM wholeN).weaken
      (fun _ _ cell => ⟨cell, sumContents_operand cell⟩) (fun _ _ cell => .inl ⟨cell, rfl⟩)
      fun _ _ cell => cell)
    fun _ _ cell => operands_apart cell

end Run

section Exact

variable {α : Type} [Field α] [Inhabited α]

/-- The run leaves the product of the blocks, from any previous output and after any number of
iterations. -/
theorem m32n4_product (request : Bench.BenchmarkRequest) (operands : Operands α α)
    (fourRowScale : ℕ → ℕ → BitVec 32) (supported : (validateShape 32 4 32 request).supported = true)
    {iterations : ℕ} (some_iteration : 1 ≤ iterations) (previous : ℕ → Option α)
    (memory : HalfMemory α α) (sizes : memory.size = halfSize request 8 4) :
    Ends ((prepare request operands fourRowScale memory).bind fun memory =>
        run (FloatOps.exact α) request iterations (memory.renew .output previous)) fun memory =>
      ∀ m < request.m, ∀ n < request.n, memory.cell .output (m * request.n + n) =
        some (product (fun b => operands.weight (n * (request.k / 32) + b)) (operands.activation m)
          (request.k / 32)) := by
  obtain ⟨_, wholeM, wholeN, _⟩ := validateShape_supported supported
  have prepared : Effect (halfSize request 8 4)
      (sumContents (FloatOps.exact α) id request operands 8 4 (request.k / 32)) (fun _ _ => False)
      (prepare request operands fourRowScale) _ _ _ :=
    prepared_effect fun plane _ column _ j _ => rfl
  have fresh : Effect (halfSize request 8 4)
      (sumContents (FloatOps.exact α) id request operands 8 4 (request.k / 32))
      (HalfOperands request 8 4) (fun memory => some (memory.renew .output previous)) _ _ _ :=
    Effect.renew fun _ cell => cell
  have whole := prepared.seq (fresh.seq (run_effect wholeM wholeN iterations))
  refine (whole memory sizes fun _ _ no => no.elim).mono fun memory ⟨_, left⟩ => ?_
  intro m hm n hn
  rw [left .output _ ⟨some_iteration, rfl, Layout.index_lt hm hn⟩]
  change sums _ _ _ _ _ _ = _
  rw [sums, Layout.row hn, Layout.column hn, partialSum_exact]
  rfl

end Exact

section Sample

def samplePanels : Bench.BenchmarkRequest := ⟨32, 4, 288, 0, 1, 1, 1, 0, 0, true, []⟩

theorem sample_m32n4_product :
    Ends ((prepare samplePanels ⟨fun _ _ => ⟨2, fun _ => 127⟩, fun _ => ⟨1, fun _ => 0x99⟩⟩ (fun _ _ => 3)
        (halfUnwritten (halfSize samplePanels 8 4))).bind fun memory =>
      run (FloatOps.exact ℚ) samplePanels 2 (memory.renew .output fun _ => some 7)) fun memory =>
      memory.cell .output 0 = some 73152 := by
  refine (m32n4_product samplePanels ⟨fun _ _ => ⟨2, fun _ => 127⟩, fun _ => ⟨1, fun _ => 0x99⟩⟩
    (fun _ _ => 3) (by decide) (by decide : 1 ≤ 2) (fun _ => some 7)
    (halfUnwritten (halfSize samplePanels 8 4)) rfl).mono fun memory h => ?_
  refine (h 0 (by decide) 0 (by decide)).trans ?_
  decide +kernel

end Sample

end Pfng.Q40.M32n4
