import Mathlib.Data.Rat.Floor
import Pfng.Q40.HalfRun
import Pfng.Q40.M4n32b

/-! Inside a panel the components of up to eight blocks wait for their reduction; from panel to panel
the sums go through the output. -/
namespace Pfng.Q40.M4n32b
open Checked Ime BatchReduction HalfBlocks

variable {F H : Type}

section Store

def HalfCells (destination : ℕ) : Region Unit := fun _ x =>
  ∃ row < 4, ∃ column < 16, x = destination + (row * 32 + column)

theorem storeHalf_writes {size : Unit → ℕ} {v : Contents Unit fun _ => Option ℤ} {acc : ℕ → ℕ → ℤ}
    {destination : ℕ}
    (room : ∀ row < 4, ∀ column < 16, destination + (row * 32 + column) < size ())
    (value : ∀ row < 4, ∀ column < 16,
      v () (destination + (row * 32 + column)) = some (acc (column / 4) (row * 4 + column % 4))) :
    Writes size (storeHalf acc destination) v (HalfCells destination) := by
  have all : granted (vl 16 2) 16 = 16 := rfl
  have saved : Writes (newComponents (4 * 16)).size (forUp (fun group lanes =>
      lanes.storeLanes () (group * 16) (granted (vl 16 2) 16) fun lane => some (acc group lane)) 0 4)
      (fun _ x => some (acc (x / 16) (x % 16)))
      fun k x => ∃ group < 4, k = () ∧ ∃ lane < 16, x = group * 16 + lane := by
    rw [all]
    exact Writes.loop fun group hg => Writes.storeLanes (fun lane hl => Layout.index_lt hg hl)
      fun lane hl => by rw [Layout.row hl, Layout.column hl]
  have place : ∀ group < 4, ∀ lane < 16, lane / 4 < 4 ∧ 4 * group + lane % 4 < 16 ∧
      (4 * group + lane % 4) / 4 = group ∧ lane / 4 * 4 + (4 * group + lane % 4) % 4 = lane := by
    intro group hg lane hl
    omega
  intro components sizes _
  refine (saved (newComponents (4 * 16)) rfl fun _ _ no => no.elim).bind fun lanes ⟨change, left⟩ => ?_
  have loaded : ∀ group < 4, ∀ lane < 16,
      (lanes.load () (group * 16 + lane)).join = some (acc group lane) := by
    intro group hg lane hl
    have inside : group * 16 + lane < lanes.size () := by
      rw [change.size]
      exact Layout.index_lt hg hl
    rw [Memory.load, if_pos inside, left () _ ⟨group, hg, rfl, lane, hl, rfl⟩]
    dsimp only
    rw [Layout.row hl, Layout.column hl]
    rfl
  have stores : Writes size (forUp (fun group => forUp (fun lane components =>
      (lanes.load () (group * 16 + lane)).join.bind fun x =>
      components.store () (destination + (lane / 4 * 32 + (4 * group + lane % 4))) (some x)) 0 16) 0 4)
      v _ := Writes.loop fun group hg => Writes.loop fun lane hl => by
    obtain ⟨row, column, same, back⟩ := place group hg lane hl
    simp only [loaded group hg lane hl, Option.bind_some]
    exact Writes.store (room _ row _ column) (by rw [value _ row _ column, same, back])
  refine stores.weaken (fun _ _ no => no) (fun _ x => ?_) components sizes fun _ _ no => no.elim
  constructor
  · rintro ⟨row, hr, column, hc, rfl⟩
    refine ⟨column / 4, by omega, row * 4 + column % 4, by omega, rfl, ?_⟩
    omega
  · rintro ⟨group, hg, lane, hl, _, rfl⟩
    obtain ⟨row, column, _⟩ := place group hg lane hl
    exact ⟨_, row, _, column, rfl⟩

end Store

section Kernel

variable {ops : FloatOps F H} {scale : H → H} {a b block_count_k : ℕ} {memory : HalfMemory F H}
variable {rows : ℕ → ℕ → BlockQ80 H} {columns : ℕ → ℕ → BlockQ40 H}

theorem halfAccumulators_ends {half blockA blockB : ℕ} {row : ℕ → BlockQ80 H} {column : ℕ → BlockQ40 H}
    (hh : half < 2) (block : HoldsBlock scale 1 32 blockA blockB row column memory) :
    Ends (halfAccumulators half blockA blockB memory) fun acc => ∀ g < 4, ∀ lane < 16,
      acc g lane = blockSum (column (half * 16 + (g * 4 + lane % 4))) (row (lane / 4)) := by
  have quants : ∀ plane < 2, Ends
      (memory.fetchRows .quantsA id (blockA * 128 + plane * 64) 32 2 32) fun av =>
        ∀ j < 2, ∀ lane < 32, av j lane = (row (lane / 8)).qs (plane * 16 + (j * 8 + lane % 8)) := by
    intro plane hp
    have cell : ∀ j < 2, ∀ lane < 32,
        blockA * 128 + plane * 64 + j * 32 + lane < memory.size .quantsA ∧
        memory.cell .quantsA (blockA * 128 + plane * 64 + j * 32 + lane) =
          some ((row (lane / 8)).qs (plane * 16 + (j * 8 + lane % 8))) := by
      intro j hj lane hl
      have byte := block.quantsA (plane * 64 + j * 32 + lane) (by omega)
      have inRow : (plane * 64 + j * 32 + lane) / 128 * 4 + (plane * 64 + j * 32 + lane) % 128 % 32 / 8 =
          lane / 8 := by omega
      have depth : (plane * 64 + j * 32 + lane) % 128 / 32 * 8 +
          (plane * 64 + j * 32 + lane) % 128 % 8 = plane * 16 + (j * 8 + lane % 8) := by omega
      rwa [quantByte, inRow, depth, Nat.one_mul, ← Nat.add_assoc, ← Nat.add_assoc] at byte
    exact fetchRows_ends (fun j hj lane hl => (cell j hj lane hl).1)
      fun j hj lane hl => (cell j hj lane hl).2
  have weights : ∀ plane < 2, Ends
      (memory.fetchRows .quantsB id (blockB * 512 + (plane * 256 + half * 4 * 32)) 32 4 32) fun p =>
        ∀ g < 4, ∀ lane < 32, p g lane = packedByte .ime1
          (column (half * 16 + (g * 4 + lane / 8))) (plane * 16 + lane % 8) := by
    intro plane hp
    have cell : ∀ g < 4, ∀ lane < 32,
        blockB * 512 + (plane * 256 + half * 4 * 32) + g * 32 + lane < memory.size .quantsB ∧
        memory.cell .quantsB (blockB * 512 + (plane * 256 + half * 4 * 32) + g * 32 + lane) =
          some (packedByte .ime1 (column (half * 16 + (g * 4 + lane / 8))) (plane * 16 + lane % 8)) := by
      intro g hg lane hl
      have byte := block.quantsB (plane * (32 * 8) + (half * 4 * 32 + g * 32 + lane)) (by omega)
      have rest : half * 4 * 32 + g * 32 + lane < 32 * 8 := by omega
      have inColumn : (half * 4 * 32 + g * 32 + lane) / 8 = half * 16 + (g * 4 + lane / 8) := by omega
      have depth : (half * 4 * 32 + g * 32 + lane) % 8 = lane % 8 := by omega
      rw [weightPair, Layout.row rest, Layout.column rest, inColumn, depth] at byte
      rwa [show blockB * 512 + (plane * 256 + half * 4 * 32) + g * 32 + lane =
        blockB * (32 * 16) + (plane * (32 * 8) + (half * 4 * 32 + g * 32 + lane)) by omega]
    exact fetchRows_ends (fun g hg lane hl => (cell g hg lane hl).1)
      fun g hg lane hl => (cell g hg lane hl).2
  have run : Ends (halfAccumulators half blockA blockB memory) fun acc =>
      ∀ g < 4, Windows row (fun c => column (half * 16 + (g * 4 + c))) 2 (acc g) := by
    refine loop_ends (fun plane (acc : ℕ → ℕ → ℤ) =>
      ∀ g < 4, Windows row (fun c => column (half * 16 + (g * 4 + c))) plane (acc g))
      (fun g _ => .zero) fun plane hp acc before => ?_
    refine (quants plane hp).bind fun av quant => ?_
    refine (weights plane hp).map fun p weight => ?_
    intro g hg
    refine (before g hg).next ⟨?_, ?_, weight g hg⟩
    · intro lane hl
      rw [quant 0 (by decide) lane hl, Nat.zero_mul, Nat.zero_add]
    · intro lane hl
      rw [quant 1 (by decide) lane hl, Nat.one_mul]
  exact run.mono fun acc windows g hg lane hl => (windows g hg).sum hl

variable (rows columns) in
def HoldsComponent (slot block : ℕ) (components : Components) : Prop := ∀ row < 4, ∀ lane < 32,
  components.cell () (slot * 128 + (row * 32 + lane)) =
    some (blockSum (columns block lane) (rows block row))

variable (ops scale rows columns) in
/-- An accumulator after the first `n` blocks of a call. -/
def reducedElement (start : ℕ → ℕ → F) (n row lane : ℕ) : F :=
  accumulated ops (fun block => blockSum (columns block lane) (rows block row))
    (fun block => scale (columns block lane).d) (fun block => ops.widen (scale (rows block row).d))
    (start row lane) n

variable (ops scale rows columns) in
/-- `reduction_count` components wait, and the blocks before theirs are reduced. -/
structure BatchInvariant (start : ℕ → ℕ → F) (bk : ℕ) (batch : Batch F) : Prop where
  size : batch.components.size = (newComponents (ReductionBatch * 4 * 32)).size
  few : batch.reduction_count < ReductionBatch ∧ batch.reduction_count ≤ bk
  sums : ∀ row < 4, ∀ lane < 32, batch.fp_acc row lane =
    reducedElement ops scale rows columns start (bk - batch.reduction_count) row lane
  waiting : ∀ i < batch.reduction_count,
    HoldsComponent rows columns i (bk - batch.reduction_count + i) batch.components

/-- Both halves of a block, in its slot. -/
theorem component_writes {bk slot : ℕ} (full : slot < ReductionBatch)
    (block : HoldsBlock scale 1 32 (a + bk) (b + bk) (rows bk) (columns bk) memory) :
    Writes (newComponents (ReductionBatch * 4 * 32)).size
      (forUp (fun half components => (halfAccumulators half (a + bk) (b + bk) memory).bind fun acc =>
        storeHalf acc (slot * 4 * 32 + half * 16) components) 0 2)
      (fun _ x => some (blockSum (columns bk (x % 128 % 32)) (rows bk (x % 128 / 32))))
      fun _ x => ∃ o < 128, x = slot * 128 + o := by
  have half : ∀ half < 2, Writes (newComponents (ReductionBatch * 4 * 32)).size
      (fun components => (halfAccumulators half (a + bk) (b + bk) memory).bind fun acc =>
        storeHalf acc (slot * 4 * 32 + half * 16) components)
      (fun _ x => some (blockSum (columns bk (x % 128 % 32)) (rows bk (x % 128 / 32))))
      (HalfCells (slot * 4 * 32 + half * 16)) := by
    intro half hh components sizes none
    refine (halfAccumulators_ends hh block).bind fun acc sums => ?_
    have here : ∀ row column, slot * 4 * 32 + half * 16 + (row * 32 + column) =
        slot * 128 + (row * 32 + (half * 16 + column)) := by
      intro row column
      omega
    refine storeHalf_writes ?_ ?_ components sizes none
    · intro row hr column hc
      rw [here]
      unfold ReductionBatch at full ⊢
      change _ < 8 * 4 * 32
      omega
    · intro row hr column hc
      have inRow : half * 16 + column < 32 := by omega
      have inside : row * 32 + (half * 16 + column) < 128 := Layout.index_lt (m := 4) hr inRow
      have four : column % 4 < 4 := Nat.mod_lt column (by decide)
      rw [here, Layout.column inside, Layout.row inRow, Layout.column inRow,
        sums _ (Nat.div_lt_of_lt_mul hc) _ (Layout.index_lt (m := 4) hr four), Layout.row four,
        Layout.column four, Nat.div_add_mod']
  refine (Writes.loop half).weaken (fun _ _ no => no) fun _ x => ?_
  constructor
  · rintro ⟨o, ho, rfl⟩
    exact ⟨o % 32 / 16, by omega, o / 32, by omega, o % 16, by omega, by omega⟩
  · rintro ⟨half, hh, row, hr, column, hc, rfl⟩
    exact ⟨half * 16 + (row * 32 + column), by omega, by omega⟩

variable [Inhabited H]

theorem reduceBatch_ends {components : Components} {first count : ℕ} {start fp_acc : ℕ → ℕ → F}
    (few : count ≤ ReductionBatch)
    (blocks : ∀ bk < first + count,
      HoldsBlock scale 1 32 (a + bk) (b + bk) (rows bk) (columns bk) memory)
    (size : components.size = (newComponents (ReductionBatch * 4 * 32)).size)
    (waiting : ∀ i < count, HoldsComponent rows columns i (first + i) components)
    (before : ∀ row < 4, ∀ lane < 32,
      fp_acc row lane = reducedElement ops scale rows columns start first row lane) :
    Ends (reduceBatch ops a b components first count memory fp_acc) fun fp_acc' =>
      ∀ row < 4, ∀ lane < 32, fp_acc' row lane =
        reducedElement ops scale rows columns start (first + count) row lane := by
  refine loop_ends (fun i (fp_acc' : ℕ → ℕ → F) => ∀ row < 4, ∀ lane < 32, fp_acc' row lane =
    reducedElement ops scale rows columns start (first + i) row lane) before
    fun i hi fp_acc' sums => ?_
  have block := blocks (first + i) (by omega)
  refine (fetchLanes_ends (fun lane hl => (block.scalesB lane hl).1)
    fun lane hl => (block.scalesB lane hl).2).bind fun bscale_h scaleB => ?_
  have slot : ∀ row < 4, ∀ lane < 32, i * 4 * 32 + row * 32 + lane = i * 128 + (row * 32 + lane) := by
    intro row _ lane _
    omega
  refine (fetchRows_ends (f := fun row lane => blockSum (columns (first + i) lane)
    (rows (first + i) row)) ?_ ?_).bind fun ci component => ?_
  · intro row hr lane hl
    rw [slot row hr lane hl, size]
    unfold ReductionBatch at few ⊢
    change _ < 8 * 4 * 32
    omega
  · intro row hr lane hl
    rw [slot row hr lane hl]
    exact waiting i hi row hr lane hl
  refine (fetchLanes_ends (fun row hr => (block.scalesA row hr).1)
    fun row hr => (block.scalesA row hr).2).map fun as scaleA => ?_
  intro row hr lane hl
  dsimp only
  rw [component row hr lane hl, scaleB lane hl, scaleA row hr, sums row hr lane hl]
  rfl

theorem batch_pos : 0 < ReductionBatch := by decide

/-- A block is stored to its slot; the last one of a batch, or of all, has the batch reduced. -/
theorem blockStep_ends {start : ℕ → ℕ → F} {bk : ℕ} {batch : Batch F} (hb : bk < block_count_k)
    (blocks : ∀ bk < block_count_k,
      HoldsBlock scale 1 32 (a + bk) (b + bk) (rows bk) (columns bk) memory)
    (h : BatchInvariant ops scale rows columns start bk batch) :
    Ends (blockStep ops a b block_count_k memory bk batch) fun batch' =>
      BatchInvariant ops scale rows columns start (bk + 1) batch' ∧
        (bk + 1 = block_count_k → batch'.reduction_count = 0) := by
  obtain ⟨room, done⟩ := h.few
  unfold blockStep
  refine (component_writes room (blocks bk hb) batch.components h.size fun _ _ no => no.elim).bind
    fun components ⟨change, left⟩ => ?_
  have size := change.size.trans h.size
  have waiting : ∀ i < batch.reduction_count + 1, HoldsComponent rows columns i
      (bk - batch.reduction_count + i) components := by
    intro i hi row hr lane hl
    have x : row * 32 + lane < 128 := Layout.index_lt (m := 4) hr hl
    rcases Nat.lt_or_ge i batch.reduction_count with earlier | last
    · rw [change.frame, h.waiting i earlier row hr lane hl]
      rintro ⟨o, ho, same⟩
      have equal := (Layout.unique x ho same).1
      omega
    · obtain rfl : i = batch.reduction_count := by omega
      rw [left () _ ⟨row * 32 + lane, x, rfl⟩]
      dsimp only
      rw [Layout.column x, Layout.row hl, Layout.column hl, Nat.sub_add_cancel done]
  dsimp only
  split
  · next full =>
      have first : bk + 1 - (batch.reduction_count + 1) = bk - batch.reduction_count := by omega
      have all : bk - batch.reduction_count + (batch.reduction_count + 1) = bk + 1 := by omega
      rw [first]
      have reduced : Ends (reduceBatch ops a b components (bk - batch.reduction_count)
          (batch.reduction_count + 1) memory batch.fp_acc) _ :=
        reduceBatch_ends room (fun b before => blocks b (by omega)) size waiting h.sums
      rw [all] at reduced
      refine reduced.map fun fp_acc sums => ⟨⟨size, ⟨batch_pos, Nat.zero_le _⟩, sums, ?_⟩, fun _ => rfl⟩
      intro i no
      exact absurd no (Nat.not_lt_zero i)
  · next more =>
      rw [not_or] at more
      have next : bk + 1 - (batch.reduction_count + 1) = bk - batch.reduction_count := by omega
      have few : batch.reduction_count + 1 < ReductionBatch ∧ batch.reduction_count + 1 ≤ bk + 1 := by
        omega
      refine .some ⟨⟨size, few, ?_, ?_⟩, fun last => absurd last more.2⟩
      · dsimp only
        rw [next]
        exact h.sums
      · dsimp only
        rw [next]
        exact waiting

/-- A call adds its blocks to the tile it starts from: to zero, or to what the output holds. -/
theorem m4n32bKernel_ends [Inhabited F] {output ldc : ℕ} {accumulate : Bool} {start : ℕ → ℕ → F}
    (blocks : ∀ bk < block_count_k,
      HoldsBlock scale 1 32 (a + bk) (b + bk) (rows bk) (columns bk) memory)
    (room : ∀ row < 4, ∀ lane < 32, output + row * ldc + lane < memory.size .output)
    (first : accumulate = false → ∀ row < 4, ∀ lane < 32, start row lane = ops.zero)
    (later : accumulate = true → ∀ row < 4, ∀ lane < 32,
      memory.cell .output (output + row * ldc + lane) = some (start row lane))
    {v : Contents HalfBuffer (HalfCell F H)}
    (value : ∀ row < 4, ∀ lane < 32, v .output (output + row * ldc + lane) =
      some (reducedElement ops scale rows columns start block_count_k row lane)) :
    Ends (m4n32bKernel ops a b output block_count_k ldc accumulate memory) fun memory' =>
      Within (fun k x => k = .output ∧ ∃ row < 4, ∃ lane < 32, x = output + row * ldc + lane)
        memory memory' ∧
      Holds v (fun k x => k = .output ∧ ∃ row < 4, ∃ lane < 32, x = output + row * ldc + lane) memory' := by
  have loaded : Ends (if accumulate then memory.fetchRows .output id output ldc 4 32
      else some fun _ _ => ops.zero) fun fp_acc => ∀ row < 4, ∀ lane < 32,
        fp_acc row lane = start row lane := by
    cases accumulate with
    | false => exact .some fun row hr lane hl => (first rfl row hr lane hl).symm
    | true => exact fetchRows_ends room (later rfl)
  refine loaded.bind fun fp_acc sums => ?_
  have run : Ends (forUp (blockStep ops a b block_count_k memory) 0 block_count_k
      ⟨newComponents (ReductionBatch * 4 * 32), fp_acc, 0⟩) fun batch =>
      BatchInvariant ops scale rows columns start block_count_k batch ∧
        (block_count_k = block_count_k → batch.reduction_count = 0) := by
    refine loop_ends (fun bk (batch : Batch F) => BatchInvariant ops scale rows columns start bk batch ∧
      (bk = block_count_k → batch.reduction_count = 0)) ⟨⟨rfl, ⟨batch_pos, Nat.le_refl 0⟩, sums, ?_⟩,
      fun _ => rfl⟩ fun bk hb batch ⟨h, _⟩ => blockStep_ends hb blocks h
    intro i no
    exact absurd no (Nat.not_lt_zero i)
  refine run.bind fun batch ⟨h, last⟩ => ?_
  have all := h.sums
  rw [last rfl, Nat.sub_zero] at all
  refine Fills.storeRows (u := v) (A := fun _ _ => False) room ?_ memory rfl fun _ _ no => no.elim
  intro row hr lane hl
  rw [value row hr lane hl, all row hr lane hl]

end Kernel

section Run

variable {ops : FloatOps F H} {narrow : F → H} {request : Bench.BenchmarkRequest}
variable {operands : Operands H H}

variable (request) in
/-- The K blocks in panels of sixteen; the activation itself lies in one piece. -/
def panels : PanelLayout (request.m / (1 * 4)) (request.k / 32) where
  kBlocksPerPanel := 16
  base p := p * 16 * (request.m / (1 * 4))
  stride _ := 16
  pos := PanelLayout.pos_16
  base_eq _ := rfl
  fits _ := ⟨Nat.min_le_left _ _, Nat.le_refl 16⟩

variable [Inhabited F] [Inhabited H]

variable (ops request) in
/-- The call for a tile in panel `p`. -/
def tileKernel (p : ℕ) (tile : ℕ × ℕ) : HalfMemory F H → Option (HalfMemory F H) :=
  m4n32bKernel ops (tile.1 * (request.k / 32) + p * 16) (tile.2 * (request.k / 32) + p * 16)
    (tile.1 * 4 * request.n + tile.2 * 32) ((panels request).localBlocks p) request.n (p * 512 != 0)

theorem runPanel_eq (wholeM : request.m / 4 * 4 = request.m) (wholeN : request.n / 32 * 32 = request.n)
    (wholeK : request.k / 32 * 32 = request.k) (p : ℕ) :
    runPanel ops request (p * KC) = forEach (tileKernel ops request p)
      (tileVisits (request.m / 4) 32 fun _ => List.range (request.n / 32)) := by
  have blocks : min KC (request.k - p * KC) / 32 = (panels request).localBlocks p := by
    unfold KC PanelLayout.localBlocks
    change _ = min 16 (request.k / 32 - p * 16)
    omega
  have start : p * KC / 32 = p * 16 := by
    unfold KC
    omega
  have chunks : chunkCount request.m MC = chunkCount (request.m / 4) 32 := by
    unfold chunkCount MC
    omega
  have columns : chunkCount request.n 32 = request.n / 32 := by
    unfold chunkCount
    omega
  have flat := chunkedTiles_eq (request.m / 4) 32 (fun _ => List.range (request.n / 32))
    fun tile_m tile_n => tileKernel ops request p (tile_m, tile_n)
  refine Eq.trans ?_ flat
  unfold runPanel chunkedTiles
  dsimp only
  rw [chunks, columns, blocks, start]
  congr 1
  funext chunk
  rw [List.range_eq_range', ← forUp_eq_forEach]
  congr 1
  funext tile_n
  have rows : chunkCount (min (chunk * MC + MC) request.m - chunk * MC) 4 =
      min (request.m / 4) (chunk * 32 + 32) - chunk * 32 := by
    unfold chunkCount MC
    omega
  rw [rows, forUp_shift _ (chunk * 32)]
  congr 1
  funext tile_m
  have row : (chunk * MC + tile_m * 4) / 4 = chunk * 32 + tile_m := by
    unfold MC
    omega
  have first : chunk * MC + tile_m * 4 = (chunk * 32 + tile_m) * 4 := by
    unfold MC
    omega
  rw [row, first]
  rfl

variable (ops operands) in
/-- The call of panel `p` takes its tile from the sums of the earlier panels to those with its own. -/
theorem tileKernel_effect (scale : H → H) (wholeM : request.m / (1 * 4) * (1 * 4) = request.m)
    (wholeN : request.n / 32 * 32 = request.n) {p : ℕ} (hp : p < (panels request).panels)
    {tile : ℕ × ℕ} (ht : Tiles request 1 32 tile) :
    Effect (halfSize request 1 32)
      (sumContents ops scale request operands 1 32 ((panels request).done p))
      (fun k x => HalfOperands request 1 32 k x ∨ 0 < p ∧ OutputTile request 1 32 tile k x)
      (tileKernel ops request p tile)
      (sumContents ops scale request operands 1 32 ((panels request).done (p + 1)))
      (OutputTile request 1 32 tile) (OutputTile request 1 32 tile) := by
  obtain ⟨done, _, next⟩ := PanelLayout.done_succ hp
  have address : ∀ row lane, tile.1 * 4 * request.n + tile.2 * 32 + row * request.n + lane =
      (tile.1 * (1 * 4) + row) * request.n + (tile.2 * 32 + lane) := by
    intro row lane
    ring
  have inside : ∀ lane < 32, tile.2 * 32 + lane < request.n := fun lane hl =>
    tile_column_lt wholeN ht.2 hl
  have cell : ∀ n, ∀ row < 4, ∀ lane < 32, sumContents ops scale request operands 1 32 n .output
      (tile.1 * 4 * request.n + tile.2 * 32 + row * request.n + lane) =
      some ((halfOperands ops scale operands).partialSum ops request (tile.1 * (1 * 4) + row)
        (tile.2 * 32 + lane) n) := by
    intro n row hr lane hl
    change sums _ _ _ _ _ _ = _
    rw [address, sums, Layout.row (inside lane hl), Layout.column (inside lane hl)]
  intro m sizes holds
  have blocks : ∀ bk < (panels request).localBlocks p, HoldsBlock scale 1 32
      (tile.1 * (request.k / 32) + p * 16 + bk) (tile.2 * (request.k / 32) + p * 16 + bk)
      (tileRows operands 1 tile.1 (p * 16 + bk)) (tileColumns request operands 32 tile.2 (p * 16 + bk))
      m := by
    intro bk hb
    rw [Nat.add_assoc, Nat.add_assoc]
    exact holdsBlock_of_holds sizes (holds.mono fun _ _ => .inl) ht.1 ht.2 (PanelLayout.block_lt hb)
  have room : ∀ row < 4, ∀ lane < 32,
      tile.1 * 4 * request.n + tile.2 * 32 + row * request.n + lane < m.size .output := by
    intro row hr lane hl
    rw [address, sizes]
    exact Layout.index_lt (tile_column_lt wholeM ht.1 hr) (inside lane hl)
  have first : (p * 512 != 0) = false → ∀ row < 4, ∀ lane < 32,
      (halfOperands ops scale operands).partialSum ops request (tile.1 * (1 * 4) + row)
        (tile.2 * 32 + lane) ((panels request).done p) = ops.zero := by
    intro same row _ lane _
    have zero : p = 0 := by
      rw [bne_eq_false_iff_eq] at same
      omega
    rw [done, zero, Nat.zero_mul]
    rfl
  have later : (p * 512 != 0) = true → ∀ row < 4, ∀ lane < 32,
      m.cell .output (tile.1 * 4 * request.n + tile.2 * 32 + row * request.n + lane) =
        some ((halfOperands ops scale operands).partialSum ops request (tile.1 * (1 * 4) + row)
          (tile.2 * 32 + lane) ((panels request).done p)) := by
    intro other row hr lane hl
    have begun : 0 < p := by
      rw [bne_iff_ne] at other
      omega
    rw [← cell _ row hr lane hl]
    exact holds .output _ (.inr ⟨begun, rfl, row, hr, lane, hl, address row lane⟩)
  refine (m4n32bKernel_ends blocks room first later ?_).mono fun m' ⟨change, left⟩ =>
    ⟨change.mono ?_, left.mono ?_⟩
  · intro row hr lane hl
    rw [cell _ row hr lane hl, next, Operands.partialSum, accumulated_add, done]
    rfl
  · rintro k x ⟨rfl, row, hr, lane, hl, rfl⟩
    exact ⟨rfl, row, hr, lane, hl, address row lane⟩
  · rintro k x ⟨rfl, row, hr, lane, hl, rfl⟩
    exact ⟨rfl, row, hr, lane, hl, (address row lane).symm⟩

theorem run_effect {scale : H → H} (wholeM : request.m / (1 * 4) * (1 * 4) = request.m)
    (wholeN : request.n / 32 * 32 = request.n) (wholeK : request.k / 32 * 32 = request.k)
    (blocks : 0 < request.k / 32) (iterations : ℕ) :
    Effect (halfSize request 1 32) (sumContents ops scale request operands 1 32 (request.k / 32))
      (HalfOperands request 1 32) (run ops request iterations)
      (sumContents ops scale request operands 1 32 (request.k / 32))
      (fun k x => 0 < iterations ∧ Output request k x) fun k _ => k = .output := by
  have all : chunkCount request.k KC = (panels request).panels := by
    change _ = chunkCount (request.k / 32) 16
    unfold chunkCount KC
    omega
  have complete : ∀ chunk : ℕ, (List.range (request.n / 32)).Perm (List.range (request.n / 32)) :=
    fun _ => .refl _
  have visits : ∀ p < (panels request).panels,
      (tileVisits (request.m / 4) 32 fun _ => List.range (request.n / 32)).Nodup ∧
      ∀ tile, tile ∈ tileVisits (request.m / 4) 32 (fun _ => List.range (request.n / 32)) ↔
        Tiles request 1 32 tile :=
    fun p _ => ⟨tileVisits_nodup complete, fun tile => mem_tileVisits (by decide) complete⟩
  have pass := pass_effect wholeM wholeN (by decide) (by decide) (PanelLayout.panels_pos blocks) visits
    fun p hp tile member => tileKernel_effect ops operands scale wholeM wholeN hp member
  refine Effect.passes (fun _ _ => ?_) fun k x cell => operands_apart cell
  rw [all]
  simp only [runPanel_eq wholeM wholeN wholeK]
  refine pass.weaken ?_ (fun _ _ cell => .inl ⟨cell, rfl⟩) fun _ _ cell => cell
  rintro k x (cell | ⟨no, _⟩)
  · exact ⟨cell, sumContents_operand cell⟩
  · exact absurd no (Nat.lt_irrefl 0)

end Run

section Exact

variable {α : Type} [Field α] [Inhabited α]

/-- The run leaves the product of the blocks, from any previous output and after any number of
iterations. -/
theorem m4n32b_product (request : Bench.BenchmarkRequest) (operands : Operands α α)
    (fourRowScale : ℕ → ℕ → BitVec 32) (supported : (validateShape 4 32 32 request).supported = true)
    {iterations : ℕ} (some_iteration : 1 ≤ iterations) (previous : ℕ → Option α)
    (memory : HalfMemory α α) (sizes : memory.size = halfSize request 1 32) :
    Ends ((prepare (FloatOps.exact α) request id operands fourRowScale memory).bind fun memory =>
        run (FloatOps.exact α) request iterations (memory.renew .output previous)) fun memory =>
      ∀ m < request.m, ∀ n < request.n, memory.cell .output (m * request.n + n) =
        some (product (fun b => operands.weight (n * (request.k / 32) + b)) (operands.activation m)
          (request.k / 32)) := by
  obtain ⟨⟨_, _, some_k⟩, wholeM, wholeN, wholeK⟩ := validateShape_supported supported
  have prepared : Effect (halfSize request 1 32)
      (sumContents (FloatOps.exact α) id request operands 1 32 (request.k / 32)) (fun _ _ => False)
      (prepare (FloatOps.exact α) request id operands fourRowScale) _ _ _ :=
    prepared_effect fun plane _ column _ j _ => by omega
  have fresh : Effect (halfSize request 1 32)
      (sumContents (FloatOps.exact α) id request operands 1 32 (request.k / 32))
      (HalfOperands request 1 32) (fun memory => some (memory.renew .output previous)) _ _ _ :=
    Effect.renew fun _ cell => cell
  have whole := prepared.seq (fresh.seq (run_effect wholeM wholeN wholeK (by omega) iterations))
  refine (whole memory sizes fun _ _ no => no.elim).mono fun memory ⟨_, left⟩ => ?_
  intro m hm n hn
  rw [left .output _ ⟨some_iteration, rfl, Layout.index_lt hm hn⟩]
  change sums _ _ _ _ _ _ = _
  rw [sums, Layout.row hn, Layout.column hn, partialSum_exact]
  rfl

end Exact

section Sample

def samplePanels : Bench.BenchmarkRequest := ⟨4, 32, 1056, 0, 1, 1, 1, 0, 0, true, []⟩

theorem sample_m4n32b_product :
    Ends ((prepare (FloatOps.exact ℚ) samplePanels id
        ⟨fun _ _ => ⟨2, fun _ => 127⟩, fun _ => ⟨1, fun _ => 0x99⟩⟩ (fun _ _ => 3)
        (halfUnwritten (halfSize samplePanels 1 32))).bind fun memory =>
      run (FloatOps.exact ℚ) samplePanels 2 (memory.renew .output fun _ => some 7)) fun memory =>
      memory.cell .output 0 = some 268224 := by
  refine (m4n32b_product samplePanels ⟨fun _ _ => ⟨2, fun _ => 127⟩, fun _ => ⟨1, fun _ => 0x99⟩⟩
    (fun _ _ => 3) (by decide) (by decide : 1 ≤ 2) (fun _ => some 7)
    (halfUnwritten (halfSize samplePanels 1 32)) rfl).mono fun memory h => ?_
  refine (h 0 (by decide) 0 (by decide)).trans ?_
  decide +kernel

end Sample

end Pfng.Q40.M4n32b
