import Pfng.Q40.BatchReduction

/-! What a batch-reduction kernel leaves. The loop is carried by the blocks that the float
accumulators already hold and the components of the blocks that wait for the next flush. -/
namespace Pfng.Q40.BatchReduction
open Checked Ime

variable {F H : Type}

/-- One element: the blocks in increasing order, each scaled and added to the accumulator. -/
def accumulated (ops : FloatOps F H) (component : ℕ → ℤ) (scaleW : ℕ → H) (scaleA : ℕ → F)
    (start : F) : ℕ → F
  | 0 => start
  | b+1 => ops.fma (accumulated ops component scaleW scaleA start b) (ops.ofInt (component b))
      (ops.mul (ops.widen (scaleW b)) (scaleA b))

theorem accumulated_add (ops : FloatOps F H) (component : ℕ → ℤ) (scaleW : ℕ → H)
    (scaleA : ℕ → F) (start : F) (m n : ℕ) :
    accumulated ops component scaleW scaleA start (m + n) =
      accumulated ops (fun b => component (m + b)) (fun b => scaleW (m + b))
        (fun b => scaleA (m + b)) (accumulated ops component scaleW scaleA start m) n := by
  induction n with
  | zero => rfl
  | succ n ih => rw [← Nat.add_assoc, accumulated, ih, accumulated]

section Scatter

variable {unit : MatrixUnit} {store : ScatterStore} {lane : ℕ}

theorem mem_scatterStores : store ∈ scatterStores unit ↔
    store.chunk < unit.width / 2 ∧ store.index < 8 ∧ store.high < 2 := by
  obtain ⟨chunk, index, high⟩ := store
  unfold scatterStores
  simp only [List.mem_flatMap, List.mem_range, List.mem_cons, List.not_mem_nil, or_false,
    ScatterStore.mk.injEq]
  constructor
  · rintro ⟨c, hc, i, hi, ⟨rfl, rfl, rfl⟩ | ⟨rfl, rfl, rfl⟩⟩
    · exact ⟨hc, hi, Nat.two_pos⟩
    · exact ⟨hc, hi, Nat.one_lt_two⟩
  · rintro ⟨hc, hi, hh⟩
    exact ⟨chunk, hc, index, hi, by omega⟩

theorem scatter_covers {x : ℕ} (inside : x < kMr unit * kNr unit) :
    x ∈ (scatterStores unit).flatMap (ScatterStore.cells unit) := by
  obtain ⟨row, hr, column, hc, rfl⟩ :
      ∃ row < kMr unit, ∃ column < kNr unit, x = row * kNr unit + column := by
    refine ⟨x / kNr unit, Layout.row_lt inside, x % kNr unit, ?_, (Nat.div_add_mod' _ _).symm⟩
    cases unit with
    | ime1 => exact Nat.mod_lt _ (by decide)
    | ime2 => exact Nat.mod_lt _ (by decide)
  refine List.mem_flatMap.mpr ⟨⟨row % unit.width % (unit.width / 2),
    row / unit.width * 4 + column / unit.width, row % unit.width / (unit.width / 2)⟩,
    mem_scatterStores.mpr ?_, List.mem_map.mpr
      ⟨row % unit.width % (unit.width / 2) * unit.width + column % unit.width,
        List.mem_filter.mpr ⟨List.mem_range.mpr ?_, decide_eq_true ?_⟩, ?_⟩⟩
  all_goals
    cases unit with
    | ime1 =>
        simp only [kMr, kNr, ScatterStore.base, ScatterStore.vl, MatrixUnit.width] at *
        omega
    | ime2 =>
        simp only [kMr, kNr, ScatterStore.base, ScatterStore.vl, MatrixUnit.width] at *
        omega

theorem scatter_once (unit : MatrixUnit) :
    ((scatterStores unit).flatMap (ScatterStore.cells unit)).Perm
      (List.range (kMr unit * kNr unit)) := by
  have lanes : ((scatterStores unit).flatMap (ScatterStore.cells unit)).length =
      kMr unit * kNr unit := by
    cases unit with
    | ime1 => decide +kernel
    | ime2 => decide +kernel
  have covered : List.range (kMr unit * kNr unit) ⊆
      (scatterStores unit).flatMap (ScatterStore.cells unit) := by
    intro x hx
    exact scatter_covers (List.mem_range.mp hx)
  refine ((List.nodup_range.subperm covered).perm_of_length_le ?_).symm
  rw [lanes, List.length_range]

theorem scatter_place (mem : store ∈ scatterStores unit) (inside : lane < store.vl unit)
    (selected : store.selects unit lane = true) :
    ∃ row < kMr unit, ∃ column < kNr unit, store.base unit + lane = row * kNr unit + column ∧
      row / unit.width * 4 + column / unit.width = store.index ∧
      row % unit.width * unit.width + column % unit.width =
        store.high * (unit.width / 2 * unit.width) + lane := by
  obtain ⟨hc, hi, hh⟩ := mem_scatterStores.mp mem
  obtain ⟨chunk, index, high⟩ := store
  rw [ScatterStore.selects, decide_eq_true_eq] at selected
  rw [ScatterStore.vl] at inside
  refine ⟨index / 4 * unit.width + high * (unit.width / 2) + chunk, ?_,
    index % 4 * unit.width + (lane - chunk * unit.width), ?_, ?_, ?_, ?_⟩
  all_goals
    cases unit with
    | ime1 =>
        simp only [kMr, kNr, ScatterStore.base, MatrixUnit.width] at *
        omega
    | ime2 =>
        simp only [kMr, kNr, ScatterStore.base, MatrixUnit.width] at *
        omega

/-- A scatter leaves the accumulators in row-major order. -/
theorem scatter_writes {size : Buffer → ℕ} {place : Place} {component : ℕ}
    {inner_acc : ℕ → ℕ → ℤ} {v : Contents Buffer (Cell F H)}
    (bound : component + kMr unit * kNr unit ≤ size (.components place))
    (value : ∀ row < kMr unit, ∀ column < kNr unit,
      v (.components place) (component + (row * kNr unit + column)) =
        some (inner_acc (row / unit.width * 4 + column / unit.width)
          (row % unit.width * unit.width + column % unit.width))) :
    Writes size (scatter unit place component inner_acc) v fun k x =>
      k = .components place ∧ ∃ y < kMr unit * kNr unit, x = component + y := by
  have stores : Writes size (scatter unit place component inner_acc) v _ :=
    Writes.forEach fun store mem => Fills.storeMasked (fun lane inside selected => by
      obtain ⟨row, hr, column, hc, same, _, _⟩ := scatter_place mem inside selected
      rw [Nat.add_assoc, same]
      have := Layout.index_lt hr hc
      omega) fun lane inside selected => by
        obtain ⟨row, hr, column, hc, same, index, place⟩ := scatter_place mem inside selected
        rw [Nat.add_assoc, same, value row hr column hc, index, place]
  refine stores.weaken (fun _ _ no => no) fun k x => ?_
  constructor
  · rintro ⟨rfl, y, hy, rfl⟩
    obtain ⟨store, mem, cell⟩ := List.mem_flatMap.mp (scatter_covers hy)
    obtain ⟨lane, selected, rfl⟩ := List.mem_map.mp cell
    obtain ⟨inside, selected⟩ := List.mem_filter.mp selected
    exact ⟨store, mem, rfl, lane, List.mem_range.mp inside, selected, (Nat.add_assoc _ _ _).symm⟩
  · rintro ⟨store, mem, rfl, lane, inside, selected, rfl⟩
    obtain ⟨row, hr, column, hc, same, _, _⟩ := scatter_place mem inside selected
    exact ⟨rfl, row * kNr unit + column, Layout.index_lt hr hc, by rw [Nat.add_assoc, same]⟩

end Scatter

/-- The values behind a tile: the integer component and the scales of each K block. -/
structure TileData (F H : Type) where
  component : ℕ → ℕ → ℕ → ℤ
  scaleW : ℕ → ℕ → H
  scaleA : ℕ → ℕ → F

/-- The tile after `n` blocks on top of `start`. -/
def TileData.sum (ops : FloatOps F H) (data : TileData F H) (start : ℕ → ℕ → F)
    (n row column : ℕ) : F :=
  accumulated ops (fun b => data.component b row column) (fun b => data.scaleW b column)
    (fun b => data.scaleA b row) (start row column) n

def TileCells (unit : MatrixUnit) (p : Pointer) : Region Buffer := fun k x =>
  k = .floats p.buffer ∧ ∃ row < kMr unit, ∃ column < kNr unit, x = p.base + row * p.stride + column

/-- The tile lies inside its buffer and holds `f`. -/
def HoldsTile (unit : MatrixUnit) (p : Pointer) (f : ℕ → ℕ → F) (m : BatchMemory F H) : Prop :=
  ∀ row < kMr unit, ∀ column < kNr unit,
    p.base + row * p.stride + column < m.size (.floats p.buffer) ∧
      m.cell (.floats p.buffer) (p.base + row * p.stride + column) = some (f row column)

def Supplies (ops : FloatOps F H) (unit : MatrixUnit) (f : ℕ → ℕ → F) (m : BatchMemory F H) :
    Source → Prop
  | .zero => ∀ row < kMr unit, ∀ column < kNr unit, f row column = ops.zero
  | .cells p => HoldsTile unit p f m

/-- What the kernel reads besides its accumulators. -/
structure Ready (unit : MatrixUnit) (args : Arguments)
    (weights : ℕ → ℕ → BatchMemory F H → Option WeightRegisters) (data : TileData F H)
    (m : BatchMemory F H) : Prop where
  dots : ∀ bk < args.blockCountK,
    Ends (dots unit (weights bk) (args.baseAQs + bk * (kMr unit * 32)) m) fun inner_acc =>
      ∀ row < kMr unit, ∀ column < kNr unit,
        inner_acc (row / unit.width * 4 + column / unit.width)
          (row % unit.width * unit.width + column % unit.width) = data.component bk row column
  scalesW : ∀ bk < args.blockCountK, ∀ column < kNr unit,
    args.baseWScales + bk * kNr unit + column < m.size .scalesB ∧
      m.cell .scalesB (args.baseWScales + bk * kNr unit + column) = some (data.scaleW bk column)
  scalesA : ∀ bk < args.blockCountK, ∀ row < kMr unit,
    args.baseAScales + bk * kMr unit + row < m.size (.floats .packedA) ∧
      m.cell (.floats .packedA) (args.baseAScales + bk * kMr unit + row) =
        some (data.scaleA bk row)

/-- Component `index` of the batch is that of block `bk`. -/
def HoldsComponent (unit : MatrixUnit) (place : Place) (data : TileData F H) (m : BatchMemory F H)
    (index bk : ℕ) : Prop :=
  ∀ row < kMr unit, ∀ column < kNr unit,
    m.cell (.components place) (index * (kMr unit * kNr unit) + row * kNr unit + column) =
      some (data.component bk row column)

section Flush

variable [Inhabited F] [Inhabited H] {ops : FloatOps F H} {unit : MatrixUnit} {place : Place}
variable {args : Arguments} {weights : ℕ → ℕ → BatchMemory F H → Option WeightRegisters}
variable {data : TileData F H} {start : ℕ → ℕ → F} {m : BatchMemory F H}

omit [Inhabited H] in
theorem loadAccumulators_ends {source : Source} {f : ℕ → ℕ → F} (h : Supplies ops unit f m source) :
    Ends (loadAccumulators ops unit source m) fun acc =>
      ∀ row < kMr unit, ∀ column < kNr unit, acc row column = f row column := by
  cases source with
  | zero => exact .some fun row hr column hc => (h row hr column hc).symm
  | cells p =>
      exact fetchRows_ends (fun row hr column hc => (h row hr column hc).1)
        fun row hr column hc => (h row hr column hc).2

theorem reduceBlock_ends (ready : Ready unit args weights data m) {bk index : ℕ}
    (hb : bk < args.blockCountK)
    (inside : (index + 1) * (kMr unit * kNr unit) ≤ m.size (.components place))
    (waiting : HoldsComponent unit place data m index bk) {acc : ℕ → ℕ → F}
    (before : ∀ row < kMr unit, ∀ column < kNr unit,
      acc row column = data.sum ops start bk row column) :
    Ends (reduceBlock ops unit place args bk index m acc) fun acc =>
      ∀ row < kMr unit, ∀ column < kNr unit,
        acc row column = data.sum ops start (bk + 1) row column := by
  have room : ∀ row < kMr unit, ∀ column < kNr unit,
      index * (kMr unit * kNr unit) + row * kNr unit + column < m.size (.components place) := by
    intro row hr column hc
    have := Layout.index_lt hr hc
    rw [Nat.add_mul, Nat.one_mul] at inside
    omega
  have component : Ends (m.fetchRows (.components place) id (index * (kMr unit * kNr unit)) (kNr unit)
      (kMr unit) (kNr unit)) _ := fetchRows_ends room waiting
  refine (fetchLanes_ends (fun column hc => (ready.scalesW bk hb column hc).1)
    fun column hc => (ready.scalesW bk hb column hc).2).bind fun bsh known => ?_
  refine component.bind fun component sums => ?_
  refine (fetchLanes_ends (fun row hr => (ready.scalesA bk hb row hr).1)
    fun row hr => (ready.scalesA bk hb row hr).2).map fun aScales scales => ?_
  intro row hr column hc
  dsimp only
  rw [before row hr column hc, known column hc, sums row hr column hc, scales row hr]
  rfl

/-- A flush adds the waiting blocks to the tile and moves it to the sink. -/
theorem flush_ends (sink : Pointer) (ready : Ready unit args weights data m) {source : Source}
    {n count : ℕ} (hn : n + count ≤ args.blockCountK)
    (inside : count * (kMr unit * kNr unit) ≤ m.size (.components place))
    (waiting : ∀ index < count, HoldsComponent unit place data m index (n + index))
    (held : Supplies ops unit (data.sum ops start n) m source) (rows : kNr unit ≤ sink.stride)
    (bound : ∀ row < kMr unit, ∀ column < kNr unit,
      sink.base + row * sink.stride + column < m.size (.floats sink.buffer)) :
    Ends (flush ops unit place args source sink n count m) fun m' =>
      Within (TileCells unit sink) m m' ∧ HoldsTile unit sink (data.sum ops start (n + count)) m' := by
  have loop : ∀ acc : ℕ → ℕ → F, (∀ row < kMr unit, ∀ column < kNr unit,
      acc row column = data.sum ops start n row column) →
      Ends (forUp (fun index => reduceBlock ops unit place args (n + index) index m) 0 count acc)
        fun acc => ∀ row < kMr unit, ∀ column < kNr unit,
          acc row column = data.sum ops start (n + count) row column := by
    intro acc first
    refine loop_ends (fun i (acc : ℕ → ℕ → F) => ∀ row < kMr unit, ∀ column < kNr unit,
      acc row column = data.sum ops start (n + i) row column) first fun i hi acc before => ?_
    have room := Nat.mul_le_mul_right (kMr unit * kNr unit) (Nat.succ_le_of_lt hi)
    exact reduceBlock_ends ready (by omega) (room.trans inside) (waiting i hi) before
  refine (loadAccumulators_ends held).bind fun acc first => (loop acc first).bind fun acc last => ?_
  have stores : Fills m.size m.cell (fun _ _ => False) (fun memory => memory.storeRows
      (.floats sink.buffer) sink.base sink.stride (kMr unit) (kNr unit)
      fun row lane => some (acc row lane))
    (Function.update m.cell (.floats sink.buffer) fun x => some
      (data.sum ops start (n + count) ((x - sink.base) / sink.stride) ((x - sink.base) % sink.stride)))
    _ := Fills.storeRows bound fun row hr column hc => by
      rw [Function.update_self, Nat.add_assoc, Nat.add_sub_cancel_left,
        Layout.row (hc.trans_le rows), Layout.column (hc.trans_le rows), last row hr column hc]
  refine (stores m rfl fun _ _ no => no.elim).mono fun m' ⟨change, left⟩ => ⟨change, ?_⟩
  intro row hr column hc
  refine ⟨by rw [change.size]; exact bound row hr column hc, ?_⟩
  rw [left _ _ ⟨rfl, row, hr, column, hc, rfl⟩, Function.update_self, Nat.add_assoc,
    Nat.add_sub_cancel_left, Layout.row (hc.trans_le rows), Layout.column (hc.trans_le rows)]

end Flush

section Kernel

variable {ops : FloatOps F H} {unit : MatrixUnit} {place : Place} {args : Arguments}
variable {weights : ℕ → ℕ → BatchMemory F H → Option WeightRegisters} {source : Bool → Source}
variable {sink : Bool → Pointer} {data : TileData F H} {start : ℕ → ℕ → F} {m : BatchMemory F H}

def KernelCells (unit : MatrixUnit) (place : Place) (sink : Bool → Pointer) : Region Buffer :=
  fun k x => k = .components place ∨ ∃ last, TileCells unit (sink last) k x

/-- The loop invariant before block `bk`: the waiting components are the last blocks, the
accumulators hold all the others. -/
structure Progress (ops : FloatOps F H) (unit : MatrixUnit) (place : Place) (args : Arguments)
    (source : Bool → Source) (sink : Bool → Pointer) (data : TileData F H) (start : ℕ → ℕ → F)
    (m : BatchMemory F H) (bk : ℕ) (batch : Batch (BatchMemory F H)) : Prop where
  change : Within (KernelCells unit place sink) m batch.memory
  few : batch.reductionCount < 8
  past : batch.reductionCount ≤ bk
  done : bk = args.blockCountK → batch.reductionCount = 0
  first : batch.firstReductionFlush = true → bk = batch.reductionCount ∧
    Supplies ops unit start batch.memory (source true)
  later : batch.firstReductionFlush = false →
    HoldsTile unit (sink (bk = args.blockCountK)) (data.sum ops start (bk - batch.reductionCount))
      batch.memory
  waiting : ∀ index < batch.reductionCount,
    HoldsComponent unit place data batch.memory index (bk - batch.reductionCount + index)

theorem HoldsTile.within {S : Region Buffer} {p : Pointer} {f : ℕ → ℕ → F} {m' : BatchMemory F H}
    (h : HoldsTile unit p f m) (change : Within S m m') (apart : ∀ x, ¬ S (.floats p.buffer) x) :
    HoldsTile unit p f m' := by
  intro row hr column hc
  rw [change.size, change.frame _ _ (apart _)]
  exact h row hr column hc

theorem Supplies.within {S : Region Buffer} {s : Source} {f : ℕ → ℕ → F} {m' : BatchMemory F H}
    (h : Supplies ops unit f m s) (change : Within S m m') (apart : ∀ b x, ¬ S (.floats b) x) :
    Supplies ops unit f m' s := by
  cases s with
  | zero => exact h
  | cells p => exact HoldsTile.within h change (apart p.buffer)

/-- The components after a scatter: the new one, and those that waited already. -/
theorem scatter_ends {inner_acc : ℕ → ℕ → ℤ} {bk count : ℕ}
    (room : (count + 1) * (kMr unit * kNr unit) ≤ m.size (.components place))
    (sums : ∀ row < kMr unit, ∀ column < kNr unit,
      inner_acc (row / unit.width * 4 + column / unit.width)
        (row % unit.width * unit.width + column % unit.width) = data.component bk row column)
    (waiting : ∀ index < count, HoldsComponent unit place data m index (bk - count + index))
    (past : count ≤ bk) :
    Ends (scatter unit place (count * (kMr unit * kNr unit)) inner_acc m) fun m' =>
      Within (fun k _ => k = .components place) m m' ∧
        ∀ index < count + 1, HoldsComponent unit place data m' index (bk - count + index) := by
  have stores : Writes m.size (scatter unit place (count * (kMr unit * kNr unit)) inner_acc)
      (Function.update m.cell (.components place) fun x => some
        (data.component bk ((x - count * (kMr unit * kNr unit)) / kNr unit)
          ((x - count * (kMr unit * kNr unit)) % kNr unit))) _ :=
    scatter_writes (by rwa [Nat.add_mul, Nat.one_mul] at room) fun row hr column hc => by
      rw [Function.update_self, Nat.add_sub_cancel_left, Layout.row hc, Layout.column hc,
        sums row hr column hc]
  refine (stores m rfl fun _ _ no => no.elim).mono fun m' ⟨change, left⟩ => ?_
  refine ⟨change.mono fun _ _ cell => cell.1, ?_⟩
  intro index hi row hr column hc
  have inside := Layout.index_lt hr hc
  rcases Nat.lt_succ_iff_lt_or_eq.mp hi with earlier | rfl
  · have apart := Nat.mul_le_mul_right (kMr unit * kNr unit) (Nat.succ_le_of_lt earlier)
    rw [Nat.succ_mul] at apart
    rw [change.frame, waiting index earlier row hr column hc]
    rintro ⟨_, y, _, same⟩
    omega
  · rw [Nat.add_assoc, left _ _ ⟨rfl, _, inside, rfl⟩, Function.update_self, Nat.add_sub_cancel_left,
      Layout.row hc, Layout.column hc, Nat.sub_add_cancel past]

variable [Inhabited F] [Inhabited H]

/-- One round keeps the invariant: a flush takes all that waits, any other round lets it grow. -/
theorem blockStep_ends (ready : ∀ m', Within (KernelCells unit place sink) m m' →
      Ready unit args weights data m')
    (again : source false = .cells (sink false)) (rows : ∀ last, kNr unit ≤ (sink last).stride)
    (bound : ∀ last, ∀ row < kMr unit, ∀ column < kNr unit,
      (sink last).base + row * (sink last).stride + column < m.size (.floats (sink last).buffer))
    (room : 8 * (kMr unit * kNr unit) ≤ m.size (.components place)) {bk : ℕ}
    (hb : bk < args.blockCountK) {batch : Batch (BatchMemory F H)}
    (before : Progress ops unit place args source sink data start m bk batch) :
    Ends (blockStep ops unit place weights args source sink bk batch)
      (Progress ops unit place args source sink data start m (bk + 1)) := by
  obtain ⟨count, first, memory⟩ := batch
  obtain ⟨change, few, past, done, opening, later, waiting⟩ := before
  dsimp only at change few past done opening later waiting
  have enough : (count + 1) * (kMr unit * kNr unit) ≤ memory.size (.components place) := by
    rw [change.size]
    exact (Nat.mul_le_mul_right _ (Nat.succ_le_of_lt few)).trans room
  refine ((ready memory change).dots bk hb).bind fun inner_acc sums => ?_
  refine (scatter_ends enough sums waiting past).bind fun memory₁ ⟨scattered, waiting₁⟩ => ?_
  have change₁ := change.trans (scattered.mono (T := KernelCells unit place sink) fun _ _ => .inl)
  have apart : ∀ (b : Floats) (_ : ℕ), ¬ Buffer.floats b = .components place := nofun
  dsimp only
  split
  · next full =>
    have held : Supplies ops unit (data.sum ops start (bk - count)) memory₁ (source first) := by
      cases first with
      | true =>
          obtain ⟨rfl, supplied⟩ := opening rfl
          rw [Nat.sub_self]
          exact supplied.within scattered apart
      | false =>
          have tile := later rfl
          rw [decide_eq_false (by omega)] at tile
          rw [again]
          exact HoldsTile.within tile scattered (apart _)
    have total : bk - count + (count + 1) = bk + 1 := by omega
    have flushes := flush_ends (sink (bk + 1 = args.blockCountK)) (ready memory₁ change₁)
      (by omega) (by rw [scattered.size]; exact enough)
      waiting₁ held (rows _) (by rw [change₁.size]; exact bound _)
    rw [Nat.add_sub_add_right]
    refine flushes.map fun memory₂ ⟨flushed, tile⟩ => ?_
    rw [total] at tile
    exact ⟨change₁.trans (flushed.mono fun _ _ cell => .inr ⟨_, cell⟩), Nat.succ_pos 7,
      Nat.zero_le _, fun _ => rfl, nofun, fun _ => tile, fun _ no => absurd no (Nat.not_lt_zero _)⟩
  · next open_ =>
    obtain ⟨notFull, notLast⟩ := not_or.mp open_
    refine .some ⟨change₁, by dsimp only; omega, by dsimp only; omega, fun no => absurd no notLast,
      fun isFirst => ?_, fun notFirst => ?_, ?_⟩
    · obtain ⟨same, supplied⟩ := opening isFirst
      exact ⟨congrArg (· + 1) same, supplied.within scattered apart⟩
    · have tile := later notFirst
      rw [decide_eq_false (by omega)] at tile
      dsimp only
      rw [decide_eq_false notLast, Nat.add_sub_add_right]
      exact HoldsTile.within tile scattered (apart _)
    · dsimp only
      rwa [Nat.add_sub_add_right]

/-- A kernel leaves the sums of all its blocks in the last sink. -/
theorem batchKernel_ends (source : Bool → Source) (ready : ∀ m', Within (KernelCells unit place sink) m m' →
      Ready unit args weights data m')
    (again : source false = .cells (sink false)) (rows : ∀ last, kNr unit ≤ (sink last).stride)
    (bound : ∀ last, ∀ row < kMr unit, ∀ column < kNr unit,
      (sink last).base + row * (sink last).stride + column < m.size (.floats (sink last).buffer))
    (room : 8 * (kMr unit * kNr unit) ≤ m.size (.components place)) (blocks : 0 < args.blockCountK)
    (supplied : Supplies ops unit start m (source true)) :
    Ends (batchKernel ops unit place weights args source sink m) fun m' =>
      Within (KernelCells unit place sink) m m' ∧
        HoldsTile unit (sink true) (data.sum ops start args.blockCountK) m' := by
  have begins : Progress ops unit place args source sink data start m 0 ⟨0, true, m⟩ :=
    ⟨.refl _ m, Nat.succ_pos 7, Nat.le_refl 0, fun _ => rfl, fun _ => ⟨rfl, supplied⟩,
      nofun, fun _ no => absurd no (Nat.not_lt_zero _)⟩
  have run := loop_ends (Progress ops unit place args source sink data start m) begins
    fun bk (hb : bk < args.blockCountK) batch before =>
      blockStep_ends ready again rows bound room hb before
  refine run.map fun batch last => ⟨last.change, ?_⟩
  cases isFirst : batch.firstReductionFlush with
  | true =>
      have := (last.first isFirst).1
      have := last.done rfl
      omega
  | false =>
      have tile := last.later isFirst
      rwa [last.done rfl, Nat.sub_zero, decide_eq_true rfl] at tile

end Kernel

end Pfng.Q40.BatchReduction
