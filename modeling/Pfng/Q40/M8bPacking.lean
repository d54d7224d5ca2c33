import Pfng.Q40.M8bRun

/-! What the two `prepare`s of `q4_0-q8_0-IME-m8b` leave: both fill the layout that their kernel
reads, the first generation by way of staged blocks. -/
namespace Pfng.Q40.BatchReduction
open Checked Ime Finset

variable {F H : Type} {ops : FloatOps F H} {request : Bench.BenchmarkRequest}
variable {operands : Operands F H} {fourRowScale : ℕ → ℕ → F} {slot : ℕ → ℕ × ℕ} {c : ℕ → Option F}
variable {slots : ℕ}

def plainSlot (request : Bench.BenchmarkRequest) (s : ℕ) : ℕ × ℕ :=
  (s / (request.k / 32), s % (request.k / 32))

def plainLive (request : Bench.BenchmarkRequest) (unit : MatrixUnit) (s : ℕ) : Prop :=
  s < request.m / kMr unit * (request.k / 32)

section Weights

theorem nibble_low (w : BlockQ40 H) {k : ℕ} (hk : k < 16) : nibble w k = w.qs k &&& 15 := if_pos hk

theorem nibble_high (w : BlockQ40 H) (k : ℕ) : nibble w (16 + k) = w.qs k >>> 4 := by
  rw [nibble, if_neg (by omega), Nat.add_sub_cancel_left]

theorem packQ4N16_eq (rows : ℕ → BlockQ40 H) {o : ℕ} (ho : o < 256) :
    packQ4N16 rows o =
      packedByte .ime1 (rows (weightColumn .ime1 o)) (weightDepth .ime1 o) := by
  have high : ∀ x : BitVec 8, (x &&& 0xf0#8) >>> 4 = x >>> 4 := by decide
  have pair : ∀ x : BitVec 8, x &&& 0xf0#8 = (x >>> 4) <<< 4 := by decide
  have column : weightColumn .ime1 o = o % 128 / 8 := by
    simp only [weightColumn, kBytesPerMIV, MatrixUnit.width, MatrixUnit.depth]
    omega
  have depth : weightDepth .ime1 o = o / 128 * 16 + o % 8 := rfl
  rw [packQ4N16, packedByte, column, depth, show MatrixUnit.depth .ime1 = 8 from rfl]
  by_cases low : o < 128
  · rw [if_pos low, show o / 128 * 16 + o % 8 = o % 8 by omega, nibble_low _ (by omega),
      nibble_low _ (by omega), Nat.add_comm 8]
    rfl
  · rw [if_neg low, show o / 128 * 16 + o % 8 = 16 + o % 8 by omega,
      show 8 + (16 + o % 8) = 16 + (o % 8 + 8) by omega, nibble_high, nibble_high, high, pair]

def WeightCells (request : Bench.BenchmarkRequest) (unit : MatrixUnit) : Region Buffer
  | .bytes .packedB, x => x < request.n / kNr unit * (request.k / 32) * (kNr unit * 16)
  | .scalesB, x => x < request.n / kNr unit * (request.k / 32) * kNr unit
  | _, _ => False

theorem weightCells_iff {unit : MatrixUnit} {k : Buffer} {x : ℕ} : WeightCells request unit k x ↔
    ∃ tile < request.n / kNr unit, ∃ block < request.k / 32,
      (k = .bytes .packedB ∧ ∃ o < kNr unit * 16,
        x = (tile * (request.k / 32) + block) * (kNr unit * 16) + o) ∨
      k = .scalesB ∧ ∃ column < kNr unit,
        x = (tile * (request.k / 32) + block) * kNr unit + column := by
  constructor
  · intro cell
    unfold WeightCells at cell
    split at cell
    · obtain ⟨s, hs, o, ho, rfl⟩ := Layout.lt_iff.mp cell
      obtain ⟨tile, ht, block, hb, rfl⟩ := Layout.lt_iff.mp hs
      exact ⟨tile, ht, block, hb, .inl ⟨rfl, o, ho, rfl⟩⟩
    · obtain ⟨s, hs, column, hc, rfl⟩ := Layout.lt_iff.mp cell
      obtain ⟨tile, ht, block, hb, rfl⟩ := Layout.lt_iff.mp hs
      exact ⟨tile, ht, block, hb, .inr ⟨rfl, column, hc, rfl⟩⟩
    · exact cell.elim
  · rintro ⟨tile, ht, block, hb, ⟨rfl, o, ho, rfl⟩ | ⟨rfl, column, hc, rfl⟩⟩
    · exact Layout.index_lt (Layout.index_lt ht hb) ho
    · exact Layout.index_lt (Layout.index_lt ht hb) hc

theorem packN16_writes :
    Writes (bufferSize request .ime1 slots) (packN16 request operands)
      (contents ops request operands .ime1 slot c) (WeightCells request .ime1) := by
  have stores : Writes (bufferSize request .ime1 slots) (packN16 request operands)
      (contents ops request operands .ime1 slot c) _ :=
    Writes.loop fun tile ht => Writes.loop fun block hb => Writes.seq
      (Writes.storeLanes (fun o ho => Layout.index_lt (Layout.index_lt ht hb) ho) fun o ho => by
        rw [packQ4N16_eq _ ho]
        change _ = some _
        rw [show kNr .ime1 * 16 = 256 from rfl, Layout.row ho, Layout.column ho, Layout.row hb,
          Layout.column hb]
        rfl)
      (Writes.storeLanes (fun row hr => Layout.index_lt (Layout.index_lt ht hb) hr) fun row hr => by
        change _ = some _
        rw [show kNr .ime1 = 16 from rfl, Layout.row hr, Layout.column hr, Layout.row hb,
          Layout.column hb]
        rfl)
  refine stores.weaken (fun _ _ no => no) fun k x => ?_
  exact weightCells_iff

theorem packWeightsIme2_writes :
    Writes (bufferSize request .ime2 slots) (packWeightsIme2 request operands)
      (contents ops request operands .ime2 slot c) (WeightCells request .ime2) := by
  have pair : ∀ x : BitVec 8, (x &&& 15#8) ||| (x >>> 4) <<< 4 = x := by decide
  have stores : Writes (bufferSize request .ime2 slots) (packWeightsIme2 request operands)
      (contents ops request operands .ime2 slot c) _ :=
    Writes.loop fun tile ht => Writes.loop fun block hb => Writes.loop fun column hc => Writes.seq
      (Writes.storeLanes (fun j hj => by
        have := Layout.index_lt ht hb
        change _ < request.n / 32 * (request.k / 32) * 512
        omega) fun j hj => by
          have place : (tile * (request.k / 32) + block) * 512 + column / 8 * 128 + column % 8 * 16 +
              j = (tile * (request.k / 32) + block) * 512 +
                (column / 8 * 128 + column % 8 * 16 + j) := by omega
          have inside : column / 8 * 128 + column % 8 * 16 + j < 512 := by omega
          have same : weightColumn .ime2 (column / 8 * 128 + column % 8 * 16 + j) = column := by
            simp only [weightColumn, kBytesPerMIV, MatrixUnit.width, MatrixUnit.depth]
            omega
          have depth : weightDepth .ime2 (column / 8 * 128 + column % 8 * 16 + j) = j := by
            simp only [weightDepth, kBytesPerMIV, MatrixUnit.width, MatrixUnit.depth]
            omega
          rw [place]
          change _ = some _
          rw [show kNr .ime2 * 16 = 512 from rfl, Layout.row inside, Layout.column inside,
            Layout.row hb, Layout.column hb, same, depth, packedByte, nibble_low _ hj,
            show MatrixUnit.depth .ime2 = 16 from rfl, nibble_high]
          exact congrArg some (pair _).symm)
      (Writes.store (Layout.index_lt (Layout.index_lt ht hb) hc) (by
        change _ = some _
        rw [show kNr .ime2 = 32 from rfl, Layout.row hc, Layout.column hc, Layout.row hb,
          Layout.column hb]
        rfl))
  refine stores.weaken (fun _ _ no => no) fun k x => weightCells_iff.trans ?_
  constructor
  · rintro ⟨tile, ht, block, hb, ⟨rfl, o, ho, rfl⟩ | ⟨rfl, column, hc, rfl⟩⟩
    · change o < 512 at ho
      refine ⟨tile, ht, block, hb, o / 16, ?_, .inl ⟨rfl, o % 16, Nat.mod_lt _ (by decide), ?_⟩⟩
      · omega
      · change _ * 512 + o = _
        omega
    · exact ⟨tile, ht, block, hb, column, hc, .inr ⟨rfl, rfl⟩⟩
  · rintro ⟨tile, ht, block, hb, column, hc, ⟨rfl, j, hj, rfl⟩ | ⟨rfl, rfl⟩⟩
    · refine ⟨tile, ht, block, hb, .inl ⟨rfl, column / 8 * 128 + column % 8 * 16 + j, ?_, ?_⟩⟩
      · change _ < 512
        omega
      · change _ = _ * 512 + _
        omega
    · exact ⟨tile, ht, block, hb, .inr ⟨rfl, column, hc, rfl⟩⟩

end Weights

section Activation

def ActivationCells (request : Bench.BenchmarkRequest) (unit : MatrixUnit) : Region Buffer
  | .bytes .packedA, x => x < request.m / kMr unit * (request.k / 32) * (kMr unit * 32)
  | .floats .packedA, x => x < request.m / kMr unit * (request.k / 32) * kMr unit
  | _, _ => False

theorem activationCells_iff {unit : MatrixUnit} {k : Buffer} {x : ℕ} :
    ActivationCells request unit k x ↔
      ∃ tile < request.m / kMr unit, ∃ block < request.k / 32,
        (k = .bytes .packedA ∧ ∃ o < kMr unit * 32,
          x = (tile * (request.k / 32) + block) * (kMr unit * 32) + o) ∨
        k = .floats .packedA ∧ ∃ row < kMr unit,
          x = (tile * (request.k / 32) + block) * kMr unit + row := by
  constructor
  · intro cell
    unfold ActivationCells at cell
    split at cell
    · obtain ⟨s, hs, o, ho, rfl⟩ := Layout.lt_iff.mp cell
      obtain ⟨tile, ht, block, hb, rfl⟩ := Layout.lt_iff.mp hs
      exact ⟨tile, ht, block, hb, .inl ⟨rfl, o, ho, rfl⟩⟩
    · obtain ⟨s, hs, row, hr, rfl⟩ := Layout.lt_iff.mp cell
      obtain ⟨tile, ht, block, hb, rfl⟩ := Layout.lt_iff.mp hs
      exact ⟨tile, ht, block, hb, .inr ⟨rfl, row, hr, rfl⟩⟩
    · exact cell.elim
  · rintro ⟨tile, ht, block, hb, ⟨rfl, o, ho, rfl⟩ | ⟨rfl, row, hr, rfl⟩⟩
    · exact Layout.index_lt (Layout.index_lt ht hb) ho
    · exact Layout.index_lt (Layout.index_lt ht hb) hr

theorem packActivationIme2_writes :
    Writes (bufferSize request .ime2 (request.m / 16 * (request.k / 32)))
      (packActivationIme2 request operands)
      (contents ops request operands .ime2 (plainSlot request) c) (ActivationCells request .ime2) := by
  have stores : Writes (bufferSize request .ime2 (request.m / 16 * (request.k / 32)))
      (packActivationIme2 request operands)
      (contents ops request operands .ime2 (plainSlot request) c) _ :=
    Writes.loop fun tile ht => Writes.loop fun block hb => Writes.loop fun row hr => Writes.seq
      (Writes.loop fun window hw => Writes.storeLanes (fun j hj => by
        have := Layout.index_lt ht hb
        change _ < request.m / 16 * (request.k / 32) * 512
        omega) fun j hj => by
          have place : (tile * (request.k / 32) + block) * 512 + (row / 8 * 2 + window) * 128 +
              row % 8 * 16 + j = (tile * (request.k / 32) + block) * 512 +
                ((row / 8 * 2 + window) * 128 + row % 8 * 16 + j) := by omega
          have inside : (row / 8 * 2 + window) * 128 + row % 8 * 16 + j < 512 := by omega
          have same : quantRow .ime2 ((row / 8 * 2 + window) * 128 + row % 8 * 16 + j) = row := by
            simp only [quantRow, kBytesPerMIV, MatrixUnit.width, MatrixUnit.depth]
            omega
          have depth : quantDepth .ime2 ((row / 8 * 2 + window) * 128 + row % 8 * 16 + j) =
              window * 16 + j := by
            simp only [quantDepth, kBytesPerMIV, MatrixUnit.width, MatrixUnit.depth]
            omega
          rw [place]
          change _ = some _
          rw [show kMr .ime2 * 32 = 512 from rfl, Layout.row inside, Layout.column inside, plainSlot,
            Layout.row hb, Layout.column hb, same, depth]
          rfl)
      (Writes.store (Layout.index_lt (Layout.index_lt ht hb) hr) (by
        change _ = some _
        rw [show kMr .ime2 = 16 from rfl, Layout.row hr, Layout.column hr, plainSlot, Layout.row hb,
          Layout.column hb]))
  refine stores.weaken (fun _ _ no => no) fun k x => activationCells_iff.trans ?_
  constructor
  · rintro ⟨tile, ht, block, hb, ⟨rfl, o, ho, rfl⟩ | ⟨rfl, row, hr, rfl⟩⟩
    · change o < 512 at ho
      refine ⟨tile, ht, block, hb, o / 256 * 8 + o % 128 / 16, ?_, .inl ⟨o % 256 / 128, ?_, rfl,
        o % 16, Nat.mod_lt _ (by decide), ?_⟩⟩
      · omega
      · omega
      · change _ * 512 + o = _
        omega
    · exact ⟨tile, ht, block, hb, row, hr, .inr ⟨rfl, rfl⟩⟩
  · rintro ⟨tile, ht, block, hb, row, hr, ⟨window, hw, rfl, j, hj, rfl⟩ | ⟨rfl, rfl⟩⟩
    · refine ⟨tile, ht, block, hb, .inl ⟨rfl, (row / 8 * 2 + window) * 128 + row % 8 * 16 + j, ?_, ?_⟩⟩
      · change _ < 512
        omega
      · change _ = _ * 512 + _
        omega
    · exact ⟨tile, ht, block, hb, .inr ⟨rfl, row, hr, rfl⟩⟩

def StagedCells (request : Bench.BenchmarkRequest) : Region Buffer
  | .bytes .staged, x => x < request.m / 8 * (request.k / 32) * 256
  | .floats .staged, x => x < request.m / 8 * (request.k / 32) * 8
  | _, _ => False

def StagedHalf (request : Bench.BenchmarkRequest) (tile half block : ℕ) : Region Buffer := fun k x =>
  (k = .floats .staged ∧ ∃ row < 4,
    x = (tile * (request.k / 32) + block) * 8 + (half * 4 + row)) ∨
  k = .bytes .staged ∧ ∃ i < 128, x = (tile * (request.k / 32) + block) * 256 + half * 128 + i

/-- The quantiser's own scales do not remain. -/
theorem stageFourRows_writes {tile half block : ℕ} (ht : tile < request.m / 8) (hh : half < 2)
    (hb : block < request.k / 32) :
    Writes (bufferSize request .ime1 slots)
      (stageFourRows request operands fourRowScale tile half block)
      (contents ops request operands .ime1 slot c) (StagedHalf request tile half block) := by
  have index := Layout.index_lt ht hb
  have room : ∀ row < 4, (tile * (request.k / 32) + block) * 8 + (half * 4 + row) <
      request.m / 8 * (request.k / 32) * 8 := by
    intro row hr
    omega
  have own : Effect (bufferSize request .ime1 slots) (contents ops request operands .ime1 slot c)
      (fun _ _ => False) (fun memory => memory.storeLanes (.floats .staged)
        ((tile * (request.k / 32) + block) * 8 + half * 4) 4
        fun row => some (fourRowScale (tile * 8 + (half * 4 + row)) block)) _ _ _ :=
    Effect.clobber (fun row hr => by rw [Nat.add_assoc]; exact room row hr) fun _ _ no => no
  have scales : Writes (bufferSize request .ime1 slots) (fun memory => forUp (fun row memory =>
      memory.store (.floats .staged) ((tile * (request.k / 32) + block) * 8 + (half * 4 + row))
        (some (operands.activation (tile * 8 + (half * 4 + row)) block).d)) 0 4 memory)
      (contents ops request operands .ime1 slot c) _ :=
    Writes.loop fun row hr => Writes.store (room row hr) (by
      have inside : half * 4 + row < 8 := by omega
      change _ = some _
      rw [Layout.row inside, Layout.column inside, Layout.row hb, Layout.column hb])
  have quants : Writes (bufferSize request .ime1 slots) (fun memory => memory.storeLanes
      (.bytes .staged) ((tile * (request.k / 32) + block) * 256 + half * 128) 128 fun i => some
        ((operands.activation (tile * 8 + (half * 4 + i % 32 / 8)) block).qs (i / 32 * 8 + i % 8)))
      (contents ops request operands .ime1 slot c) _ :=
    Writes.storeLanes (fun i hi => by
      change _ < request.m / 8 * (request.k / 32) * 256
      omega) fun i hi => by
        have inside : half * 128 + i < 256 := by omega
        have row : stagedRow (half * 128 + i) = half * 4 + i % 32 / 8 := by
          rw [stagedRow]
          omega
        have depth : stagedDepth (half * 128 + i) = i / 32 * 8 + i % 8 := by
          rw [stagedDepth]
          omega
        rw [Nat.add_assoc]
        change _ = some _
        rw [Layout.row inside, Layout.column inside, Layout.row hb, Layout.column hb, row, depth]
  have whole := own.seq (Writes.seq scales quants)
  refine whole.weaken (fun _ _ no => no.elim) ?_ ?_
  · rintro k x (⟨rfl, row, hr, rfl⟩ | ⟨rfl, i, hi, rfl⟩)
    · exact .inl ⟨.inl ⟨row, hr, rfl, rfl⟩, rfl⟩
    · exact .inl ⟨.inr ⟨rfl, i, hi, rfl⟩, rfl⟩
  · rintro k x (⟨rfl, row, hr, rfl⟩ | ⟨row, hr, rfl, rfl⟩ | ⟨rfl, i, hi, rfl⟩)
    · exact .inl ⟨rfl, row, hr, Nat.add_assoc _ _ _⟩
    · exact .inl ⟨rfl, row, hr, rfl⟩
    · exact .inr ⟨rfl, i, hi, rfl⟩

theorem initialize_writes :
    Writes (bufferSize request .ime1 slots) (initializeQ40Ime8 request operands fourRowScale)
      (contents ops request operands .ime1 slot c)
      (fun k x => StagedCells request k x ∨ WeightCells request .ime1 k x) := by
  have staged : Writes (bufferSize request .ime1 slots)
      (forUp (fun tile => forUp (fun half => forUp (fun block =>
        stageFourRows request operands fourRowScale tile half block) 0 (request.k / 32)) 0 2)
        0 (request.m / 8)) (contents ops request operands .ime1 slot c) _ :=
    Writes.loop fun tile ht => Writes.loop fun half hh => Writes.loop fun block hb =>
      stageFourRows_writes ht hh hb
  refine (Writes.seq staged packN16_writes).weaken (fun _ _ no => no) fun k x => or_congr ?_ Iff.rfl
  constructor
  · intro cell
    unfold StagedCells at cell
    split at cell
    · obtain ⟨s, hs, o, ho, rfl⟩ := Layout.lt_iff.mp cell
      obtain ⟨tile, ht, block, hb, rfl⟩ := Layout.lt_iff.mp hs
      exact ⟨tile, ht, o / 128, by omega, block, hb, .inr ⟨rfl, o % 128, by omega, by omega⟩⟩
    · obtain ⟨s, hs, o, ho, rfl⟩ := Layout.lt_iff.mp cell
      obtain ⟨tile, ht, block, hb, rfl⟩ := Layout.lt_iff.mp hs
      exact ⟨tile, ht, o / 4, by omega, block, hb, .inl ⟨rfl, o % 4, by omega, by omega⟩⟩
    · exact cell.elim
  · rintro ⟨tile, ht, half, hh, block, hb, ⟨rfl, row, hr, rfl⟩ | ⟨rfl, i, hi, rfl⟩⟩
    · exact Layout.index_lt (Layout.index_lt ht hb) (by omega)
    · rw [Nat.add_assoc]
      exact Layout.index_lt (Layout.index_lt ht hb) (by omega)

theorem packedAChunkOrder_eq : ∀ p < 8, packedAChunkOrder p = p % 4 / 2 * 4 + (p / 4 * 2 + p % 2) := by
  decide

theorem copyChunks_fills {source target : ℕ} {tile block : ℕ}
    (hs : source = tile * (request.k / 32) + block) (ht : tile < request.m / 8)
    (hb : block < request.k / 32) (room : target < slots) (same : slot target = (tile, block)) :
    Fills (bufferSize request .ime1 slots) (contents ops request operands .ime1 slot c)
      (StagedCells request) (copyChunks source target) (contents ops request operands .ime1 slot c)
      (fun k x => k = .bytes .packedA ∧ ∃ o < 256, x = target * 256 + o) := by
  have index := Layout.index_lt ht hb
  have copies : Fills (bufferSize request .ime1 slots) (contents ops request operands .ime1 slot c)
      (StagedCells request) (copyChunks source target) (contents ops request operands .ime1 slot c)
      _ :=
    Fills.loop (fun p hp => Fills.copyLanes (fun lane => (operands.activation
        (tile * 8 + (p % 4 / 2 * 4 + lane / 8)) block).qs ((p / 4 * 2 + p % 2) * 8 + lane % 8))
      (fun lane hl => ?_) (fun lane hl => ?_) (fun lane hl => ?_) fun lane hl => ?_) ?_
  · refine copies.weaken (fun _ _ cell => cell) fun k x => ?_
    constructor
    · rintro ⟨rfl, o, ho, rfl⟩
      exact ⟨o / 32, by omega, rfl, o % 32, by omega, by omega⟩
    · rintro ⟨p, hp, rfl, lane, hl, rfl⟩
      exact ⟨rfl, p * 32 + lane, by omega, by omega⟩
  · have order := packedAChunkOrder_eq p hp
    change _ < request.m / 8 * (request.k / 32) * 256
    omega
  · change _ < slots * 256
    omega
  · have order := packedAChunkOrder_eq p hp
    have inside : packedAChunkOrder p * 32 + lane < 256 := by omega
    have row : stagedRow (packedAChunkOrder p * 32 + lane) = p % 4 / 2 * 4 + lane / 8 := by
      rw [stagedRow]
      omega
    have depth : stagedDepth (packedAChunkOrder p * 32 + lane) =
        (p / 4 * 2 + p % 2) * 8 + lane % 8 := by
      rw [stagedDepth]
      omega
    rw [Nat.add_assoc, hs]
    refine ⟨Layout.index_lt index inside, ?_⟩
    change some _ = some _
    rw [Layout.row inside, Layout.column inside, Layout.row hb, Layout.column hb, row, depth]
  · have inside : p * 32 + lane < 256 := by omega
    have row : quantRow .ime1 (p * 32 + lane) = p % 4 / 2 * 4 + lane / 8 := by
      simp only [quantRow, kBytesPerMIV, MatrixUnit.width, MatrixUnit.depth]
      omega
    have depth : quantDepth .ime1 (p * 32 + lane) = (p / 4 * 2 + p % 2) * 8 + lane % 8 := by
      simp only [quantDepth, kBytesPerMIV, MatrixUnit.width, MatrixUnit.depth]
      omega
    rw [Nat.add_assoc]
    change some _ = some _
    rw [show kMr .ime1 * 32 = 256 from rfl, Layout.row inside, Layout.column inside, same, row, depth]
    rfl
  · rintro p _ k x cell ⟨rfl, _⟩
    exact cell

theorem copyScales_fills [Inhabited F] {source target : ℕ} {tile block : ℕ}
    (hs : source = tile * (request.k / 32) + block) (ht : tile < request.m / 8)
    (hb : block < request.k / 32) (room : target < slots) (same : slot target = (tile, block)) :
    Fills (bufferSize request .ime1 slots) (contents ops request operands .ime1 slot c)
      (StagedCells request) (copyFloats .staged .packedA (source * 8) (target * 8) 8)
      (contents ops request operands .ime1 slot c)
      (fun k x => k = .floats .packedA ∧ ∃ row < 8, x = target * 8 + row) := by
  have index := Layout.index_lt ht hb
  refine Fills.copyLanes (fun row => (operands.activation (tile * 8 + row) block).d) ?_ ?_ ?_ ?_
  · intro row hr
    rw [hs]
    exact Layout.index_lt index hr
  · intro row hr
    exact Layout.index_lt room hr
  · intro row hr
    rw [hs]
    refine ⟨Layout.index_lt index hr, ?_⟩
    change some _ = some _
    rw [Layout.row hr, Layout.column hr, Layout.row hb, Layout.column hb]
  · intro row hr
    change some _ = some _
    rw [show kMr .ime1 = 8 from rfl, Layout.row hr, Layout.column hr, same]

def SlotCells (target : ℕ) : Region Buffer := fun k x =>
  (k = .bytes .packedA ∧ ∃ o < 256, x = target * 256 + o) ∨
    k = .floats .packedA ∧ ∃ row < 8, x = target * 8 + row

theorem staged_apart {target : ℕ} {k : Buffer} {x y : ℕ} (cell : StagedCells request k x) :
    ¬ SlotCells target k y := by
  rintro (⟨rfl, _⟩ | ⟨rfl, _⟩)
  · exact cell
  · exact cell

theorem reorder_fills [Inhabited F] :
    Fills (bufferSize request .ime1 (request.m / 8 * (request.k / 32)))
      (contents ops request operands .ime1 (plainSlot request) c) (StagedCells request)
      (reorder (request.m / 8 * (request.k / 32)))
      (contents ops request operands .ime1 (plainSlot request) c)
      fun k x => ∃ s, plainLive request .ime1 s ∧ SlotCells s k x := by
  have blocks : ∀ s < request.m / 8 * (request.k / 32),
      Fills (bufferSize request .ime1 (request.m / 8 * (request.k / 32)))
        (contents ops request operands .ime1 (plainSlot request) c) (StagedCells request)
        (fun memory => (copyChunks s s memory).bind (copyFloats .staged .packedA (s * 8) (s * 8) 8))
        (contents ops request operands .ime1 (plainSlot request) c) (SlotCells s) := by
    intro s hs
    obtain ⟨tile, ht, block, hb, rfl⟩ := Layout.lt_iff.mp hs
    have same : plainSlot request (tile * (request.k / 32) + block) = (tile, block) := by
      rw [plainSlot, Layout.row hb, Layout.column hb]
    exact (Fills.seq (copyChunks_fills rfl ht hb hs same) (copyScales_fills rfl ht hb hs same)
      fun k x cell no => absurd (.inl no) (staged_apart cell)).weaken (fun _ _ cell => cell.elim id id)
      fun _ _ => Iff.rfl
  exact Fills.loop blocks fun s _ k x cell => staged_apart cell

end Activation

end Pfng.Q40.BatchReduction
