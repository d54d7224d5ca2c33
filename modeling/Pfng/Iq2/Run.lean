import Pfng.Iq2.Tile
import Pfng.Lib.Blocking

/-! The two kernels over a whole matrix. The immediate-reduce kernel ends with one product per
element; the batch-reduce kernel adds one panel after another to the output. -/
namespace Pfng.Iq2
open Checked Register Rvv

variable {α : Type} {ops : FloatOps α α} {eighth : α} {p : Problem α}

namespace Problem

def chunkBlocks (p : Problem α) (i_kc : ℕ) : ℕ := min (p.blocks - i_kc * kcBlocks) kcBlocks

def chunks (p : Problem α) : ℕ := divCeil (p.blocks * 256) (kcBlocks * 256)

/-- `sum` after a chunk. -/
def chunkSum (ops : FloatOps α α) (p : Problem α) (row column i_kc : ℕ) : α :=
  p.panelSum ops row column (i_kc * kcBlocks) (p.chunkBlocks i_kc - 1)

def irElement (ops : FloatOps α α) (eighth : α) (p : Problem α) (row column : ℕ) : α :=
  ops.mul (p.panelSum ops row column 0 (p.blocks - 1)) eighth

/-- The output of the batch-reduce kernel after chunk `i_kc`. -/
def brElement (ops : FloatOps α α) (eighth : α) (p : Problem α) (row column : ℕ) : ℕ → α
  | 0 => ops.mul (p.chunkSum ops row column 0) eighth
  | i_kc+1 => ops.fma (brElement ops eighth p row column i_kc) eighth
      (p.chunkSum ops row column (i_kc + 1))

theorem chunks_eq (p : Problem α) : p.chunks = (p.blocks + 63) / 64 := by
  simp only [chunks, divCeil, kcBlocks]
  omega

theorem chunkBlocks_pos {i_kc : ℕ} (h : i_kc < p.chunks) : 0 < p.chunkBlocks i_kc := by
  rw [chunks_eq] at h
  simp only [chunkBlocks, kcBlocks]
  omega

theorem chunk_block_lt {i_kc i_qk : ℕ} (h : i_qk < p.chunkBlocks i_kc) :
    i_kc * kcBlocks + i_qk < p.blocks := by
  simp only [chunkBlocks, kcBlocks] at *
  omega

end Problem

section Holds

variable {size : Buffer → ℕ} {packed' : PackedMemory α} {source : ℕ → ℕ → BlockIq2xxs α}
variable {T : Region Buffer} {widen : α → α} {i_mr i_nr block slot : ℕ}

/-- A slot that holds the weights of a block serves the block. -/
theorem holdsBlock (sizes : packed'.size = size)
    (held : HoldsActivation p.activation p.tilesM p.blocks packed')
    (holds : Holds (packed p.activation p.blocks source) T packed')
    (cells : ∀ k x, slotCells slot k x → T k x) (roomQs : (slot + 1) * 8192 ≤ size .weightQs)
    (roomScale : (slot + 1) * 256 ≤ size .weightScale) (roomD : (slot + 1) * 32 ≤ size .weightD)
    (hm : i_mr < p.tilesM) (hb : block < p.blocks)
    (quants : ∀ i_n < 32, (source slot i_n).qs = (p.blockW (i_nr * 32 + i_n) block).qs)
    (scales : ∀ i_n < 32, widen (source slot i_n).d =
      ops.widen (p.blockW (i_nr * 32 + i_n) block).d) :
    HoldsBlock ops p widen i_mr i_nr block packed' (i_mr * p.blocks + block) slot := by
  constructor
  · intro i_qsk hq i hi
    refine (sumSubblock_ends sizes held hm hb hi holds (fun x hx => cells .weightQs x hx) roomQs hq
      (by decide)).mono fun sum sums => ?_
    intro lane hl
    rw [sums lane hl, quants lane hl]
    rfl
  · intro i_qsk hq
    have loaded : ∃ w, packed'.loadLanes .weightScale (slot * 256 + i_qsk * 32) 32 = some w ∧
        ∀ lane < 32, w lane =
          packed p.activation p.blocks source .weightScale (slot * 256 + i_qsk * 32 + lane) := by
      refine loadLanes_eq holds sizes (by omega) fun lane hl => cells .weightScale _ ?_
      change _ / 256 = slot
      omega
    obtain ⟨w, run, lanes⟩ := loaded
    refine ⟨w, run, fun lane hl => ?_⟩
    rw [lanes lane hl, Nat.add_assoc, packed_weightScale hq hl, quants lane hl]
    rfl
  · intro i hi
    exact held.scale i_mr hm block hb i hi
  · have loaded : ∃ w, packed'.loadLanes .weightD (slot * 32) 32 = some w ∧ ∀ lane < 32,
        w lane = packed p.activation p.blocks source .weightD (slot * 32 + lane) := by
      refine loadLanes_eq holds sizes (by omega) fun lane hl => cells .weightD _ ?_
      change _ / 32 = slot
      omega
    obtain ⟨w, run, lanes⟩ := loaded
    refine ⟨w, run, fun lane hl => ?_⟩
    rw [lanes lane hl, packed_weightD hl, scales lane hl]

end Holds

section Tile

variable {i_mr i_nr : ℕ} {floats : ℕ → α} {output : ℕ → Option α}

def floatSums (floats : ℕ → α) (output : ℕ → Option α) : Contents Scratch (ScratchCell α) :=
  locals (fun _ => 0) (fun _ => 0) floats output

def LocalCells : Region Scratch := fun k _ => k ≠ .output

theorem not_localCells_output {x : ℕ} : ¬ LocalCells .output x := fun no => no rfl

theorem array_local {k k' : Scratch} {rows x : ℕ} (other : k ≠ .output)
    (cell : ArrayCells 32 k rows k' x) : LocalCells k' x := by
  rw [LocalCells, cell.1]
  exact other

theorem blocks_effect (start count : ℕ) {round : ℕ → ScratchMemory α → Option (ScratchMemory α)}
    (each : ∀ i_qk < count, ∃ subs sums, Effect (scratchSize p)
      (floatSums (tileFloats ops p i_mr i_nr start (i_qk - 1)) output)
      (fun k x => 0 < i_qk ∧ ArrayCells 32 .sum 12 k x) (round i_qk)
      (locals subs sums (tileFloats ops p i_mr i_nr start i_qk) output) (ArrayCells 32 .sum 12)
      LocalCells) :
    Effect (scratchSize p) (floatSums floats output) (fun _ _ => False) (forUp round 0 count)
      (floatSums (tileFloats ops p i_mr i_nr start (count - 1)) output)
      (fun k x => 0 < count ∧ ArrayCells 32 .sum 12 k x) LocalCells := by
  have run : Effect (scratchSize p) _ _ (forUp round 0 count) _ _ LocalCells :=
    Effect.rounds (fun i_qk => floatSums (tileFloats ops p i_mr i_nr start (i_qk - 1)) output)
      (fun i_qk k x => 0 < i_qk ∧ ArrayCells 32 .sum 12 k x) fun i_qk hi => by
        obtain ⟨subs, sums, effect⟩ := each i_qk hi
        refine effect.weaken (fun _ _ known => ⟨known, rfl⟩) ?_ fun _ _ cell => cell
        rintro k x ⟨_, rfl, inside⟩
        exact .inl ⟨⟨rfl, inside⟩, rfl⟩
  refine run.weaken ?_ (fun _ _ cell => .inl ⟨cell, rfl⟩) fun _ _ cell => cell
  rintro k x ⟨no, _⟩
  exact absurd no (Nat.lt_irrefl 0)

/-- Row `i_m` of a tile of the output. -/
def OutputRow (p : Problem α) (i_mr i_nr i_m : ℕ) : Region Scratch := fun k x =>
  k = .output ∧ ∃ lane < 32, x = (i_mr * 12 + i_m) * p.n + i_nr * 32 + lane

def elements (p : Problem α) (element : ℕ → ℕ → α) (x : ℕ) : Option α :=
  some (element (x / p.n) (x % p.n))

theorem column_bound (hn : i_nr < p.tilesN) {lane : ℕ} (hl : lane < 32) : i_nr * 32 + lane < p.n :=
  Layout.index_lt hn hl

theorem output_bound {i_m lane : ℕ} (hm : i_mr < p.tilesM) (hi : i_m < 12) (hn : i_nr < p.tilesN)
    (hl : lane < 32) : (i_mr * 12 + i_m) * p.n + i_nr * 32 + lane < p.m * p.n := by
  rw [Nat.add_assoc]
  exact Layout.index_lt (Layout.index_lt hm hi) (column_bound hn hl)

theorem elements_at {element : ℕ → ℕ → α} {i_m lane : ℕ} (hn : i_nr < p.tilesN) (hl : lane < 32) :
    elements p element ((i_mr * 12 + i_m) * p.n + i_nr * 32 + lane) =
      some (element (i_mr * 12 + i_m) (i_nr * 32 + lane)) := by
  rw [elements, Nat.add_assoc, Layout.row (column_bound hn hl), Layout.column (column_bound hn hl)]

/-- Twelve rows, each from the row of `sum` and perhaps its own row of the output. -/
theorem outputRows_effect (element : ℕ → ℕ → α) {element' : ℕ → ℕ → α} (known : Prop)
    {body : ℕ → ScratchMemory α → Option (ScratchMemory α)} (hn : i_nr < p.tilesN)
    (each : ∀ i_m < 12, Effect (scratchSize p) (floatSums floats (elements p element))
      (fun k x => RowCells 32 .sum i_m k x ∨ known ∧ OutputRow p i_mr i_nr i_m k x) (body i_m)
      (floatSums floats (elements p element')) (OutputRow p i_mr i_nr i_m)
      (OutputRow p i_mr i_nr i_m)) :
    Effect (scratchSize p) (floatSums floats (elements p element))
      (fun k x => ArrayCells 32 .sum 12 k x ∨ known ∧ MatrixTile .output p.n 12 32 i_mr i_nr k x)
      (forUp body 0 12) (floatSums floats (elements p element'))
      (MatrixTile .output p.n 12 32 i_mr i_nr) (MatrixTile .output p.n 12 32 i_mr i_nr) := by
  have inTile : ∀ i_m < 12, ∀ k x, OutputRow p i_mr i_nr i_m k x →
      MatrixTile .output p.n 12 32 i_mr i_nr k x := by
    rintro i_m hi k x ⟨rfl, lane, hl, rfl⟩
    exact ⟨rfl, i_m, hi, lane, hl, Nat.add_assoc _ _ _⟩
  have different : ∀ i j, i < j → ∀ k x, OutputRow p i_mr i_nr i k x →
      ¬ OutputRow p i_mr i_nr j k x := by
    rintro i j lt k x ⟨rfl, lane, hl, rfl⟩ ⟨_, lane', hl', same⟩
    rw [Nat.add_assoc, Nat.add_assoc] at same
    have rows := (Layout.unique (column_bound hn hl) (column_bound hn hl') same).1
    omega
  refine (Effect.loopOwn each fun i j lt hj => ⟨?_, different i j lt⟩).weaken ?_ ?_ ?_
  · rintro k x (⟨rfl, _⟩ | ⟨_, cell⟩) written
    · cases written.1
    · exact different i j lt k x written cell
  · rintro k x ⟨i_m, hi, cell | ⟨later, cell⟩⟩
    · exact ⟨.inl (arrayCells_iff.mpr ⟨i_m, hi, cell⟩), rfl⟩
    · exact ⟨.inr ⟨later, inTile i_m hi k x cell⟩, rfl⟩
  · rintro k x ⟨rfl, i_m, hi, lane, hl, rfl⟩
    exact .inl ⟨⟨i_m, hi, rfl, lane, hl, (Nat.add_assoc _ _ _).symm⟩, rfl⟩
  · rintro k x ⟨i_m, hi, cell⟩
    exact inTile i_m hi k x cell

theorem storeRow {element' : ℕ → ℕ → α} {i_m : ℕ} {row : ℕ → α}
    (hm : i_mr < p.tilesM) (hi : i_m < 12) (hn : i_nr < p.tilesN)
    (values : ∀ lane < 32, row lane = element' (i_mr * 12 + i_m) (i_nr * 32 + lane)) :
    Writes (scratchSize p)
      (fun m : ScratchMemory α => m.storeLanes .output ((i_mr * 12 + i_m) * p.n + i_nr * 32) 32
        fun lane => some (row lane)) (floatSums floats (elements p element'))
      (OutputRow p i_mr i_nr i_m) :=
  Writes.storeLanes (fun lane hl => output_bound hm hi hn hl) fun lane hl => by
    rw [values lane hl]
    exact (elements_at hn hl).symm

variable [Inhabited α]

theorem fetchSum {start i_qk i_m : ℕ} {A : Region Scratch} {m : ScratchMemory α} (hi : i_m < 12)
    (before : Holds (floatSums (tileFloats ops p i_mr i_nr start i_qk) output) A m)
    (sizes : m.size = scratchSize p) (known : ∀ k x, RowCells 32 .sum i_m k x → A k x) :
    Ends (m.fetchLanes .sum id (i_m * 32) 32) fun r => ∀ lane < 32,
      r lane = p.panelSum ops (i_mr * 12 + i_m) (i_nr * 32 + lane) start i_qk :=
  before.fetchLanes sizes (fun _ hl => row_bound hi hl) fun _ hl =>
    ⟨known .sum _ ⟨rfl, _, hl, rfl⟩, congrArg some (tileFloats_row hl)⟩

theorem irTile_effect {packed' : PackedMemory α} (floats : ℕ → α) (before : ℕ → ℕ → α) (pos : 0 < p.blocks)
    (hm : i_mr < p.tilesM) (hn : i_nr < p.tilesN)
    (holds : ∀ block < p.blocks, HoldsBlock ops p ops.widen i_mr i_nr block packed'
      (i_mr * p.blocks + block) (i_nr * p.blocks + block)) :
    Effect (scratchSize p) (floatSums floats (elements p before)) (fun _ _ => False)
      (irTile ops eighth p packed' i_mr i_nr)
      (floatSums (tileFloats ops p i_mr i_nr 0 (p.blocks - 1))
        (elements p (p.irElement ops eighth))) (MatrixTile .output p.n 12 32 i_mr i_nr)
      fun k x => LocalCells k x ∨ MatrixTile .output p.n 12 32 i_mr i_nr k x := by
  have blocks : Effect (scratchSize p) (floatSums floats (elements p before)) (fun _ _ => False)
      (forUp (fun i_qk =>
        irBlock ops packed' (i_mr * p.blocks + i_qk) (i_nr * p.blocks + i_qk) i_qk) 0 p.blocks)
      (floatSums (tileFloats ops p i_mr i_nr 0 (p.blocks - 1)) (elements p before))
      (fun k x => 0 < p.blocks ∧ ArrayCells 32 .sum 12 k x) LocalCells := by
    refine blocks_effect 0 p.blocks fun i_qk hq => ?_
    have held := holds i_qk hq
    rw [← Nat.zero_add i_qk] at held
    have effect := irBlock_effect (fun _ => 0) (fun _ => 0) (elements p before) held
    rw [Nat.zero_add] at effect
    refine ⟨_, _, effect.weaken (fun _ _ known => ⟨known, rfl⟩) (fun _ _ cell => .inl ⟨cell, rfl⟩) ?_⟩
    rintro k x (cell | cell)
    · exact array_local (by decide) cell
    · exact array_local (by decide) cell
  refine (blocks.weaken (fun _ _ no => no.elim) ?_ fun _ _ cell => cell).seq
    (outputRows_effect before False hn fun i_m hi => ?_)
  · rintro k x (cell | ⟨no, _⟩)
    · exact .inl ⟨⟨pos, cell⟩, rfl⟩
    · exact no.elim
  · refine Effect.read (fun m sizes before => fetchSum hi before sizes fun _ _ => .inl) ?_
    intro sum_row sums
    refine (storeRow hm hi hn fun lane hl => ?_).fills
    rw [sums lane hl]
    rfl

theorem brTile_effect {packed' : PackedMemory α} {i_kc : ℕ} (floats : ℕ → α) (hc : i_kc < p.chunks)
    (hm : i_mr < p.tilesM) (hn : i_nr < p.tilesN)
    (holds : ∀ i_qk < p.chunkBlocks i_kc, HoldsBlock ops p id i_mr i_nr (i_kc * kcBlocks + i_qk)
      packed' (i_mr * p.blocks + (i_kc * kcBlocks + i_qk)) i_qk) :
    Effect (scratchSize p)
      (floatSums floats (elements p fun row column => p.brElement ops eighth row column (i_kc - 1)))
      (fun k x => 0 < i_kc ∧ MatrixTile .output p.n 12 32 i_mr i_nr k x)
      (brTile ops eighth p packed' i_nr i_kc i_mr)
      (floatSums (tileFloats ops p i_mr i_nr (i_kc * kcBlocks) (p.chunkBlocks i_kc - 1))
        (elements p fun row column => p.brElement ops eighth row column i_kc))
      (MatrixTile .output p.n 12 32 i_mr i_nr)
      fun k x => LocalCells k x ∨ MatrixTile .output p.n 12 32 i_mr i_nr k x := by
  have blocks : Effect (scratchSize p)
      (floatSums floats (elements p fun row column => p.brElement ops eighth row column (i_kc - 1)))
      (fun _ _ => False)
      (forUp (fun i_qk => brBlock ops packed' (i_mr * p.blocks + (i_kc * kcBlocks + i_qk)) i_qk i_qk)
        0 (p.chunkBlocks i_kc))
      (floatSums (tileFloats ops p i_mr i_nr (i_kc * kcBlocks) (p.chunkBlocks i_kc - 1))
        (elements p fun row column => p.brElement ops eighth row column (i_kc - 1)))
      (fun k x => 0 < p.chunkBlocks i_kc ∧ ArrayCells 32 .sum 12 k x) LocalCells := by
    refine blocks_effect (i_kc * kcBlocks) (p.chunkBlocks i_kc) fun i_qk hq => ?_
    have effect := brBlock_effect (fun _ => 0) (fun _ => 0)
      (elements p fun row column => p.brElement ops eighth row column (i_kc - 1)) (holds i_qk hq)
    refine ⟨_, _, effect.weaken (fun _ _ known => ⟨known, rfl⟩) (fun _ _ cell => .inl ⟨cell, rfl⟩) ?_⟩
    rintro k x ((cell | cell) | cell)
    · exact array_local (by decide) cell
    · exact array_local (by decide) cell
    · exact array_local (by decide) cell
  refine (blocks.weaken (fun _ _ no => no.elim) ?_ fun _ _ cell => cell).seq
    (outputRows_effect (fun row column => p.brElement ops eighth row column (i_kc - 1)) (0 < i_kc) hn
      fun i_m hi => ?_)
  · rintro k x (cell | ⟨later, cell⟩)
    · exact .inl ⟨⟨Problem.chunkBlocks_pos hc, cell⟩, rfl⟩
    · obtain ⟨rfl, inside⟩ := cell
      exact .inr ⟨not_localCells_output, ⟨later, rfl, inside⟩, rfl⟩
  · intro m sizes before
    refine (fetchSum hi before sizes fun _ _ => .inl).bind fun sum_row sums => ?_
    have row : Ends (if i_kc = 0 then some fun lane => ops.mul (sum_row lane) eighth
        else (m.fetchLanes .output id ((i_mr * 12 + i_m) * p.n + i_nr * 32) 32).map
          fun c_row lane => ops.fma (c_row lane) eighth (sum_row lane)) fun c_row =>
        ∀ lane < 32, c_row lane =
          p.brElement ops eighth (i_mr * 12 + i_m) (i_nr * 32 + lane) i_kc := by
      cases i_kc with
      | zero =>
          refine .some ?_
          intro lane hl
          dsimp only
          rw [sums lane hl]
          rfl
      | succ i_kc =>
          have cell : ∀ lane < 32, elements p (fun row column => p.brElement ops eighth row column i_kc)
              ((i_mr * 12 + i_m) * p.n + i_nr * 32 + lane) =
              some (p.brElement ops eighth (i_mr * 12 + i_m) (i_nr * 32 + lane) i_kc) :=
            fun lane hl => elements_at hn hl
          have loaded : Ends (m.fetchLanes .output id ((i_mr * 12 + i_m) * p.n + i_nr * 32) 32)
              fun r => ∀ lane < 32, r lane =
                p.brElement ops eighth (i_mr * 12 + i_m) (i_nr * 32 + lane) i_kc :=
            before.fetchLanes sizes (fun lane hl => output_bound hm hi hn hl) fun lane hl =>
              ⟨.inr ⟨Nat.succ_pos _, rfl, lane, hl, rfl⟩, cell lane hl⟩
          refine loaded.map fun c_row known => ?_
          intro lane hl
          dsimp only
          rw [sums lane hl, known lane hl]
          rfl
    refine row.bind fun c_row values => ?_
    exact storeRow hm hi hn values m sizes fun _ _ no => no.elim

end Tile

end Pfng.Iq2
