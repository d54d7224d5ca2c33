import Pfng.Iq2.Run

/-! Both kernels over the whole output, and repeated runs. -/
namespace Pfng.Iq2
open Checked Register Rvv

variable {α : Type} {ops : FloatOps α α} {eighth : α} {p : Problem α}

/-- A memory whose activation is packed. -/
structure Ready (p : Problem α) (size : Buffer → ℕ) (memory : PackedMemory α) : Prop where
  sizes : memory.size = size
  held : HoldsActivation p.activation p.tilesM p.blocks memory

def Leaves (p : Problem α) (element : ℕ → ℕ → α) (scratch : ScratchMemory α) : Prop :=
  ∀ row < p.m, ∀ column < p.n, scratch.cell .output (row * p.n + column) = some (element row column)

theorem elements_row (element : ℕ → ℕ → α) {row column : ℕ} (hc : column < p.n) :
    elements p element (row * p.n + column) = some (element row column) := by
  rw [elements, Layout.row hc, Layout.column hc]

/-- The columns of `i_nr`. -/
def ColumnTile (p : Problem α) (i_nr : ℕ) : Region Scratch := fun k x =>
  ∃ i_mr < p.tilesM, MatrixTile .output p.n 12 32 i_mr i_nr k x

theorem columnTile_apart {i_nr i_nr' x : ℕ} {k : Scratch} (hn : i_nr < p.tilesN)
    (hn' : i_nr' < p.tilesN) (other : i_nr ≠ i_nr') (cell : ColumnTile p i_nr k x) :
    ¬ ColumnTile p i_nr' k x := by
  obtain ⟨i_mr, hm, rfl, i_m, hi, lane, hl, rfl⟩ := cell
  rintro ⟨i_mr', hm', _, i_m', hi', lane', hl', same⟩
  have columns := (Layout.unique (column_bound hn hl) (column_bound hn' hl') same).2
  exact other (Layout.unique hl hl' columns).1

theorem runGemm_ends {size : Buffer → ℕ} {element : ℕ → ℕ → α} {iterations : ℕ}
    {kernel : PackedMemory α × ScratchMemory α → Option (PackedMemory α × ScratchMemory α)}
    {memory : PackedMemory α} {scratch : ScratchMemory α} (once : 1 ≤ iterations)
    (sizeD : size .activationD = p.tilesM * p.blocks * 12)
    (sizeQs : size .activationQs = p.tilesM * p.blocks * 3072) (packedSizes : memory.size = size)
    (sizes : scratch.size = scratchSize p)
    (spec : ∀ memory scratch, Ready p size memory → scratch.size = scratchSize p →
      Ends (kernel (memory, scratch)) fun s => Ready p size s.1 ∧ s.2.size = scratchSize p ∧
        Leaves p element s.2) :
    Ends (runGemm p kernel iterations memory scratch) (Leaves p element) := by
  refine (packActivation_ends packedSizes sizeD sizeQs).bind fun memory' ⟨sizes', held⟩ => ?_
  have run : Ends (forUp (fun _ => kernel) 0 iterations (memory', scratch)) _ :=
    loop_ends (fun i s =>
        Ready p size s.1 ∧ s.2.size = scratchSize p ∧ (0 < i → Leaves p element s.2))
      ⟨⟨sizes', held⟩, sizes, fun no => absurd no (Nat.lt_irrefl 0)⟩
      fun i _ s ⟨ready, sizes, _⟩ => (spec s.1 s.2 ready sizes).mono
        fun s' ⟨ready', sizes', left⟩ => ⟨ready', sizes', fun _ => left⟩
  exact run.map fun s ⟨_, _, left⟩ => left once

variable [Inhabited α]

theorem irTiles_effect {packed' : PackedMemory α} (u : Contents Scratch (ScratchCell α))
    (floats : ℕ → α) (pos : 0 < p.blocks)
    (holds : ∀ i_mr < p.tilesM, ∀ i_nr < p.tilesN, ∀ block < p.blocks,
      HoldsBlock ops p ops.widen i_mr i_nr block packed' (i_mr * p.blocks + block)
        (i_nr * p.blocks + block)) :
    Effect (scratchSize p) u (fun _ _ => False)
      (forUp (fun i_mr => forUp (irTile ops eighth p packed' i_mr) 0 p.tilesN) 0 p.tilesM)
      (floatSums floats (elements p (p.irElement ops eighth)))
      (fun k x => k = .output ∧ x < p.m * p.n) fun k x => LocalCells k x ∨ k = .output := by
  have tile : ∀ i_mr < p.tilesM, ∀ i_nr < p.tilesN, Effect (scratchSize p) u (fun _ _ => False)
      (irTile ops eighth p packed' i_mr i_nr)
      (floatSums floats (elements p (p.irElement ops eighth)))
      (MatrixTile .output p.n 12 32 i_mr i_nr)
      fun k x => LocalCells k x ∨ MatrixTile .output p.n 12 32 i_mr i_nr k x := by
    intro i_mr hm i_nr hn
    refine (irTile_effect floats (p.irElement ops eighth) pos hm hn (holds i_mr hm i_nr hn)).weaken
      (fun _ _ no => no.elim) ?_ fun _ _ cell => cell
    rintro k x ⟨rfl, inside⟩
    exact .inl ⟨⟨rfl, inside⟩, rfl⟩
  exact Effect.tiles (by decide) (by decide) (fun _ => not_localCells_output) tile

theorem gemmIr_ends {memory : PackedMemory α} {scratch : ScratchMemory α} (pos : 0 < p.blocks)
    (ready : Ready p (irSize p) memory) (sizes : scratch.size = scratchSize p) :
    Ends (gemmIr ops eighth p (memory, scratch)) fun s => Ready p (irSize p) s.1 ∧
      s.2.size = scratchSize p ∧ Leaves p (p.irElement ops eighth) s.2 := by
  have unpack : Writes (irSize p) (decompressIr p.weight p.blocks p.tilesN)
      (packed p.activation p.blocks (sourceIr p.weight p.blocks)) _ :=
    decompressIr_writes p.activation p.weight rfl rfl rfl
  refine (unpack memory ready.sizes fun _ _ no => no.elim).bind fun memory' unpacked => ?_
  obtain ⟨change, left⟩ := unpacked
  have sizes' := change.size.trans ready.sizes
  have held := ready.held.keep change (by simp [slotCells]) (by simp [slotCells])
  have holds : ∀ i_mr < p.tilesM, ∀ i_nr < p.tilesN, ∀ block < p.blocks,
      HoldsBlock ops p ops.widen i_mr i_nr block memory' (i_mr * p.blocks + block)
        (i_nr * p.blocks + block) := by
    intro i_mr hm i_nr hn block hb
    have slot : i_nr * p.blocks + block < p.tilesN * p.blocks := Layout.index_lt hn hb
    have source : ∀ i_n, sourceIr p.weight p.blocks (i_nr * p.blocks + block) i_n =
        p.blockW (i_nr * 32 + i_n) block := by
      intro i_n
      rw [sourceIr, Layout.row hb, Layout.column hb, Problem.blockW]
    exact holdsBlock sizes' held left (fun k x cell => ⟨i_nr, hn, block, hb, cell⟩)
      (Nat.mul_le_mul_right _ slot) (Nat.mul_le_mul_right _ slot) (Nat.mul_le_mul_right _ slot) hm hb
      (fun i_n _ => by rw [source]) fun i_n _ => by rw [source]
  have tiles : Effect _ _ _ (forUp (fun i_mr => forUp (irTile ops eighth p memory' i_mr) 0 p.tilesN) 0
      p.tilesM) _ _ _ := irTiles_effect (newLocals scratch).cell (fun _ => default) pos holds
  refine (tiles (newLocals scratch) sizes fun _ _ _ => rfl).map fun scratch' stored => ?_
  obtain ⟨change, left⟩ := stored
  refine ⟨⟨sizes', held⟩, change.size.trans sizes, ?_⟩
  intro row hr column hc
  exact (left .output _ ⟨rfl, Layout.index_lt hr hc⟩).trans (elements_row _ hc)

theorem brTiles_effect {packed' : PackedMemory α} {i_nr i_kc : ℕ} (floats : ℕ → α)
    (hc : i_kc < p.chunks) (hn : i_nr < p.tilesN)
    (holds : ∀ i_mr < p.tilesM, ∀ i_qk < p.chunkBlocks i_kc,
      HoldsBlock ops p id i_mr i_nr (i_kc * kcBlocks + i_qk) packed'
        (i_mr * p.blocks + (i_kc * kcBlocks + i_qk)) i_qk) :
    Effect (scratchSize p)
      (floatSums floats (elements p fun row column => p.brElement ops eighth row column (i_kc - 1)))
      (fun k x => 0 < i_kc ∧ ColumnTile p i_nr k x)
      (forUp (brTile ops eighth p packed' i_nr i_kc) 0 p.tilesM)
      (floatSums floats (elements p fun row column => p.brElement ops eighth row column i_kc))
      (ColumnTile p i_nr) fun k x => LocalCells k x ∨ ColumnTile p i_nr k x := by
  have tile : ∀ i_mr < p.tilesM, Effect (scratchSize p)
      (floatSums floats (elements p fun row column => p.brElement ops eighth row column (i_kc - 1)))
      (fun k x => 0 < i_kc ∧ MatrixTile .output p.n 12 32 i_mr i_nr k x)
      (brTile ops eighth p packed' i_nr i_kc i_mr)
      (floatSums floats (elements p fun row column => p.brElement ops eighth row column i_kc))
      (MatrixTile .output p.n 12 32 i_mr i_nr)
      fun k x => LocalCells k x ∨ MatrixTile .output p.n 12 32 i_mr i_nr k x := by
    intro i_mr hm
    refine (brTile_effect floats hc hm hn (holds i_mr hm)).weaken (fun _ _ known => ⟨known, rfl⟩) ?_ fun _ _ cell => cell
    rintro k x ⟨rfl, inside⟩
    exact .inl ⟨⟨rfl, inside⟩, rfl⟩
  have different : ∀ i j, i ≠ j → ∀ k x, MatrixTile Scratch.output p.n 12 32 i i_nr k x →
      ¬ MatrixTile Scratch.output p.n 12 32 j i_nr k x := by
    rintro i j other k x ⟨rfl, i_m, hi, lane, hl, rfl⟩ ⟨_, i_m', hi', lane', hl', same⟩
    have rows := (Layout.unique (column_bound hn hl) (column_bound hn hl') same).1
    exact other (Layout.unique hi hi' rows).1
  refine (Effect.loopOwn tile ?_).weaken ?_ ?_ ?_
  · intro i j lt _
    constructor
    · rintro k x ⟨_, cell⟩ (no | written)
      · exact no cell.1
      · exact different j i (Nat.ne_of_gt lt) k x cell written
    · rintro k x cell (no | written)
      · exact no cell.1
      · exact different i j (Nat.ne_of_lt lt) k x cell written
  · rintro k x ⟨i_mr, hm, later, cell⟩
    exact ⟨⟨later, i_mr, hm, cell⟩, rfl⟩
  · intro k x cell
    exact .inl ⟨cell, rfl⟩
  · rintro k x ⟨i_mr, hm, cell | cell⟩
    · exact .inl cell
    · exact .inr ⟨i_mr, hm, cell⟩

/-- The round of chunk `i_kc` for the columns of `i_nr`. -/
def brChunk (ops : FloatOps α α) (eighth : α) (p : Problem α) (i_nr i_kc : ℕ) :
    PackedMemory α × ScratchMemory α → Option (PackedMemory α × ScratchMemory α) :=
  fun (packed, scratch) =>
  (decompressBr (widened ops p.weight) p.blocks i_nr i_kc packed).bind fun packed =>
  (forUp (brTile ops eighth p packed i_nr i_kc) 0 p.tilesM scratch).map fun scratch =>
    (packed, scratch)

/-- The output after chunk `i_kc`, and anything in the arrays of the call. -/
def brContents (ops : FloatOps α α) (eighth : α) (p : Problem α) (i_kc : ℕ) :
    Contents Scratch (ScratchCell α) :=
  floatSums (fun _ => default) (elements p fun row column => p.brElement ops eighth row column i_kc)

theorem brChunk_ends {memory : PackedMemory α} {scratch : ScratchMemory α} {i_nr i_kc : ℕ}
    (hc : i_kc < p.chunks) (hn : i_nr < p.tilesN) (ready : Ready p (brSize p) memory)
    (sizes : scratch.size = scratchSize p)
    (before : Holds (brContents ops eighth p (i_kc - 1))
      (fun k x => 0 < i_kc ∧ ColumnTile p i_nr k x) scratch) :
    Ends (brChunk ops eighth p i_nr i_kc (memory, scratch)) fun s => Ready p (brSize p) s.1 ∧
      Within (fun k x => LocalCells k x ∨ ColumnTile p i_nr k x) scratch s.2 ∧
      Holds (brContents ops eighth p i_kc) (ColumnTile p i_nr) s.2 := by
  have unpack : Writes (brSize p) (decompressBr (widened ops p.weight) p.blocks i_nr i_kc)
      (packed p.activation p.blocks (sourceBr (widened ops p.weight) p.blocks i_nr i_kc)) _ :=
    decompressBr_writes p.activation (widened ops p.weight) i_nr i_kc rfl rfl rfl
  refine (unpack memory ready.sizes fun _ _ no => no.elim).bind fun memory' unpacked => ?_
  obtain ⟨change, left⟩ := unpacked
  have sizes' := change.size.trans ready.sizes
  have held := ready.held.keep change (by simp [slotCells]) (by simp [slotCells])
  have holds : ∀ i_mr < p.tilesM, ∀ i_qk < p.chunkBlocks i_kc,
      HoldsBlock ops p id i_mr i_nr (i_kc * kcBlocks + i_qk) memory'
        (i_mr * p.blocks + (i_kc * kcBlocks + i_qk)) i_qk := by
    intro i_mr hm i_qk hq
    have slot : i_qk < kcBlocks := Nat.lt_of_lt_of_le hq (Nat.min_le_right _ _)
    exact holdsBlock sizes' held left (fun k x cell => ⟨i_qk, hq, cell⟩)
      (Nat.mul_le_mul_right _ slot) (Nat.mul_le_mul_right _ slot) (Nat.mul_le_mul_right _ slot) hm
      (Problem.chunk_block_lt hq) (fun _ _ => rfl) fun _ _ => rfl
  exact (brTiles_effect (fun _ => default) hc hn holds scratch sizes before).map
    fun scratch' added => ⟨⟨sizes', held⟩, added⟩

theorem brColumn_ends {memory : PackedMemory α} {scratch : ScratchMemory α} {i_nr : ℕ}
    (pos : 0 < p.chunks) (hn : i_nr < p.tilesN) (ready : Ready p (brSize p) memory)
    (sizes : scratch.size = scratchSize p) :
    Ends (forUp (brChunk ops eighth p i_nr) 0 p.chunks (memory, scratch)) fun s =>
      Ready p (brSize p) s.1 ∧
      Within (fun k x => LocalCells k x ∨ ColumnTile p i_nr k x) scratch s.2 ∧
      Holds (brContents ops eighth p (p.chunks - 1)) (ColumnTile p i_nr) s.2 := by
  have run : Ends (forUp (brChunk ops eighth p i_nr) 0 p.chunks (memory, scratch)) _ :=
    loop_ends (fun i_kc s => Ready p (brSize p) s.1 ∧
        Within (fun k x => LocalCells k x ∨ ColumnTile p i_nr k x) scratch s.2 ∧
        Holds (brContents ops eighth p (i_kc - 1)) (fun k x => 0 < i_kc ∧ ColumnTile p i_nr k x) s.2)
      ⟨ready, Within.refl _ _, fun _ _ no => absurd no.1 (Nat.lt_irrefl 0)⟩
      fun i_kc hi s ⟨ready, change, before⟩ => by
        refine (brChunk_ends hi hn ready (change.size.trans sizes) before).mono ?_
        rintro s' ⟨ready', change', left⟩
        exact ⟨ready', change.trans change', left.mono fun _ _ known => known.2⟩
  exact run.mono fun s ⟨ready, change, left⟩ =>
    ⟨ready, change, left.mono fun _ _ cell => ⟨pos, cell⟩⟩

theorem gemmBr_ends {memory : PackedMemory α} {scratch : ScratchMemory α} (pos : 0 < p.chunks)
    (ready : Ready p (brSize p) memory) (sizes : scratch.size = scratchSize p) :
    Ends (gemmBr ops eighth p (memory, scratch)) fun s => Ready p (brSize p) s.1 ∧
      s.2.size = scratchSize p ∧
      Leaves p (fun row column => p.brElement ops eighth row column (p.chunks - 1)) s.2 := by
  have run : Ends (forUp (fun i_nr => forUp (brChunk ops eighth p i_nr) 0 p.chunks) 0 p.tilesN
      (memory, newLocals scratch)) _ :=
    loop_ends (fun i_nr s => Ready p (brSize p) s.1 ∧ s.2.size = scratchSize p ∧
        ∀ tile < i_nr, Holds (brContents ops eighth p (p.chunks - 1)) (ColumnTile p tile) s.2)
      ⟨ready, sizes, nofun⟩ fun i_nr hi s ⟨ready, sizes, done⟩ => by
        refine (brColumn_ends pos hi ready sizes).mono ?_
        rintro s' ⟨ready', change, left⟩
        refine ⟨ready', change.size.trans sizes, ?_⟩
        intro tile ht
        rcases Nat.lt_succ_iff_lt_or_eq.mp ht with earlier | rfl
        · intro k x cell
          rw [change.frame k x, done tile earlier k x cell]
          rintro (no | other)
          · obtain ⟨_, _, same, _⟩ := cell
            exact no same
          · exact columnTile_apart (Nat.lt_trans earlier hi) hi (Nat.ne_of_lt earlier) cell other
        · exact left
  refine run.mono ?_
  rintro s ⟨ready, sizes, done⟩
  refine ⟨ready, sizes, ?_⟩
  intro row hr column hc
  obtain ⟨i_mr, hm, i_m, hi, rfl⟩ := Layout.lt_iff.mp hr
  obtain ⟨i_nr, hn, lane, hl, rfl⟩ := Layout.lt_iff.mp hc
  exact (done i_nr hn .output _ ⟨i_mr, hm, rfl, i_m, hi, lane, hl, rfl⟩).trans
    (elements_row (fun row column => p.brElement ops eighth row column (p.chunks - 1)) hc)

end Pfng.Iq2
