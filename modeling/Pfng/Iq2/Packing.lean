import Pfng.Iq2.Kernel

/-! What the packing loops leave in memory, whatever it held before. -/
namespace Pfng.Iq2
open Checked Layout

variable {α : Type} {activation : ℕ → BlockQ8K α} {source : ℕ → ℕ → BlockIq2xxs α}
variable {size : Buffer → ℕ} {u : Contents Buffer (Cell α)} {A : Region Buffer}
variable {blocks : ℕ}

/-- The packed data, cell by cell: activation blocks in tiles of 12 rows, and the blocks that
`source` puts into each slot of 32 columns. -/
def packed (activation : ℕ → BlockQ8K α) (blocks : ℕ) (source : ℕ → ℕ → BlockIq2xxs α) :
    Contents Buffer (Cell α)
  | .activationD, x => (activation ((x / 12 / blocks * 12 + x % 12) * blocks + x / 12 % blocks)).d
  | .activationQs, x =>
      (activation ((x / 3072 / blocks * 12 + x % 3072 % 12) * blocks + x / 3072 % blocks)).qs
        (x % 3072 / 12)
  | .weightQs, x =>
      decompressSubblock (fun j => (source (x / 8192) (x % 32)).qs (x % 8192 / 1024 * 8 + j))
        (x % 1024 / 32)
  | .weightScale, x =>
      decompressScale fun j => (source (x / 256) (x % 32)).qs (x % 256 / 32 * 8 + j)
  | .weightD, x => (source (x / 32) (x % 32)).d

theorem packed_activationQs {tile block row k : ℕ} (hb : block < blocks) (hr : row < 12)
    (hk : k < 256) :
    packed activation blocks source .activationQs ((tile * blocks + block) * 3072 + (k * 12 + row)) =
      (activation ((tile * 12 + row) * blocks + block)).qs k := by
  have index : k * 12 + row < 3072 := index_lt hk hr
  simp only [packed]
  rw [Layout.row index, column index, Layout.row hr, column hr, Layout.row hb, column hb]

theorem packed_activationD {tile block row : ℕ} (hb : block < blocks) (hr : row < 12) :
    packed activation blocks source .activationD ((tile * blocks + block) * 12 + row) =
      (activation ((tile * 12 + row) * blocks + block)).d := by
  simp only [packed]
  rw [Layout.row hr, column hr, Layout.row hb, column hb]

theorem packed_weightQs {slot i_qsk k i_n : ℕ} (hq : i_qsk < 8) (hk : k < 32) (hn : i_n < 32) :
    packed activation blocks source .weightQs (slot * 8192 + (i_qsk * 32 + k) * 32 + i_n) =
      decompressSubblock (fun j => (source slot i_n).qs (i_qsk * 8 + j)) k := by
  simp only [packed]
  have hslot : (slot * 8192 + (i_qsk * 32 + k) * 32 + i_n) / 8192 = slot := by omega
  have hcol : (slot * 8192 + (i_qsk * 32 + k) * 32 + i_n) % 32 = i_n := by omega
  have hqsk : (slot * 8192 + (i_qsk * 32 + k) * 32 + i_n) % 8192 / 1024 = i_qsk := by omega
  have hrow : (slot * 8192 + (i_qsk * 32 + k) * 32 + i_n) % 1024 / 32 = k := by omega
  rw [hslot, hcol, hqsk, hrow]

theorem packed_weightScale {slot i_qsk i_n : ℕ} (hq : i_qsk < 8) (hn : i_n < 32) :
    packed activation blocks source .weightScale (slot * 256 + (i_qsk * 32 + i_n)) =
      decompressScale fun j => (source slot i_n).qs (i_qsk * 8 + j) := by
  simp only [packed]
  have hslot : (slot * 256 + (i_qsk * 32 + i_n)) / 256 = slot := by omega
  have hcol : (slot * 256 + (i_qsk * 32 + i_n)) % 32 = i_n := by omega
  have hqsk : (slot * 256 + (i_qsk * 32 + i_n)) % 256 / 32 = i_qsk := by omega
  rw [hslot, hcol, hqsk]

theorem packed_weightD {slot i_n : ℕ} (hn : i_n < 32) :
    packed activation blocks source .weightD (slot * 32 + i_n) = (source slot i_n).d := by
  simp only [packed]
  rw [Layout.row hn, column hn]

/-- The packed activation as the kernels load it. -/
structure HoldsActivation (activation : ℕ → BlockQ8K α) (tiles blocks : ℕ)
    (memory : Memory Buffer (Cell α)) : Prop where
  scale : ∀ tile < tiles, ∀ block < blocks, ∀ row < 12,
    memory.load .activationD ((tile * blocks + block) * 12 + row) =
      some (activation ((tile * 12 + row) * blocks + block)).d
  quant : ∀ tile < tiles, ∀ block < blocks, ∀ row < 12, ∀ k < 256,
    memory.load .activationQs ((tile * blocks + block) * 3072 + (k * 12 + row)) =
      some ((activation ((tile * 12 + row) * blocks + block)).qs k)

theorem packActivation_writes (source : ℕ → ℕ → BlockIq2xxs α) {tiles : ℕ}
    (sizeD : size .activationD = tiles * blocks * 12)
    (sizeQs : size .activationQs = tiles * blocks * 3072) :
    ∃ S : Region Buffer, Writes size (packActivation activation tiles blocks)
        (packed activation blocks source) S ∧
      (∀ tile < tiles, ∀ block < blocks, ∀ row < 12,
        S .activationD ((tile * blocks + block) * 12 + row)) ∧
      ∀ tile < tiles, ∀ block < blocks, ∀ row < 12, ∀ k < 256,
        S .activationQs ((tile * blocks + block) * 3072 + (k * 12 + row)) := by
  refine ⟨_, Writes.loop fun tile ht => Writes.loop fun block hb => Writes.loop fun row hr =>
    Writes.seq (Writes.store ?_ ?_) (Writes.loop fun k hk => Writes.store ?_ ?_), ?_, ?_⟩
  · rw [sizeD]
    exact index_lt (index_lt ht hb) hr
  · exact (packed_activationD hb hr).symm
  · rw [sizeQs]
    exact index_lt (index_lt ht hb) (index_lt hk hr)
  · exact (packed_activationQs hb hr hk).symm
  · intro tile ht block hb row hr
    exact ⟨tile, ht, block, hb, row, hr, .inl ⟨rfl, rfl⟩⟩
  · intro tile ht block hb row hr k hk
    exact ⟨tile, ht, block, hb, row, hr, .inr ⟨k, hk, rfl, rfl⟩⟩

theorem packActivation_ends {tiles : ℕ} {memory : Memory Buffer (Cell α)}
    (sizes : memory.size = size) (sizeD : size .activationD = tiles * blocks * 12)
    (sizeQs : size .activationQs = tiles * blocks * 3072) :
    Ends (packActivation activation tiles blocks memory) fun m =>
      m.size = size ∧ HoldsActivation activation tiles blocks m := by
  have source : ℕ → ℕ → BlockIq2xxs α := fun _ _ => ⟨(activation 0).d, fun _ => 0⟩
  obtain ⟨S, pack, cellsD, cellsQs⟩ := packActivation_writes source sizeD sizeQs
  refine (pack memory sizes fun _ _ no => no.elim).mono fun m ⟨change, left⟩ => ?_
  have sizes' := change.size.trans sizes
  refine ⟨sizes', ⟨?_, ?_⟩⟩
  · intro tile ht block hb row hr
    have bound : (tile * blocks + block) * 12 + row < size .activationD := by
      rw [sizeD]
      exact index_lt (index_lt ht hb) hr
    rw [load_eq left sizes' bound (cellsD tile ht block hb row hr), packed_activationD hb hr]
  · intro tile ht block hb row hr k hk
    have bound : (tile * blocks + block) * 3072 + (k * 12 + row) < size .activationQs := by
      rw [sizeQs]
      exact index_lt (index_lt ht hb) (index_lt hk hr)
    rw [load_eq left sizes' bound (cellsQs tile ht block hb row hr k hk),
      packed_activationQs hb hr hk]

theorem HoldsActivation.keep {tiles : ℕ} {memory memory' : Memory Buffer (Cell α)} {T : Region Buffer}
    (held : HoldsActivation activation tiles blocks memory) (change : Within T memory memory')
    (scales : ∀ x, ¬ T .activationD x) (quants : ∀ x, ¬ T .activationQs x) :
    HoldsActivation activation tiles blocks memory' := by
  constructor
  · intro tile ht block hb row hr
    rw [← held.scale tile ht block hb row hr, Memory.load, Memory.load, change.size,
      change.frame _ _ (scales _)]
  · intro tile ht block hb row hr k hk
    rw [← held.quant tile ht block hb row hr k hk, Memory.load, Memory.load, change.size,
      change.frame _ _ (quants _)]

/-- The cells of one slot. -/
def slotCells (slot : ℕ) : Region Buffer
  | .activationD, _ => False
  | .activationQs, _ => False
  | .weightQs, x => x / 8192 = slot
  | .weightScale, x => x / 256 = slot
  | .weightD, x => x / 32 = slot

theorem decompressSlot_writes (source : ℕ → ℕ → BlockIq2xxs α) {slot : ℕ} (sizeQs : (slot + 1) * 8192 ≤ size .weightQs)
    (sizeScale : (slot + 1) * 256 ≤ size .weightScale) (sizeD : (slot + 1) * 32 ≤ size .weightD) :
    Writes size (decompressSlot (source slot) slot) (packed activation blocks source)
      (slotCells slot) := by
  have run : ∃ S, Writes size (decompressSlot (source slot) slot) (packed activation blocks source) S ∧
      ∀ k x, slotCells slot k x ↔ S k x := by
    refine ⟨_, Writes.seq (Writes.loop fun i_qsk hq => Writes.loop fun i_t ht => Writes.seq
      (Writes.loop fun k hk => Writes.loop fun field hf => Writes.store ?_ ?_)
      (Writes.loop fun field hf => Writes.store ?_ ?_))
      (Writes.loop fun i_n hn => Writes.store ?_ ?_), ?_⟩
    · omega
    · have index : slot * 8192 + (i_qsk * 32 * 32 + i_t * 4 + (k * 32 + field)) =
          slot * 8192 + (i_qsk * 32 + k) * 32 + (i_t * 4 + field) := by omega
      rw [index, packed_weightQs hq hk (by omega)]
    · omega
    · have index : slot * 256 + (i_qsk * 32 + i_t * 4 + field) =
          slot * 256 + (i_qsk * 32 + (i_t * 4 + field)) := by omega
      rw [index, packed_weightScale hq (by omega)]
    · omega
    · rw [packed_weightD hn]
    · intro k x
      cases k with
      | activationD => simp [slotCells]
      | activationQs => simp [slotCells]
      | weightQs =>
          simp only [slotCells, reduceCtorEq, false_and, and_false, exists_false, or_false, true_and]
          constructor
          · rintro rfl
            exact ⟨x % 8192 / 1024, by omega, x % 32 / 4, by omega, x % 1024 / 32, by omega,
              x % 4, by omega, by omega⟩
          · rintro ⟨i_qsk, hq, i_t, ht, k, hk, field, hf, rfl⟩
            omega
      | weightScale =>
          simp only [slotCells, reduceCtorEq, false_and, and_false, exists_false, or_false,
            false_or, true_and]
          constructor
          · rintro rfl
            exact ⟨x % 256 / 32, by omega, x % 32 / 4, by omega, x % 4, by omega, by omega⟩
          · rintro ⟨i_qsk, hq, i_t, ht, field, hf, rfl⟩
            omega
      | weightD =>
          simp only [slotCells, reduceCtorEq, false_and, and_false, exists_false, or_false,
            false_or, true_and]
          constructor
          · rintro rfl
            exact ⟨x % 32, by omega, by omega⟩
          · rintro ⟨i_n, hn, rfl⟩
            omega
  obtain ⟨S, writes, same⟩ := run
  exact Fills.weaken writes (fun _ _ no => no) same

theorem decompressSlot_writes_of_lt (source : ℕ → ℕ → BlockIq2xxs α) {slot count : ℕ}
    (h : slot < count) (sizeQs : size .weightQs = count * 8192)
    (sizeScale : size .weightScale = count * 256) (sizeD : size .weightD = count * 32) :
    Writes size (decompressSlot (source slot) slot) (packed activation blocks source)
      (slotCells slot) := by
  apply decompressSlot_writes source
  · rw [sizeQs]
    exact Nat.mul_le_mul_right _ h
  · rw [sizeScale]
    exact Nat.mul_le_mul_right _ h
  · rw [sizeD]
    exact Nat.mul_le_mul_right _ h

/-- The blocks of chunk `i_kc` for the 32 columns of `i_nr`. -/
def sourceBr (weight : ℕ → BlockIq2xxs α) (blocks i_nr i_kc i_qk i_n : ℕ) : BlockIq2xxs α :=
  weight ((i_nr * 32 + i_n) * blocks + (i_kc * kcBlocks + i_qk))

theorem decompressBr_writes (activation : ℕ → BlockQ8K α) (weight : ℕ → BlockIq2xxs α) (i_nr i_kc : ℕ)
    (sizeQs : size .weightQs = kcBlocks * 8192) (sizeScale : size .weightScale = kcBlocks * 256)
    (sizeD : size .weightD = kcBlocks * 32) :
    Writes size (decompressBr weight blocks i_nr i_kc)
      (packed activation blocks (sourceBr weight blocks i_nr i_kc))
      fun k x => ∃ i_qk < min (blocks - i_kc * kcBlocks) kcBlocks, slotCells i_qk k x := by
  apply Writes.loop
  intro i_qk hi
  have slot : i_qk < kcBlocks := Nat.lt_of_lt_of_le hi (Nat.min_le_right _ _)
  exact decompressSlot_writes_of_lt (sourceBr weight blocks i_nr i_kc) slot sizeQs sizeScale sizeD

def sourceIr (weight : ℕ → BlockIq2xxs α) (blocks slot i_n : ℕ) : BlockIq2xxs α :=
  weight ((slot / blocks * 32 + i_n) * blocks + slot % blocks)

theorem decompressIr_writes (activation : ℕ → BlockQ8K α) (weight : ℕ → BlockIq2xxs α) {tiles : ℕ}
    (sizeQs : size .weightQs = tiles * blocks * 8192)
    (sizeScale : size .weightScale = tiles * blocks * 256)
    (sizeD : size .weightD = tiles * blocks * 32) :
    Writes size (decompressIr weight blocks tiles)
      (packed activation blocks (sourceIr weight blocks))
      fun k x => ∃ i_nr < tiles, ∃ i_qk < blocks, slotCells (i_nr * blocks + i_qk) k x := by
  apply Writes.loop
  intro i_nr hn
  apply Writes.loop
  intro i_qk hi
  have slot : i_nr * blocks + i_qk < tiles * blocks := index_lt hn hi
  have here : sourceIr weight blocks (i_nr * blocks + i_qk) =
      fun i_n => weight ((i_nr * 32 + i_n) * blocks + i_qk) := by
    funext i_n
    rw [sourceIr, Layout.row hi, column hi]
  rw [← here]
  exact decompressSlot_writes_of_lt _ slot sizeQs sizeScale sizeD

end Pfng.Iq2
