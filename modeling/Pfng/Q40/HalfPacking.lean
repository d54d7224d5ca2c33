import Pfng.Q40.HalfBlocks
import Pfng.Q40.M8bPacking

/-! Where the packed operands lie, cell by cell, and what a kernel finds of one K block. -/
namespace Pfng.Q40.HalfBlocks
open Checked Ime BatchReduction Words

variable {F H : Type}

section Contents

variable (request : Bench.BenchmarkRequest) (operands : Operands H H) (fourRowScale : ℕ → ℕ → BitVec 32)

/-- A byte of the four rows from `first` on. -/
def fourRowByte (first x : ℕ) : BitVec 8 :=
  if x % 144 < 16 then byteOf (fourRowScale (first + x % 144 / 4) (x / 144)) (x % 144 % 4)
  else (operands.activation (first + (x % 144 - 16) % 32 / 8) (x / 144)).qs
    ((x % 144 - 16) / 32 * 8 + (x % 144 - 16) % 8)

def quantByte (rows : ℕ → BlockQ80 H) (o : ℕ) : BitVec 8 :=
  (rows (o / 128 * 4 + o % 128 % 32 / 8)).qs (o % 128 / 32 * 8 + o % 128 % 8)

/-- A byte of a packed weight block of `nr` columns. -/
def weightPair (nr : ℕ) (columns : ℕ → BlockQ40 H) (o : ℕ) : BitVec 8 :=
  packedByte .ime1 (columns (o % (nr * 8) / 8)) (o / (nr * 8) * 16 + o % (nr * 8) % 8)

variable (scale : H → H) (groups nr : ℕ)

def tileRows (tile block row : ℕ) : BlockQ80 H := operands.activation (tile * (groups * 4) + row) block

def tileColumns (tile block column : ℕ) : BlockQ40 H := operands.column request (tile * nr + column) block

/-- The buffers; `four` is what the four-row quantiser left last, `out` what the output holds. -/
def halfContents (four : ℕ → Option (BitVec 8)) (out : ℕ → Option F) :
    Contents HalfBuffer (HalfCell F H)
  | .fourRows, x => four x
  | .scalesA, x => some (scale (tileRows operands groups (x / (groups * 4) / (request.k / 32))
      (x / (groups * 4) % (request.k / 32)) (x % (groups * 4))).d)
  | .quantsA, x => some (quantByte (tileRows operands groups (x / (groups * 128) / (request.k / 32))
      (x / (groups * 128) % (request.k / 32))) (x % (groups * 128)))
  | .scalesB, x => some (scale (tileColumns request operands nr (x / nr / (request.k / 32))
      (x / nr % (request.k / 32)) (x % nr)).d)
  | .quantsB, x => some (weightPair nr (tileColumns request operands nr
      (x / (nr * 16) / (request.k / 32)) (x / (nr * 16) % (request.k / 32))) (x % (nr * 16)))
  | .output, x => out x

/-- The packed operands. -/
def HalfOperands : Region HalfBuffer
  | .fourRows, _ => False
  | .scalesA, x => x < request.m / (groups * 4) * (request.k / 32) * (groups * 4)
  | .quantsA, x => x < request.m / (groups * 4) * (request.k / 32) * (groups * 128)
  | .scalesB, x => x < request.n / nr * (request.k / 32) * nr
  | .quantsB, x => x < request.n / nr * (request.k / 32) * (nr * 16)
  | .output, _ => False

end Contents

variable {request : Bench.BenchmarkRequest} {operands : Operands H H}
variable {fourRowScale : ℕ → ℕ → BitVec 32} {scale : H → H} {groups nr : ℕ}
variable {four : ℕ → Option (BitVec 8)} {out : ℕ → Option F}

section Activation

theorem quantizeA4rowI8_writes {size : HalfBuffer → ℕ} (first : ℕ)
    (room : request.k / 32 * 144 ≤ size .fourRows) :
    Writes size (quantizeA4rowI8 request operands fourRowScale first)
      (halfContents (F := F) request operands scale groups nr
        (fun x => some (fourRowByte operands fourRowScale first x)) out)
      fun k x => k = .fourRows ∧ x < request.k / 32 * 144 := by
  have blockRoom : ∀ block < request.k / 32, ∀ o < 144, block * 144 + o < size .fourRows := by
    intro block hb o ho
    exact (Layout.index_lt hb ho).trans_le room
  have stores : Writes size (quantizeA4rowI8 request operands fourRowScale first)
      (halfContents (F := F) request operands scale groups nr
        (fun x => some (fourRowByte operands fourRowScale first x)) out) _ :=
    Writes.loop fun block hb => Writes.seq
      (Writes.storeLanes (fun i hi => blockRoom block hb i (by omega)) fun i hi => by
        change _ = some _
        have inside : i < 144 := by omega
        rw [fourRowByte, Layout.row inside, Layout.column inside, if_pos hi])
      (Writes.storeLanes (fun i hi => by
        rw [Nat.add_assoc]
        exact blockRoom block hb (16 + i) (by omega)) fun i hi => by
          change _ = some _
          have inside : 16 + i < 144 := by omega
          have isQuant : ¬ 16 + i < 16 := by omega
          rw [Nat.add_assoc, fourRowByte, Layout.row inside, Layout.column inside, if_neg isQuant,
            Nat.add_sub_cancel_left])
  refine stores.weaken (fun _ _ no => no) fun k x => ?_
  constructor
  · rintro ⟨rfl, inside⟩
    obtain ⟨block, hb, o, ho, rfl⟩ := Layout.lt_iff.mp inside
    rcases Nat.lt_or_ge o 16 with low | high
    · exact ⟨block, hb, .inl ⟨rfl, o, low, rfl⟩⟩
    · exact ⟨block, hb, .inr ⟨rfl, o - 16, by omega, by omega⟩⟩
  · rintro ⟨block, hb, ⟨rfl, i, hi, rfl⟩ | ⟨rfl, i, hi, rfl⟩⟩
    · exact ⟨rfl, Layout.index_lt hb (by omega)⟩
    · refine ⟨rfl, ?_⟩
      rw [Nat.add_assoc]
      exact Layout.index_lt hb (by omega)

variable (request) in
/-- The scales and the quants of one group of a tile. -/
def GroupCells (groups tile group : ℕ) : Region HalfBuffer := fun k x =>
  (k = .scalesA ∧ ∃ block < request.k / 32, ∃ row < 4,
    x = (tile * (request.k / 32) + block) * (groups * 4) + (group * 4 + row)) ∨
  k = .quantsA ∧ ∃ block < request.k / 32, ∃ o < 128,
    x = (tile * (request.k / 32) + block) * (groups * 128) + (group * 128 + o)

theorem packGroup_fills {tile group : ℕ} (ht : tile < request.m / (groups * 4)) (hg : group < groups) :
    Fills (halfSize request groups nr) (halfContents (F := F) request operands scale groups nr
        (fun x => some (fourRowByte operands fourRowScale (tile * (groups * 4) + group * 4) x)) out)
      (fun k x => k = .fourRows ∧ x < request.k / 32 * 144)
      (packGroup request operands scale groups tile group)
      (halfContents (F := F) request operands scale groups nr
        (fun x => some (fourRowByte operands fourRowScale (tile * (groups * 4) + group * 4) x)) out)
      (GroupCells request groups tile group) := by
  have scales : ∀ block < request.k / 32, Writes (halfSize request groups nr)
      (forUp (fun row memory => memory.store .scalesA
        ((tile * (request.k / 32) + block) * (groups * 4) + (group * 4 + row))
        (some (scale (operands.activation (tile * (groups * 4) + (group * 4 + row)) block).d))) 0 4)
      (halfContents (F := F) request operands scale groups nr
        (fun x => some (fourRowByte operands fourRowScale (tile * (groups * 4) + group * 4) x)) out)
      fun k x => ∃ row < 4, k = .scalesA ∧
        x = (tile * (request.k / 32) + block) * (groups * 4) + (group * 4 + row) := by
    intro block hb
    refine Writes.loop fun row hr => ?_
    have inside : group * 4 + row < groups * 4 := Layout.index_lt hg hr
    refine Writes.store (Layout.index_lt (Layout.index_lt ht hb) inside) ?_
    change _ = some _
    rw [Layout.row inside, Layout.column inside, Layout.row hb, Layout.column hb]
    rfl
  have quants : ∀ block < request.k / 32, Fills (halfSize request groups nr)
      (halfContents (F := F) request operands scale groups nr
        (fun x => some (fourRowByte operands fourRowScale (tile * (groups * 4) + group * 4) x)) out)
      (fun k x => k = .fourRows ∧ x < request.k / 32 * 144)
      (fun memory : HalfMemory F H => memory.copyLanes .fourRows .quantsA id some (block * 144 + 16)
        ((tile * (request.k / 32) + block) * (groups * 128) + group * 128) 128)
      (halfContents (F := F) request operands scale groups nr
        (fun x => some (fourRowByte operands fourRowScale (tile * (groups * 4) + group * 4) x)) out)
      fun k x => k = .quantsA ∧ ∃ o < 128,
        x = (tile * (request.k / 32) + block) * (groups * 128) + group * 128 + o := by
    intro block hb
    have source : ∀ o < 128, block * 144 + 16 + o < request.k / 32 * 144 := by
      intro o ho
      rw [Nat.add_assoc]
      exact Layout.index_lt hb (by omega)
    refine Fills.copyLanes (fun o => fourRowByte operands fourRowScale (tile * (groups * 4) + group * 4)
      (block * 144 + 16 + o)) source ?_ (fun o ho => ⟨⟨rfl, source o ho⟩, rfl⟩) ?_
    · intro o ho
      rw [Nat.add_assoc]
      exact Layout.index_lt (Layout.index_lt ht hb) (Layout.index_lt hg ho)
    · intro o ho
      have inside : 16 + o < 144 := by omega
      have isQuant : ¬ 16 + o < 16 := by omega
      have place : group * 128 + o < groups * 128 := Layout.index_lt hg ho
      change some _ = some _
      rw [Nat.add_assoc, Nat.add_assoc, fourRowByte, Layout.row inside, Layout.column inside,
        if_neg isQuant, Nat.add_sub_cancel_left, quantByte, Layout.row place, Layout.column place,
        Layout.row hb, Layout.column hb, Layout.row ho, Layout.column ho, tileRows, Nat.add_assoc]
  have stores := Fills.loop (fun block hb => ((scales block hb).fills
    (A := fun k x => k = .fourRows ∧ x < request.k / 32 * 144)).seq (quants block hb) (by
      rintro k x ⟨rfl, _⟩ ⟨_, _, no, _⟩
      cases no)) (by
      rintro block hb k x (⟨rfl, _⟩ | ⟨rfl, _⟩) (⟨_, _, no, _⟩ | ⟨no, _⟩)
      all_goals cases no)
  refine stores.weaken (fun _ _ known => known.elim id id) fun k x => ?_
  constructor
  · rintro (⟨rfl, block, hb, row, hr, rfl⟩ | ⟨rfl, block, hb, o, ho, rfl⟩)
    · exact ⟨block, hb, .inl ⟨row, hr, rfl, rfl⟩⟩
    · exact ⟨block, hb, .inr ⟨rfl, o, ho, (Nat.add_assoc _ _ _).symm⟩⟩
  · rintro ⟨block, hb, ⟨row, hr, rfl, rfl⟩ | ⟨rfl, o, ho, rfl⟩⟩
    · exact .inl ⟨rfl, block, hb, row, hr, rfl⟩
    · exact .inr ⟨rfl, block, hb, o, ho, Nat.add_assoc _ _ _⟩

theorem group_effect {tile group : ℕ} (ht : tile < request.m / (groups * 4)) (hg : group < groups) :
    Effect (halfSize request groups nr) (halfContents request operands scale groups nr four out)
      (fun _ _ => False)
      (fun memory => (quantizeA4rowI8 request operands fourRowScale (tile * (groups * 4) + group * 4)
        memory).bind (packGroup request operands scale groups tile group))
      (halfContents request operands scale groups nr four out) (GroupCells request groups tile group)
      fun k x => k = .fourRows ∨ GroupCells request groups tile group k x := by
  have quantized : Effect (halfSize request groups nr) (halfContents (F := F) request operands scale
      groups nr (fun x =>
        some (fourRowByte operands fourRowScale (tile * (groups * 4) + group * 4) x)) out)
      (fun _ _ => False)
      (quantizeA4rowI8 request operands fourRowScale (tile * (groups * 4) + group * 4)) _ _ _ :=
    quantizeA4rowI8_writes _ (Nat.le_refl _)
  refine (quantized.seq (packGroup_fills ht hg)).weaken (fun _ _ no => no.elim) ?_ ?_
  · rintro k x (⟨rfl, cell⟩ | ⟨rfl, cell⟩)
    · exact .inl ⟨.inl ⟨rfl, cell⟩, rfl⟩
    · exact .inl ⟨.inr ⟨rfl, cell⟩, rfl⟩
  · rintro k x (⟨rfl, _⟩ | cell)
    · exact .inl rfl
    · exact .inr cell

variable (request) in
def ActivationCells (groups : ℕ) : Region HalfBuffer
  | .scalesA, x => x < request.m / (groups * 4) * (request.k / 32) * (groups * 4)
  | .quantsA, x => x < request.m / (groups * 4) * (request.k / 32) * (groups * 128)
  | _, _ => False

theorem activationCells_iff {k : HalfBuffer} {x : ℕ} : ActivationCells request groups k x ↔
    ∃ tile < request.m / (groups * 4), ∃ group < groups, GroupCells request groups tile group k x := by
  constructor
  · intro cell
    unfold ActivationCells at cell
    split at cell
    · obtain ⟨s, hs, r, hr, rfl⟩ := Layout.lt_iff.mp cell
      obtain ⟨tile, ht, block, hb, rfl⟩ := Layout.lt_iff.mp hs
      obtain ⟨group, hg, row, hrow, rfl⟩ := Layout.lt_iff.mp hr
      exact ⟨tile, ht, group, hg, .inl ⟨rfl, block, hb, row, hrow, rfl⟩⟩
    · obtain ⟨s, hs, r, hr, rfl⟩ := Layout.lt_iff.mp cell
      obtain ⟨tile, ht, block, hb, rfl⟩ := Layout.lt_iff.mp hs
      obtain ⟨group, hg, o, ho, rfl⟩ := Layout.lt_iff.mp hr
      exact ⟨tile, ht, group, hg, .inr ⟨rfl, block, hb, o, ho, rfl⟩⟩
    · exact cell.elim
  · rintro ⟨tile, ht, group, hg, ⟨rfl, block, hb, row, hr, rfl⟩ | ⟨rfl, block, hb, o, ho, rfl⟩⟩
    · exact Layout.index_lt (Layout.index_lt ht hb) (Layout.index_lt hg hr)
    · exact Layout.index_lt (Layout.index_lt ht hb) (Layout.index_lt hg ho)

theorem groupCells_apart {tile group x : ℕ} {k : HalfBuffer}
    (cell : GroupCells request groups tile group k x) : k ≠ .fourRows := by
  rcases cell with ⟨rfl, _⟩ | ⟨rfl, _⟩
  · nofun
  · nofun

theorem packA_effect :
    Effect (halfSize request groups nr) (halfContents request operands scale groups nr four out)
      (fun _ _ => False) (packA request operands fourRowScale scale groups)
      (halfContents request operands scale groups nr four out) (ActivationCells request groups)
      fun k x => k = .fourRows ∨ ActivationCells request groups k x := by
  have tile : ∀ tile < request.m / (groups * 4), Effect (halfSize request groups nr)
      (halfContents request operands scale groups nr four out) (fun _ _ => False)
      (forUp (fun group memory => (quantizeA4rowI8 request operands fourRowScale
        (tile * (groups * 4) + group * 4) memory).bind
        (packGroup request operands scale groups tile group)) 0 groups)
      (halfContents request operands scale groups nr four out)
      (fun k x => ∃ group < groups, GroupCells request groups tile group k x)
      fun k x => k = .fourRows ∨ ∃ group < groups, GroupCells request groups tile group k x :=
    fun tile ht => Effect.loopScratch (fun group hg => group_effect ht hg) (fun _ _ no => no.elim)
      fun group _ k x cell => groupCells_apart cell
  refine (Effect.loopScratch tile (fun _ _ no => no.elim) ?_).weaken (fun _ _ no => no.elim) ?_ ?_
  · rintro tile _ k x ⟨group, _, cell⟩
    exact groupCells_apart cell
  · intro k x cell
    exact .inl ⟨activationCells_iff.mp cell, rfl⟩
  · rintro k x (own | cell)
    · exact .inl own
    · exact .inr (activationCells_iff.mpr cell)

end Activation

section Weights

theorem lowPair_eq (source : BlockQ40 H) {j : ℕ} (hj : j < 8) :
    lowPair source j = packedByte .ime1 source j := by
  rw [lowPair, packedByte, nibble_low _ (by omega), show MatrixUnit.depth .ime1 = 8 from rfl,
    Nat.add_comm 8, nibble_low _ (by omega)]
  rfl

theorem highPair_eq (source : BlockQ40 H) (j : ℕ) :
    highPair source j = packedByte .ime1 source (16 + j) := by
  have high : ∀ x : BitVec 8, (x &&& 0xf0#8) >>> 4 = x >>> 4 := by decide
  have pair : ∀ x : BitVec 8, x &&& 0xf0#8 = (x >>> 4) <<< 4 := by decide
  rw [highPair, packedByte, show MatrixUnit.depth .ime1 = 8 from rfl,
    show 8 + (16 + j) = 16 + (j + 8) by omega, nibble_high, nibble_high, high, pair]

variable (request) in
def WeightCells (nr : ℕ) : Region HalfBuffer
  | .scalesB, x => x < request.n / nr * (request.k / 32) * nr
  | .quantsB, x => x < request.n / nr * (request.k / 32) * (nr * 16)
  | _, _ => False

theorem packB_writes {place : ℕ → ℕ → ℕ → ℕ}
    (here : ∀ plane < 2, ∀ column < nr, ∀ j < 8, place plane column j = plane * (nr * 8) + (column * 8 + j)) :
    Writes (halfSize request groups nr) (packB request operands scale nr place)
      (halfContents request operands scale groups nr four out) (WeightCells request nr) := by
  have byte : ∀ tile < request.n / nr, ∀ block < request.k / 32, ∀ plane < 2, ∀ column < nr, ∀ j < 8,
      (tile * (request.k / 32) + block) * (nr * 16) + place plane column j <
        halfSize request groups nr .quantsB ∧
      halfContents (F := F) request operands scale groups nr four out .quantsB
          ((tile * (request.k / 32) + block) * (nr * 16) + place plane column j) =
        some (packedByte .ime1 (operands.weight ((tile * nr + column) * (request.k / 32) + block))
          (plane * 16 + j)) := by
    intro tile ht block hb plane hp column hc j hj
    have o := Layout.index_lt hc hj
    have inside : place plane column j < nr * 16 := by
      rw [here plane hp column hc j hj]
      have := Layout.index_lt hp o
      omega
    refine ⟨Layout.index_lt (Layout.index_lt ht hb) inside, ?_⟩
    change some _ = some _
    rw [Layout.row inside, Layout.column inside, Layout.row hb, Layout.column hb,
      here plane hp column hc j hj, weightPair, Layout.row o, Layout.column o, Layout.row hj,
      Layout.column hj]
    rfl
  have stores : Writes (halfSize request groups nr) (packB request operands scale nr place)
      (halfContents request operands scale groups nr four out) _ :=
    Writes.loop fun tile ht => Writes.loop fun block hb => Writes.loop fun column hc => Writes.seq
      (Writes.store (Layout.index_lt (Layout.index_lt ht hb) hc) (by
        change _ = some _
        rw [Layout.row hc, Layout.column hc, Layout.row hb, Layout.column hb]
        rfl))
      (Writes.loop fun j hj => Writes.seq
        (Writes.store (byte tile ht block hb 0 (by decide) column hc j hj).1 (by
          rw [(byte tile ht block hb 0 (by decide) column hc j hj).2, lowPair_eq _ hj, Nat.zero_mul,
            Nat.zero_add]))
        (Writes.store (byte tile ht block hb 1 (by decide) column hc j hj).1 (by
          rw [(byte tile ht block hb 1 (by decide) column hc j hj).2, highPair_eq, Nat.one_mul])))
  refine stores.weaken (fun _ _ no => no) fun k x => ?_
  constructor
  · intro cell
    unfold WeightCells at cell
    split at cell
    · obtain ⟨s, hs, column, hc, rfl⟩ := Layout.lt_iff.mp cell
      obtain ⟨tile, ht, block, hb, rfl⟩ := Layout.lt_iff.mp hs
      exact ⟨tile, ht, block, hb, column, hc, .inl ⟨rfl, rfl⟩⟩
    · obtain ⟨s, hs, o, ho, rfl⟩ := Layout.lt_iff.mp cell
      obtain ⟨tile, ht, block, hb, rfl⟩ := Layout.lt_iff.mp hs
      rw [show nr * 16 = 2 * (nr * 8) by omega] at ho
      obtain ⟨plane, hp, rest, hrest, rfl⟩ := Layout.lt_iff.mp ho
      obtain ⟨column, hc, j, hj, rfl⟩ := Layout.lt_iff.mp hrest
      refine ⟨tile, ht, block, hb, column, hc, .inr ⟨j, hj, ?_⟩⟩
      rw [← here plane hp column hc j hj]
      obtain rfl | rfl : plane = 0 ∨ plane = 1 := by omega
      · exact .inl ⟨rfl, rfl⟩
      · exact .inr ⟨rfl, rfl⟩
    · exact cell.elim
  · rintro ⟨tile, ht, block, hb, column, hc, ⟨rfl, rfl⟩ | ⟨j, hj, ⟨rfl, rfl⟩ | ⟨rfl, rfl⟩⟩⟩
    · exact Layout.index_lt (Layout.index_lt ht hb) hc
    · exact (byte tile ht block hb 0 (by decide) column hc j hj).1
    · exact (byte tile ht block hb 1 (by decide) column hc j hj).1

end Weights

theorem packed_effect {place : ℕ → ℕ → ℕ → ℕ}
    (here : ∀ plane < 2, ∀ column < nr, ∀ j < 8, place plane column j = plane * (nr * 8) + (column * 8 + j)) :
    Effect (halfSize request groups nr) (halfContents request operands scale groups nr four out)
      (fun _ _ => False)
      (fun memory => (packA request operands fourRowScale scale groups memory).bind
        (packB request operands scale nr place))
      (halfContents request operands scale groups nr four out) (HalfOperands request groups nr)
      fun _ _ => True := by
  have weights : Effect (halfSize request groups nr)
      (halfContents request operands scale groups nr four out) (fun _ _ => False)
      (packB request operands scale nr place) _ _ _ := packB_writes here
  have activation : Effect (halfSize request groups nr)
      (halfContents request operands scale groups nr four out) (fun _ _ => False)
      (packA request operands fourRowScale scale groups) _ _ _ := packA_effect
  have both := activation.seqOwn weights (fun _ _ no => no.elim) (by
      intro k x own cell
      unfold ActivationCells at own
      split at own
      · exact cell
      · exact cell
      · exact own)
  refine both.weaken (fun _ _ no => ⟨no.elim id id, rfl⟩) ?_ fun _ _ _ => trivial
  intro k x cell
  refine .inl ⟨?_, rfl⟩
  unfold HalfOperands at cell
  split at cell
  · exact cell.elim
  · exact .inl cell
  · exact .inl cell
  · exact .inr cell
  · exact .inr cell
  · exact cell.elim

section Block

/-- What the kernels find of one K block. -/
structure HoldsBlock (scale : H → H) (groups nr blockA blockB : ℕ) (rows : ℕ → BlockQ80 H)
    (columns : ℕ → BlockQ40 H) (m : HalfMemory F H) : Prop where
  scalesA : ∀ row < groups * 4, blockA * (groups * 4) + row < m.size .scalesA ∧
    m.cell .scalesA (blockA * (groups * 4) + row) = some (scale (rows row).d)
  quantsA : ∀ o < groups * 128, blockA * (groups * 128) + o < m.size .quantsA ∧
    m.cell .quantsA (blockA * (groups * 128) + o) = some (quantByte rows o)
  scalesB : ∀ column < nr, blockB * nr + column < m.size .scalesB ∧
    m.cell .scalesB (blockB * nr + column) = some (scale (columns column).d)
  quantsB : ∀ o < nr * 16, blockB * (nr * 16) + o < m.size .quantsB ∧
    m.cell .quantsB (blockB * (nr * 16) + o) = some (weightPair nr columns o)

theorem holdsBlock_of_holds {m : HalfMemory F H} {tile_m tile_n block : ℕ}
    (sizes : m.size = halfSize request groups nr)
    (holds : Holds (halfContents request operands scale groups nr four out)
      (HalfOperands request groups nr) m) (htm : tile_m < request.m / (groups * 4))
    (ht : tile_n < request.n / nr) (hb : block < request.k / 32) :
    HoldsBlock scale groups nr (tile_m * (request.k / 32) + block) (tile_n * (request.k / 32) + block)
      (tileRows operands groups tile_m block) (tileColumns request operands nr tile_n block) m where
  scalesA row hr := by
    have inside := Layout.index_lt (Layout.index_lt htm hb) hr
    rw [sizes, holds .scalesA _ inside]
    refine ⟨inside, ?_⟩
    change some _ = _
    rw [Layout.row hr, Layout.column hr, Layout.row hb, Layout.column hb]
  quantsA o ho := by
    have inside := Layout.index_lt (Layout.index_lt htm hb) ho
    rw [sizes, holds .quantsA _ inside]
    refine ⟨inside, ?_⟩
    change some _ = _
    rw [Layout.row ho, Layout.column ho, Layout.row hb, Layout.column hb]
  scalesB column hc := by
    have inside := Layout.index_lt (Layout.index_lt ht hb) hc
    rw [sizes, holds .scalesB _ inside]
    refine ⟨inside, ?_⟩
    change some _ = _
    rw [Layout.row hc, Layout.column hc, Layout.row hb, Layout.column hb]
  quantsB o ho := by
    have inside := Layout.index_lt (Layout.index_lt ht hb) ho
    rw [sizes, holds .quantsB _ inside]
    refine ⟨inside, ?_⟩
    change some _ = _
    rw [Layout.row ho, Layout.column ho, Layout.row hb, Layout.column hb]

end Block

end Pfng.Q40.HalfBlocks
