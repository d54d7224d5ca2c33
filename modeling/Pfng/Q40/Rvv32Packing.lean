import Pfng.Q40.M8bRun
import Pfng.Q40.Rvv32

/-! Where `prepare` puts the operands of the two vector kernels, and the quants that a `z` step finds
there: both packings put the rows of element `z` before those of element `z + 16`. -/
namespace Pfng.Q40.Rvv32
open Checked BatchReduction Words

variable {F H P : Type}

section Contents

variable (request : Bench.BenchmarkRequest) (operands : Operands H H) (mr : ℕ)

/-- Byte `o` of a packed activation block. -/
def quantByte (rows : ℕ → BlockQ80 H) (o : ℕ) : BitVec 8 :=
  (rows (o % (2 * mr) % mr)).qs (o / (2 * mr) + o % (2 * mr) / mr * 16)

def tileRows (tile block row : ℕ) : BlockQ80 H := operands.activation (tile * mr + row) block

def tileColumns (tile block column : ℕ) : BlockQ40 H := operands.column request (tile * 32 + column) block

/-- The buffers, cell by cell; `out` is what the output holds. -/
def contents (out : ℕ → Counted F) : Contents RvvBuffer (RvvCell F H)
  | .scales .activation, x => some
      (tileRows operands mr (x / mr / (request.k / 32)) (x / mr % (request.k / 32)) (x % mr)).d
  | .quants .activation, x => some (quantByte mr (tileRows operands mr
      (x / (mr * 32) / (request.k / 32)) (x / (mr * 32) % (request.k / 32))) (x % (mr * 32)))
  | .scales .weight, x => some
      (tileColumns request operands (x / 32 / (request.k / 32)) (x / 32 % (request.k / 32)) (x % 32)).d
  | .quants .weight, x => some
      ((tileColumns request operands (x / 512 / (request.k / 32)) (x / 512 % (request.k / 32))
        (x % 512 % 32)).qs (x % 512 / 32))
  | .output, x => out x

/-- What `prepare` writes for an operand. -/
def Packed (operand : Operand) : Region RvvBuffer := fun k x =>
  (k = .scales operand ∨ k = .quants operand) ∧ x < rvvSize request mr k

end Contents

variable {request : Bench.BenchmarkRequest} {operands : Operands H H} {mr : ℕ} {out : ℕ → Counted F}

theorem quantByte_at {rows : ℕ → BlockQ80 H} {z half row : ℕ} (hh : half < 2) (hr : row < mr) :
    quantByte mr rows (z * (2 * mr) + (half * mr + row)) = (rows row).qs (z + half * 16) := by
  have inside : half * mr + row < 2 * mr := Layout.index_lt hh hr
  rw [quantByte, Layout.row inside, Layout.column inside, Layout.row hr, Layout.column hr]

theorem packWeights_writes (whole : request.n / 32 * 32 = request.n) :
    Writes (rvvSize request mr) (packWeights request operands) (contents request operands mr out)
      (Packed request mr .weight) := by
  have scale : ∀ tile < request.n / 32, ∀ b < request.k / 32, ∀ x < 32,
      (tile * (request.k / 32) + b) * 32 + x < rvvSize request mr (.scales .weight) ∧
      contents (F := F) request operands mr out (.scales .weight) ((tile * (request.k / 32) + b) * 32 + x) =
        some (tileColumns request operands tile b x).d := by
    intro tile ht b hb x hx
    refine ⟨Layout.index_lt (Layout.index_lt ht hb) hx, ?_⟩
    rw [contents, Layout.row hx, Layout.column hx, Layout.row hb, Layout.column hb]
  have quant : ∀ tile < request.n / 32, ∀ b < request.k / 32, ∀ x < 32, ∀ z < 16,
      (tile * (request.k / 32) + b) * 512 + (z * 32 + x) < rvvSize request mr (.quants .weight) ∧
      contents (F := F) request operands mr out (.quants .weight)
          ((tile * (request.k / 32) + b) * 512 + (z * 32 + x)) =
        some ((tileColumns request operands tile b x).qs z) := by
    intro tile ht b hb x hx z hz
    have inside : z * 32 + x < 512 := Layout.index_lt (m := 16) hz hx
    refine ⟨Layout.index_lt (Layout.index_lt ht hb) inside, ?_⟩
    rw [contents, Layout.row inside, Layout.column inside, Layout.row hb, Layout.column hb,
      Layout.row hx, Layout.column hx]
  unfold packWeights
  rw [chunkCount_whole (by decide) whole]
  refine (Writes.loop fun tile ht => Writes.loop fun b hb => Writes.loop fun x hx => Writes.seq
    (Writes.store (scale tile ht b hb x hx).1 (scale tile ht b hb x hx).2.symm)
    (Writes.loop fun z hz => Writes.store (quant tile ht b hb x hx z hz).1
      (quant tile ht b hb x hx z hz).2.symm)).weaken (fun _ _ no => no) fun k i => ?_
  constructor
  · rintro ⟨rfl | rfl, inside⟩
    · obtain ⟨s, hs, x, hx, rfl⟩ := Layout.lt_iff.mp inside
      obtain ⟨tile, ht, b, hb, rfl⟩ := Layout.lt_iff.mp hs
      exact ⟨tile, ht, b, hb, x, hx, .inl ⟨rfl, rfl⟩⟩
    · obtain ⟨s, hs, o, ho, rfl⟩ := Layout.lt_iff.mp inside
      obtain ⟨tile, ht, b, hb, rfl⟩ := Layout.lt_iff.mp hs
      obtain ⟨z, hz, x, hx, rfl⟩ := (Layout.lt_iff (m := 16) (n := 32)).mp ho
      exact ⟨tile, ht, b, hb, x, hx, .inr ⟨z, hz, rfl, rfl⟩⟩
  · rintro ⟨tile, ht, b, hb, x, hx, ⟨rfl, rfl⟩ | ⟨z, hz, rfl, rfl⟩⟩
    · exact ⟨.inl rfl, (scale tile ht b hb x hx).1⟩
    · exact ⟨.inr rfl, (quant tile ht b hb x hx z hz).1⟩

section Activation

variable (operands out) in
theorem scale_at {tile b row : ℕ} (ht : tile < request.m / mr) (hb : b < request.k / 32) (hr : row < mr) :
    (tile * (request.k / 32) + b) * mr + row < rvvSize request mr (.scales .activation) ∧
      contents request operands mr out (.scales .activation) ((tile * (request.k / 32) + b) * mr + row) =
        some (tileRows operands mr tile b row).d := by
  refine ⟨Layout.index_lt (Layout.index_lt ht hb) hr, ?_⟩
  rw [contents, Layout.row hr, Layout.column hr, Layout.row hb, Layout.column hb]

theorem quant_inside {z half row : ℕ} (hz : z < 16) (hh : half < 2) (hr : row < mr) :
    z * (2 * mr) + (half * mr + row) < mr * 32 := by
  have inside := Layout.index_lt hz (Layout.index_lt hh hr)
  omega

variable (operands out) in
theorem quant_at {tile b z half row : ℕ} (ht : tile < request.m / mr) (hb : b < request.k / 32)
    (hz : z < 16) (hh : half < 2) (hr : row < mr) :
    (tile * (request.k / 32) + b) * (mr * 32) + (z * (2 * mr) + (half * mr + row)) <
        rvvSize request mr (.quants .activation) ∧
      contents request operands mr out (.quants .activation)
          ((tile * (request.k / 32) + b) * (mr * 32) + (z * (2 * mr) + (half * mr + row))) =
        some ((tileRows operands mr tile b row).qs (z + half * 16)) := by
  have inside := quant_inside hz hh hr
  refine ⟨Layout.index_lt (Layout.index_lt ht hb) inside, ?_⟩
  rw [contents, Layout.row inside, Layout.column inside, Layout.row hb, Layout.column hb,
    quantByte_at hh hr]

variable (request mr) in
def BlockCells (tile b : ℕ) : Region RvvBuffer := fun k x =>
  (k = .scales .activation ∧ ∃ row < mr, x = (tile * (request.k / 32) + b) * mr + row) ∨
  k = .quants .activation ∧ ∃ z < 16, ∃ half < 2, ∃ row < mr,
    x = (tile * (request.k / 32) + b) * (mr * 32) + (z * (2 * mr) + (half * mr + row))

theorem packed_iff {k : RvvBuffer} {x : ℕ} : Packed request mr .activation k x ↔
    ∃ tile < request.m / mr, ∃ b < request.k / 32, BlockCells request mr tile b k x := by
  constructor
  · rintro ⟨rfl | rfl, inside⟩
    · obtain ⟨s, hs, row, hr, rfl⟩ := Layout.lt_iff.mp inside
      obtain ⟨tile, ht, b, hb, rfl⟩ := Layout.lt_iff.mp hs
      exact ⟨tile, ht, b, hb, .inl ⟨rfl, row, hr, rfl⟩⟩
    · obtain ⟨s, hs, o, ho, rfl⟩ := Layout.lt_iff.mp inside
      obtain ⟨tile, ht, b, hb, rfl⟩ := Layout.lt_iff.mp hs
      rw [show mr * 32 = 16 * (2 * mr) by omega] at ho
      obtain ⟨z, hz, rest, hrest, rfl⟩ := Layout.lt_iff.mp ho
      obtain ⟨half, hh, row, hr, rfl⟩ := Layout.lt_iff.mp hrest
      exact ⟨tile, ht, b, hb, .inr ⟨rfl, z, hz, half, hh, row, hr, rfl⟩⟩
  · rintro ⟨tile, ht, b, hb, ⟨rfl, row, hr, rfl⟩ | ⟨rfl, z, hz, half, hh, row, hr, rfl⟩⟩
    · exact ⟨.inl rfl, Layout.index_lt (Layout.index_lt ht hb) hr⟩
    · exact ⟨.inr rfl, Layout.index_lt (Layout.index_lt ht hb) (quant_inside hz hh hr)⟩

theorem packA8_writes (whole : request.m / 8 * 8 = request.m) :
    Writes (rvvSize request 8) (packA8 request operands) (contents request operands 8 out)
      (Packed request 8 .activation) := by
  unfold packA8
  rw [chunkCount_whole (by decide) whole]
  have block : ∀ tile < request.m / 8, ∀ b < request.k / 32, Writes (rvvSize request 8)
      (forUp (fun q memory =>
        let x := tile * (request.k / 32) + b
        let a := operands.activation (tile * 8 + q) b
        (memory.store (.scales .activation) (x * 8 + q) (some a.d)).bind
        (forUp (fun z memory =>
          (memory.store (.quants .activation) (x * 256 + (z * 16 + q)) (some (a.qs z))).bind fun memory =>
          memory.store (.quants .activation) (x * 256 + (z * 16 + 8 + q)) (some (a.qs (z + 16)))) 0 16))
        0 8) (contents request operands 8 out) (BlockCells request 8 tile b) := by
    intro tile ht b hb
    have low : ∀ q < 8, ∀ z < 16, (tile * (request.k / 32) + b) * (8 * 32) + (z * (2 * 8) + q) <
          rvvSize request 8 (.quants .activation) ∧
        contents request operands 8 out (.quants .activation)
          ((tile * (request.k / 32) + b) * (8 * 32) + (z * (2 * 8) + q)) =
            some ((tileRows operands 8 tile b q).qs z) := by
      intro q hq z hz
      have quant := quant_at operands out ht hb hz (by decide : 0 < 2) hq
      rwa [Nat.zero_mul, Nat.zero_add] at quant
    have high : ∀ q < 8, ∀ z < 16, (tile * (request.k / 32) + b) * (8 * 32) + (z * (2 * 8) + 8 + q) <
          rvvSize request 8 (.quants .activation) ∧
        contents request operands 8 out (.quants .activation)
          ((tile * (request.k / 32) + b) * (8 * 32) + (z * (2 * 8) + 8 + q)) =
            some ((tileRows operands 8 tile b q).qs (z + 16)) := by
      intro q hq z hz
      have quant := quant_at operands out ht hb hz (by decide : 1 < 2) hq
      rwa [Nat.one_mul, ← Nat.add_assoc (z * _)] at quant
    refine (Writes.loop fun q hq => Writes.seq
      (Writes.store (scale_at operands out ht hb hq).1 (scale_at operands out ht hb hq).2.symm)
      (Writes.loop fun z hz => Writes.seq (Writes.store (low q hq z hz).1 (low q hq z hz).2.symm)
        (Writes.store (high q hq z hz).1 (high q hq z hz).2.symm))).weaken
      (fun _ _ no => no) fun k x => ?_
    constructor
    · rintro (⟨rfl, q, hq, rfl⟩ | ⟨rfl, z, hz, half, hh, q, hq, rfl⟩)
      · exact ⟨q, hq, .inl ⟨rfl, rfl⟩⟩
      · obtain rfl | rfl : half = 0 ∨ half = 1 := by omega
        · exact ⟨q, hq, .inr ⟨z, hz, .inl ⟨rfl, by omega⟩⟩⟩
        · exact ⟨q, hq, .inr ⟨z, hz, .inr ⟨rfl, by omega⟩⟩⟩
    · rintro ⟨q, hq, ⟨rfl, rfl⟩ | ⟨z, hz, ⟨rfl, rfl⟩ | ⟨rfl, rfl⟩⟩⟩
      · exact .inl ⟨rfl, q, hq, rfl⟩
      · exact .inr ⟨rfl, z, hz, 0, by decide, q, hq, by omega⟩
      · exact .inr ⟨rfl, z, hz, 1, by decide, q, hq, by omega⟩
  refine (Writes.loop fun tile ht => Writes.loop fun b hb => block tile ht b hb).weaken
    (fun _ _ no => no) fun k x => packed_iff

theorem packRun_writes {tile b z half first n target k : ℕ} (ht : tile < request.m / 12)
    (hb : b < request.k / 32) (hz : z < 16) (hh : half < 2) (room : first + n ≤ 12)
    (here : target = z * (2 * 12) + (half * 12 + first)) (element : k = z + half * 16) :
    Writes (rvvSize request 12) (packRun (fun x => operands.activation (tile * 12 + x) b)
        (tile * (request.k / 32) + b) target first k n) (contents request operands 12 out)
      fun k x => k = .quants .activation ∧ ∃ row, (first ≤ row ∧ row < first + n) ∧
        x = (tile * (request.k / 32) + b) * (12 * 32) + (z * (2 * 12) + (half * 12 + row)) := by
  have place : ∀ x, target + x = z * (2 * 12) + (half * 12 + (first + x)) := by
    intro x
    rw [here]
    omega
  have cell : ∀ x < n, (tile * (request.k / 32) + b) * (12 * 32) + (target + x) <
        rvvSize request 12 (.quants .activation) ∧
      contents request operands 12 out (.quants .activation)
        ((tile * (request.k / 32) + b) * (12 * 32) + (target + x)) =
          some ((tileRows operands 12 tile b (first + x)).qs k) := by
    intro x hx
    have quant := quant_at operands out ht hb hz hh (by omega : first + x < 12)
    rwa [← place, ← element] at quant
  refine (Writes.loop fun x hx => Writes.store (cell x hx).1 (cell x hx).2.symm).weaken
    (fun _ _ no => no) fun k' i => ?_
  constructor
  · rintro ⟨rfl, row, ⟨low, high⟩, rfl⟩
    refine ⟨row - first, by omega, rfl, ?_⟩
    rw [place, Nat.add_sub_cancel' low]
  · rintro ⟨x, hx, rfl, rfl⟩
    refine ⟨rfl, first + x, by omega, ?_⟩
    rw [place]

theorem packA12_writes (whole : request.m / 12 * 12 = request.m) :
    Writes (rvvSize request 12) (packA12 request operands) (contents request operands 12 out)
      (Packed request 12 .activation) := by
  unfold packA12
  rw [chunkCount_whole (by decide) whole]
  refine (Writes.loop fun tile ht => Writes.loop fun b hb => ?_).weaken (fun _ _ no => no)
    fun k x => packed_iff
  have runs : ∀ z < 16, Writes (rvvSize request 12) _ (contents request operands 12 out) _ :=
    fun z hz => Writes.seq (packRun_writes ht hb hz (by decide : 0 < 2) (by decide : 0 + 8 ≤ 12) rfl rfl)
      (Writes.seq (packRun_writes ht hb hz (by decide : 0 < 2) (by decide : 8 + 4 ≤ 12) rfl rfl)
        (Writes.seq (packRun_writes ht hb hz (by decide : 1 < 2) (by decide : 0 + 4 ≤ 12) rfl rfl)
          (packRun_writes ht hb hz (by decide : 1 < 2) (by decide : 4 + 8 ≤ 12) rfl rfl)))
  refine (Writes.seq (Writes.loop fun x hx =>
    Writes.store (scale_at operands out ht hb hx).1 (scale_at operands out ht hb hx).2.symm)
    (Writes.loop runs)).weaken (fun _ _ no => no) fun k x => ?_
  constructor
  · rintro (⟨rfl, row, hr, rfl⟩ | ⟨rfl, z, hz, half, hh, row, hr, rfl⟩)
    · exact .inl ⟨row, hr, rfl, rfl⟩
    · refine .inr ⟨z, hz, ?_⟩
      obtain rfl | rfl : half = 0 ∨ half = 1 := by omega
      · rcases Nat.lt_or_ge row 8 with first | later
        · exact .inl ⟨rfl, row, by omega, rfl⟩
        · exact .inr (.inl ⟨rfl, row, by omega, rfl⟩)
      · rcases Nat.lt_or_ge row 4 with first | later
        · exact .inr (.inr (.inl ⟨rfl, row, by omega, rfl⟩))
        · exact .inr (.inr (.inr ⟨rfl, row, by omega, rfl⟩))
  · rintro (⟨row, hr, rfl, rfl⟩ | ⟨z, hz, ⟨rfl, row, inside, rfl⟩ | ⟨rfl, row, inside, rfl⟩ |
      ⟨rfl, row, inside, rfl⟩ | ⟨rfl, row, inside, rfl⟩⟩)
    · exact .inl ⟨rfl, row, hr, rfl⟩
    · exact .inr ⟨rfl, z, hz, 0, by decide, row, by omega, rfl⟩
    · exact .inr ⟨rfl, z, hz, 0, by decide, row, by omega, rfl⟩
    · exact .inr ⟨rfl, z, hz, 1, by decide, row, by omega, rfl⟩
    · exact .inr ⟨rfl, z, hz, 1, by decide, row, by omega, rfl⟩

end Activation

section Block

variable {m : RvvMemory F H} {rows : ℕ → BlockQ80 H} {columns : ℕ → BlockQ40 H} {blockA blockB : ℕ}

def HoldsQuants (mr blockA : ℕ) (rows : ℕ → BlockQ80 H) (m : RvvMemory F H) : Prop :=
  ∀ o < mr * 32, blockA * (mr * 32) + o < m.size (.quants .activation) ∧
    m.cell (.quants .activation) (blockA * (mr * 32) + o) = some (quantByte mr rows o)

/-- What a kernel finds of one K block. -/
structure HoldsBlock (mr blockA blockB : ℕ) (rows : ℕ → BlockQ80 H) (columns : ℕ → BlockQ40 H)
    (m : RvvMemory F H) : Prop where
  scalesA : ∀ row < mr, blockA * mr + row < m.size (.scales .activation) ∧
    m.cell (.scales .activation) (blockA * mr + row) = some (rows row).d
  quantsA : HoldsQuants mr blockA rows m
  scalesB : ∀ column < 32, blockB * 32 + column < m.size (.scales .weight) ∧
    m.cell (.scales .weight) (blockB * 32 + column) = some (columns column).d
  quantsB : ∀ z < 16, ∀ column < 32, blockB * 512 + (z * 32 + column) < m.size (.quants .weight) ∧
    m.cell (.quants .weight) (blockB * 512 + (z * 32 + column)) = some ((columns column).qs z)

theorem holdsBlock_of_holds {tile_m tile_n block : ℕ} (sizes : m.size = rvvSize request mr)
    (activation : Holds (contents request operands mr out) (Packed request mr .activation) m)
    (weight : Holds (contents request operands mr out) (Packed request mr .weight) m)
    (htm : tile_m < request.m / mr) (ht : tile_n < request.n / 32) (hb : block < request.k / 32) :
    HoldsBlock mr (tile_m * (request.k / 32) + block) (tile_n * (request.k / 32) + block)
      (tileRows operands mr tile_m block) (tileColumns request operands tile_n block) m where
  scalesA row hr := by
    obtain ⟨inside, value⟩ := scale_at operands out htm hb hr
    rw [sizes, activation _ _ ⟨.inl rfl, inside⟩]
    exact ⟨inside, value⟩
  quantsA o ho := by
    have inside := Layout.index_lt (Layout.index_lt htm hb) ho
    rw [sizes, activation _ _ ⟨.inr rfl, inside⟩, contents, Layout.row ho, Layout.column ho,
      Layout.row hb, Layout.column hb]
    exact ⟨inside, rfl⟩
  scalesB column hc := by
    have inside := Layout.index_lt (Layout.index_lt ht hb) hc
    rw [sizes, weight _ _ ⟨.inl rfl, inside⟩, contents, Layout.row hc, Layout.column hc,
      Layout.row hb, Layout.column hb]
    exact ⟨inside, rfl⟩
  quantsB z hz column hc := by
    have ho : z * 32 + column < 512 := Layout.index_lt (m := 16) hz hc
    have inside := Layout.index_lt (Layout.index_lt ht hb) ho
    rw [sizes, weight _ _ ⟨.inr rfl, inside⟩, contents, Layout.row ho, Layout.column ho,
      Layout.row hb, Layout.column hb, Layout.row hc, Layout.column hc]
    exact ⟨inside, rfl⟩

theorem blockBytes_ends {operand : Operand} {bytes block offset n : ℕ} {f : ℕ → BitVec 8}
    (inside : offset + n ≤ bytes) (cells : ∀ i < n,
      block * bytes + (offset + i) < m.size (.quants operand) ∧
      m.cell (.quants operand) (block * bytes + (offset + i)) = some (f i)) :
    Ends (blockBytes operand bytes block offset n m) fun r => ∀ i < n, r i = f i := by
  rw [blockBytes, if_pos inside]
  refine fetchLanes_ends ?_ ?_
  · intro i hi
    rw [Nat.add_assoc]
    exact (cells i hi).1
  · intro i hi
    rw [Nat.add_assoc]
    exact (cells i hi).2

/-- Step `z` finds elements `z` and `z + 16` of the rows; `pointer z` is what it carries over. -/
def Feeds (mr : ℕ) (quants : ℕ → RvvMemory F H → ℕ → P → Option (StepQuants × P)) (pointer : ℕ → P) :
    Prop :=
  ∀ block rows m, HoldsQuants mr block rows m → ∀ z < 16,
    Ends (quants block m z (pointer z)) fun r => r.2 = pointer (z + 1) ∧
      ∀ row < mr, r.1.low row = (rows row).qs z ∧ r.1.high row = (rows row).qs (z + 16)

theorem quants8_feeds : Feeds (F := F) (H := H) 8 quants8 fun _ => () := by
  intro block rows m held z hz
  have loaded : Ends (blockBytes .activation 256 block (z * 16) 16 m) fun qs =>
      ∀ i < 16, qs i = quantByte 8 rows (z * 16 + i) :=
    blockBytes_ends (by omega) fun i hi => held (z * 16 + i) (by omega)
  refine loaded.map fun qs byte => ⟨rfl, ?_⟩
  intro row hr
  have low : quantByte 8 rows (z * 16 + (0 * 8 + row)) = (rows row).qs z := quantByte_at (by decide) hr
  have high : quantByte 8 rows (z * 16 + (1 * 8 + row)) = (rows row).qs (z + 16) :=
    quantByte_at (by decide) hr
  rw [Nat.zero_mul, Nat.zero_add] at low
  exact ⟨(byte row (by omega)).trans low, (byte (8 + row) (by omega)).trans high⟩

theorem blockWord_ends {p : ℕ} (held : HoldsQuants 12 blockA rows m) (hp : p < 48) :
    Ends (blockWord blockA p m) fun word =>
      ∀ i < 8, maskedByte word i = quantByte 12 rows (p * 8 + i) := by
  have loaded : Ends (blockBytes .activation 384 blockA (p * 8) 8 m) fun b =>
      ∀ i < 8, b i = quantByte 12 rows (p * 8 + i) :=
    blockBytes_ends (by omega) fun i hi => held (p * 8 + i) (by omega)
  refine loaded.map fun b byte => ?_
  intro i hi
  rw [maskedByte_ofEightBytes hi, byte i hi]

theorem quants12_feeds : Feeds (F := F) (H := H) 12 quants12 fun z => z * 3 := by
  intro block rows m held z hz
  refine (blockWord_ends held (by omega : z * 3 < 48)).bind fun a_0_7 first => ?_
  refine (blockWord_ends held (by omega : z * 3 + 1 < 48)).bind fun a_8_15 second => ?_
  refine (blockWord_ends held (by omega : z * 3 + 2 < 48)).map fun a_16_23 third => ⟨(Nat.succ_mul z 3).symm, ?_⟩
  intro row hr
  have low : quantByte 12 rows (z * 24 + (0 * 12 + row)) = (rows row).qs z := quantByte_at (by decide) hr
  have high : quantByte 12 rows (z * 24 + (1 * 12 + row)) = (rows row).qs (z + 16) :=
    quantByte_at (by decide) hr
  constructor
  · by_cases early : row < 8
    · dsimp only
      rw [if_pos early, first row early, ← low]
      congr 1
      omega
    · dsimp only
      rw [if_neg early, second (row - 8) (by omega), ← low]
      congr 1
      omega
  · by_cases early : row < 4
    · dsimp only
      rw [if_pos early, second (row + 4) (by omega), ← high]
      congr 1
      omega
    · dsimp only
      rw [if_neg early, third (row - 4) (by omega), ← high]
      congr 1
      omega

end Block

end Pfng.Q40.Rvv32
