import Mathlib.Data.Rat.Floor
import Pfng.Lib.Rows
import Pfng.Q40.M8bProduct
import Pfng.Q40.Rvv32Packing

/-! The two vector kernels compute the product. Quants of at most 127 keep every int16 accumulator in
range, whatever it would do with a result that does not fit. -/
namespace Pfng.Q40.Rvv32
open Checked BatchReduction Register Finset Ime
open Rvv (Overflow)

variable {F H P : Type}

section Sums

/-- Multiply-accumulate `i` of an element: step `i / 2`, first the low nibble and then the high one. -/
def term (w : BlockQ40 H) (a : BlockQ80 H) (i : ℕ) : ℤ :=
  (((nibble w (i / 2 + i % 2 * 16)).toNat : ℤ) - 8) * (a.qs (i / 2 + i % 2 * 16)).toInt

/-- An accumulator after the first `n` of them. -/
def prefixSum (w : BlockQ40 H) (a : BlockQ80 H) (n : ℕ) : ℤ := ∑ i ∈ range n, term w a i

def Bounded (a : BlockQ80 H) : Prop := ∀ k < 32, |(a.qs k).toInt| ≤ 127

variable {w : BlockQ40 H} {a : BlockQ80 H}

theorem abs_term_le (bounded : Bounded a) {i : ℕ} (hi : i < 32) : |term w a i| ≤ 8 * 127 := by
  have nibble : |((nibble w (i / 2 + i % 2 * 16)).toNat : ℤ) - 8| ≤ 8 := by
    have := nibble_le w (i / 2 + i % 2 * 16)
    rw [abs_le]
    omega
  rw [term, abs_mul]
  exact mul_le_mul nibble (bounded _ (by omega)) (abs_nonneg _) (by decide)

theorem prefixSum_fits (bounded : Bounded a) {n : ℕ} (hn : n ≤ 32) : Fits 16 (prefixSum w a n) := by
  refine sum_fits (fun i hi => abs_term_le bounded (by omega)) ?_
  have le : (n : ℤ) ≤ 32 := by exact_mod_cast hn
  calc (n : ℤ) * (8 * 127) ≤ 32 * (8 * 127) := mul_le_mul_of_nonneg_right le (by decide)
    _ < 2^(16-1) := by decide

theorem term_low {z lane : ℕ} {src : ℕ → BitVec 8} (hz : z < 16) (loaded : src lane = w.qs z) :
    term w a (z * 2) = (low4bits src lane).toInt * (a.qs z).toInt := by
  have weight : ∀ x : BitVec 8, ((x &&& 0x0f#8) - 8).toInt = ((x &&& 0x0f#8).toNat : ℤ) - 8 := by decide
  have place : z * 2 / 2 + z * 2 % 2 * 16 = z := by omega
  rw [term, place, low4bits, weight, loaded, nibble, if_pos hz]
  rfl

theorem term_high {z lane : ℕ} {src : ℕ → BitVec 8} (loaded : src lane = w.qs z) :
    term w a (z * 2 + 1) = (high4bits src lane).toInt * (a.qs (z + 16)).toInt := by
  have weight : ∀ x : BitVec 8, (x >>> 4 - 8).toInt = ((x >>> 4).toNat : ℤ) - 8 := by decide
  have place : (z * 2 + 1) / 2 + (z * 2 + 1) % 2 * 16 = 16 + z := by omega
  rw [term, place, nibble_high, high4bits, weight, loaded, Nat.add_comm 16]

theorem prefixSum_all (w : BlockQ40 H) (a : BlockQ80 H) : prefixSum w a 32 = blockSum w a := by
  have pairs : ∀ z ∈ range 16, ∑ half ∈ range 2, term w a (z * 2 + half) =
      (((nibble w z).toNat : ℤ) - 8) * (a.qs z).toInt +
        (((nibble w (16 + z)).toNat : ℤ) - 8) * (a.qs (16 + z)).toInt := by
    intro z _
    have low : (z * 2 + 0) / 2 + (z * 2 + 0) % 2 * 16 = z := by omega
    have high : (z * 2 + 1) / 2 + (z * 2 + 1) % 2 * 16 = 16 + z := by omega
    rw [sum_range_succ, sum_range_one, term, term, low, high]
  rw [prefixSum, Layout.sum_rows 16 2, sum_congr rfl pairs, sum_add_distrib, blockSum,
    sum_range_add _ 16 16]

end Sums

section Accumulators

variable {overflow : Overflow} {mr : ℕ} {w a : ℕ → BitVec 8} {f : ℕ → ℕ → ℤ}

theorem mulRows_ends (value : ∀ row < mr, ∀ lane < 32, (w lane).toInt * (a row).toInt = f row lane)
    (fits : ∀ row < mr, ∀ lane < 32, Fits 16 (f row lane)) :
    Ends (mulRows overflow mr w a) fun sums => ∀ row < mr, ∀ lane < 32, sums row lane = f row lane := by
  have each : ∀ row < mr, ∀ lane < 32, Ends (overflow.int16 ((w lane).toInt * (a row).toInt))
      (· = f row lane) := by
    intro row hr lane hl
    rw [value row hr lane hl]
    exact ⟨_, overflow.int16_fits (fits row hr lane hl), rfl⟩
  exact fetchAll_ends (P := fun row (sums : ℕ → ℤ) => ∀ lane < 32, sums lane = f row lane)
    fun row hr => fetchAll_ends (each row hr)

theorem macRows_ends {sums : ℕ → ℕ → ℤ}
    (value : ∀ row < mr, ∀ lane < 32, sums row lane + (a row).toInt * (w lane).toInt = f row lane)
    (fits : ∀ row < mr, ∀ lane < 32, Fits 16 (f row lane)) :
    Ends (macRows overflow mr sums w a) fun sums =>
      ∀ row < mr, ∀ lane < 32, sums row lane = f row lane := by
  have each : ∀ row < mr, ∀ lane < 32, Ends (overflow.int16 (sums row lane + (a row).toInt * (w lane).toInt))
      (· = f row lane) := by
    intro row hr lane hl
    rw [value row hr lane hl]
    exact ⟨_, overflow.int16_fits (fits row hr lane hl), rfl⟩
  exact fetchAll_ends (P := fun row (sums : ℕ → ℤ) => ∀ lane < 32, sums lane = f row lane)
    fun row hr => fetchAll_ends (each row hr)

variable {rows : ℕ → BlockQ80 H} {columns : ℕ → BlockQ40 H} {src : ℕ → BitVec 8} {z : ℕ}

/-- The accumulators after the first `n` multiply-accumulates of each. -/
def Sums (mr : ℕ) (rows : ℕ → BlockQ80 H) (columns : ℕ → BlockQ40 H) (n : ℕ) (sums : ℕ → ℕ → ℤ) :
    Prop :=
  ∀ row < mr, ∀ lane < 32, sums row lane = prefixSum (columns lane) (rows row) n

theorem Sums.next {sums : ℕ → ℕ → ℤ} {n : ℕ} (h : Sums mr rows columns n sums)
    (bounded : ∀ row < mr, Bounded (rows row)) (hn : n < 32)
    (product : ∀ row < mr, ∀ lane < 32,
      (w lane).toInt * (a row).toInt = term (columns lane) (rows row) n) :
    Ends (macRows overflow mr sums w a) (Sums mr rows columns (n + 1)) := by
  refine macRows_ends ?_ fun row hr lane hl => prefixSum_fits (bounded row hr) hn
  intro row hr lane hl
  rw [h row hr lane hl, mul_comm, product row hr lane hl, prefixSum, prefixSum, sum_range_succ]

theorem Sums.first (bounded : ∀ row < mr, Bounded (rows row))
    (product : ∀ row < mr, ∀ lane < 32,
      (w lane).toInt * (a row).toInt = term (columns lane) (rows row) 0) :
    Ends (mulRows overflow mr w a) (Sums mr rows columns 1) := by
  refine mulRows_ends ?_ fun row hr lane hl => prefixSum_fits (bounded row hr) (by decide)
  intro row hr lane hl
  rw [product row hr lane hl, prefixSum, sum_range_one]

variable {quants : ℕ → RvvMemory F H → ℕ → P → Option (StepQuants × P)} {pointer : ℕ → P}
variable {m : RvvMemory F H} {blockA blockB : ℕ}

/-- The `z` loop makes the sums of the block; no accumulator leaves its range on the way. -/
theorem blockSums_ends (feeds : Feeds mr quants pointer)
    (held : HoldsBlock mr blockA blockB rows columns m) (bounded : ∀ row < mr, Bounded (rows row)) :
    Ends (blockSums overflow mr (quants blockA m) (pointer 0) blockB m) fun sums =>
      ∀ row < mr, ∀ lane < 32, sums row lane = blockSum (columns lane) (rows row) := by
  have whole : Ends (pipelined (fun z => blockBytes .weight 512 blockB (z * 32) 32 m)
      (firstStep overflow mr (quants blockA m) (pointer 0)) (nextStep overflow mr (quants blockA m)) 14)
      fun r => r.1 = pointer 16 ∧ Sums mr rows columns 32 r.2 := by
    refine pipelined_ends (fun z (src : ℕ → BitVec 8) => ∀ lane < 32, src lane = (columns lane).qs z)
      (fun z (r : P × (ℕ → ℕ → ℤ)) => r.1 = pointer z ∧ Sums mr rows columns (z * 2) r.2) ?_ ?_ ?_
    · intro z hz
      exact blockBytes_ends (by omega) (held.quantsB z (by omega))
    · intro src loaded
      refine (feeds blockA rows m held.quantsA 0 (by decide)).bind fun ⟨a, p⟩ ⟨moved, fed⟩ => ?_
      have low : Ends (mulRows overflow mr (low4bits src) a.low) (Sums mr rows columns 1) :=
        Sums.first bounded fun row hr lane hl => by
          rw [(fed row hr).1]
          exact (term_low (by decide) (loaded lane hl)).symm
      refine low.bind fun sums before => ?_
      have high : Ends (macRows overflow mr sums (high4bits src) a.high) (Sums mr rows columns 2) :=
        before.next bounded (by decide) fun row hr lane hl => by
          rw [(fed row hr).2]
          exact (term_high (loaded lane hl)).symm
      exact high.map fun sums after => ⟨moved, after⟩
    · intro z src ⟨p, sums⟩ _ hz loaded ⟨here, before⟩
      change p = pointer z at here
      subst here
      refine (feeds blockA rows m held.quantsA z (by omega)).bind fun ⟨a, p⟩ ⟨moved, fed⟩ => ?_
      have low : Ends (macRows overflow mr sums (low4bits src) a.low) (Sums mr rows columns (z * 2 + 1)) :=
        before.next bounded (by omega) fun row hr lane hl => by
          rw [(fed row hr).1]
          exact (term_low (by omega) (loaded lane hl)).symm
      refine low.bind fun sums before => ?_
      have high : Ends (macRows overflow mr sums (high4bits src) a.high)
          (Sums mr rows columns (z * 2 + 1 + 1)) :=
        before.next bounded (by omega) fun row hr lane hl => by
          rw [(fed row hr).2]
          exact (term_high (loaded lane hl)).symm
      refine high.map fun sums after => ⟨moved, ?_⟩
      rwa [Nat.add_mul, Nat.one_mul]
  refine whole.map fun r ⟨_, sums⟩ => ?_
  intro row hr lane hl
  rw [sums row hr lane hl, prefixSum_all]

end Accumulators

section Tile

variable [Inhabited H] {ops : FloatOps F H} {overflow : Overflow} {request : Bench.BenchmarkRequest}
variable {operands : Operands H H} {mr tile_m tile_n : ℕ}
variable {quants : ℕ → RvvMemory F H → ℕ → P → Option (StepQuants × P)} {pointer : ℕ → P}

section SumRow

variable {m : RvvMemory F H} {a b : ℕ}

variable (ops request operands) in
/-- An element of the output after its first `n` blocks. -/
def elementSum (row column n : ℕ) : F :=
  accumulated ops (fun b => blockSum (operands.column request column b) (operands.activation row b))
    (fun b => (operands.column request column b).d) (fun b => ops.widen (operands.activation row b).d)
    ops.zero n

variable (ops request operands) in
/-- `sum_row` after the first `n` blocks. -/
def sumRow (mr tile_m tile_n n : ℕ) : Contents Unit fun _ => F := fun _ x =>
  elementSum ops request operands (tile_m * mr + x / 32) (tile_n * 32 + x % 32) n

omit [Inhabited H] in
theorem sumRow_at {row lane n : ℕ} (hl : lane < 32) :
    sumRow ops request operands mr tile_m tile_n n () (row * 32 + lane) =
      elementSum ops request operands (tile_m * mr + row) (tile_n * 32 + lane) n := by
  rw [sumRow, Layout.row hl, Layout.column hl]

theorem addBlock_effect {block : ℕ} {suml_32 : ℕ → ℕ → ℤ}
    (held : HoldsBlock mr a b (tileRows operands mr tile_m block)
      (tileColumns request operands tile_n block) m)
    (sums : ∀ row < mr, ∀ lane < 32, suml_32 row lane = blockSum
      (tileColumns request operands tile_n block lane) (tileRows operands mr tile_m block row)) :
    Effect (newSumRow ops mr).size (sumRow ops request operands mr tile_m tile_n block)
      (ArrayCells 32 () mr) (addBlock ops mr a b m suml_32)
      (sumRow ops request operands mr tile_m tile_n (block + 1)) (ArrayCells 32 () mr)
      (ArrayCells 32 () mr) := by
  have scales : Ends (m.fetchLanes (.scales .weight) id (b * 32) 32) fun d =>
      ∀ lane < 32, d lane = (tileColumns request operands tile_n block lane).d :=
    fetchLanes_ends (fun lane hl => (held.scalesB lane hl).1) fun lane hl => (held.scalesB lane hl).2
  refine Effect.read (fun _ _ _ => scales) fun d scaleW => ?_
  refine Effect.array (A := fun row => RowCells 32 () row) ?_ ?_ ?_
  · intro row hr sum_row sizes holds
    have room : row * 32 + 32 ≤ mr * 32 := by omega
    obtain ⟨sum, loaded, before⟩ := loadLanes_eq holds sizes room fun lane hl => ⟨rfl, lane, hl, rfl⟩
    obtain ⟨inside, scale⟩ := held.scalesA row hr
    have scaleA : (m.load (.scales .activation) (a * mr + row)).join =
        some (tileRows operands mr tile_m block row).d := by
      rw [Memory.load, if_pos inside, scale]
      rfl
    dsimp only
    rw [loaded, Option.bind_some, scaleA, Option.bind_some]
    have stored : Writes (newSumRow ops mr).size (fun sum_row : SumRow F =>
        sum_row.storeLanes () (row * 32) 32 fun lane => ops.fma (sum lane) (ops.ofInt (suml_32 row lane))
          (ops.mul (ops.widen (d lane)) (ops.widen (tileRows operands mr tile_m block row).d)))
        (sumRow ops request operands mr tile_m tile_n (block + 1)) (RowCells 32 () row) :=
      Writes.storeLanes (fun lane hl => Layout.index_lt hr hl) fun lane hl => ?_
    · exact stored sum_row sizes fun _ _ no => no.elim
    rw [before lane hl, sumRow_at hl, sumRow_at hl, sums row hr lane hl, scaleW lane hl]
    rfl
  · intro i j lt hj k x cell
    exact rowCells_apart (Nat.ne_of_gt lt) cell
  · intro row hr k x cell
    exact arrayCells_iff.mpr ⟨row, hr, cell⟩

theorem sumBlocks_ends (feeds : Feeds mr quants pointer)
    (held : ∀ block < request.k / 32, HoldsBlock mr (a + block) (b + block)
      (tileRows operands mr tile_m block) (tileColumns request operands tile_n block) m)
    (bounded : ∀ block < request.k / 32, ∀ row < mr, Bounded (tileRows operands mr tile_m block row)) :
    Ends (sumBlocks ops overflow mr quants (pointer 0) (request.k / 32) b a m) fun sum_row =>
      sum_row.size = (newSumRow ops mr).size ∧
        Holds (sumRow ops request operands mr tile_m tile_n (request.k / 32)) (ArrayCells 32 () mr)
          sum_row := by
  refine loop_ends (fun n (sum_row : SumRow F) => sum_row.size = (newSumRow ops mr).size ∧
    Holds (sumRow ops request operands mr tile_m tile_n n) (ArrayCells 32 () mr) sum_row)
    ⟨rfl, fun _ _ _ => rfl⟩ fun block hb sum_row ⟨sizes, before⟩ => ?_
  refine (blockSums_ends feeds (held block hb) (bounded block hb)).bind fun suml_32 sums => ?_
  exact (addBlock_effect (held block hb) sums sum_row sizes before).mono
    fun sum_row ⟨change, after⟩ => ⟨change.size.trans sizes, after⟩

end SumRow

variable (ops request operands) in
/-- The output after `i` iterations. -/
def outputs (previous : ℕ → Counted F) : ℕ → ℕ → Counted F
  | 0, x => previous x
  | i+1, x => ⟨some (elementSum ops request operands (x / request.n) (x % request.n) (request.k / 32)),
      (outputs previous i x).writes + 1⟩

omit [Inhabited H] in
theorem outputs_writes (previous : ℕ → Counted F) (i x : ℕ) :
    (outputs ops request operands previous i x).writes = (previous x).writes + i := by
  induction i with
  | zero => rfl
  | succ i ih => rw [outputs, ih, Nat.add_assoc]

omit [Inhabited H] in
theorem outputs_value {previous : ℕ → Counted F} {i row column : ℕ} (some_iteration : 1 ≤ i)
    (hc : column < request.n) :
    (outputs ops request operands previous i (row * request.n + column)).value =
      some (elementSum ops request operands row column (request.k / 32)) := by
  cases i with
  | zero => cases some_iteration
  | succ i => rw [outputs, Layout.row hc, Layout.column hc]

variable (request mr) in
def PackedOperands : Region RvvBuffer := fun k x =>
  Packed request mr .activation k x ∨ Packed request mr .weight k x

variable {previous : ℕ → Counted F} {i : ℕ}

omit [Inhabited H] in
theorem storeRow_effect {sum_row : SumRow F} {row base : ℕ} (sizes : sum_row.size = (newSumRow ops mr).size)
    (sums : Holds (sumRow ops request operands mr tile_m tile_n (request.k / 32)) (ArrayCells 32 () mr)
      sum_row) (wholeM : request.m / mr * mr = request.m) (wholeN : request.n / 32 * 32 = request.n)
    (htm : tile_m < request.m / mr) (ht : tile_n < request.n / 32) (hr : row < mr)
    (here : base = (tile_m * mr + row) * request.n + tile_n * 32) :
    Effect (rvvSize request mr) (contents request operands mr (outputs ops request operands previous i))
      (TileRow .output request.n mr 32 tile_m tile_n row)
      (fun memory : RvvMemory F H => (sum_row.loadLanes () (row * 32) 32).bind fun lanes =>
        storeOutput base lanes memory)
      (contents request operands mr (outputs ops request operands previous (i + 1)))
      (TileRow .output request.n mr 32 tile_m tile_n row)
      (TileRow .output request.n mr 32 tile_m tile_n row) := by
  have room : row * 32 + 32 ≤ mr * 32 := by omega
  have inside : ∀ lane < 32, tile_n * 32 + lane < request.n := fun lane hl =>
    tile_column_lt wholeN ht hl
  obtain ⟨lanes, loaded, values⟩ := loadLanes_eq sums sizes room fun lane hl =>
    ⟨rfl, Layout.index_lt hr hl⟩
  intro m sizes before
  dsimp only
  rw [loaded, Option.bind_some]
  refine (Writes.storeTileRow here (fun lane hl => ?_) fun lane hl => ?_) m sizes fun _ _ no => no.elim
  · exact Layout.index_lt (tile_column_lt wholeM htm hr) (inside lane hl)
  · have cell := before .output _ ⟨rfl, lane, hl, rfl⟩
    rw [here, Nat.add_assoc, cell, values lane hl, sumRow_at hl, contents, contents, outputs,
      Layout.row (inside lane hl), Layout.column (inside lane hl)]

/-- A call of the kernel writes its tile, each element once. -/
theorem gemm_effect (feeds : Feeds mr quants pointer) (pos : 0 < mr)
    (bounded : ∀ row < request.m, ∀ block < request.k / 32, Bounded (operands.activation row block))
    (wholeM : request.m / mr * mr = request.m) (wholeN : request.n / 32 * 32 = request.n)
    (htm : tile_m < request.m / mr) (ht : tile_n < request.n / 32) :
    Effect (rvvSize request mr) (contents request operands mr (outputs ops request operands previous i))
      (fun k x => PackedOperands request mr k x ∨
        True ∧ MatrixTile .output request.n mr 32 tile_m tile_n k x)
      (gemm ops overflow mr quants (pointer 0) request.k (tile_m * mr * request.n + tile_n * 32) request.n
        (tile_n * (request.k / 32)) (tile_m * (request.k / 32)) mr 32)
      (contents request operands mr (outputs ops request operands previous (i + 1)))
      (MatrixTile .output request.n mr 32 tile_m tile_n)
      (MatrixTile .output request.n mr 32 tile_m tile_n) := by
  have once : (mr - mr % mr) / mr = 1 := by
    rw [Nat.mod_self, Nat.sub_zero, Nat.div_self pos]
  intro m sizes before
  unfold gemm
  rw [once, forUp_one, show 32 / 32 = 1 from rfl, forUp_one]
  simp only [Nat.zero_mul, Nat.zero_add, Nat.add_zero]
  have held : ∀ block < request.k / 32, HoldsBlock mr (tile_m * (request.k / 32) + block)
      (tile_n * (request.k / 32) + block) (tileRows operands mr tile_m block)
      (tileColumns request operands tile_n block) m := fun block hb =>
    holdsBlock_of_holds sizes (before.mono fun _ _ cell => .inl (.inl cell))
      (before.mono fun _ _ cell => .inl (.inr cell)) htm ht hb
  refine (sumBlocks_ends feeds held fun block hb row hr =>
    bounded _ (tile_column_lt wholeM htm hr) block hb).bind fun sum_row ⟨size, sums⟩ => ?_
  refine (Effect.tile (fun lane hl => tile_column_lt wholeN ht hl) (fun row hr =>
    storeRow_effect size sums wholeM wholeN htm ht hr ?_) ?_) m sizes
    (before.mono ?_)
  · ring
  · intro row hr k x cell _
    exact cell
  · rintro k x ⟨row, hr, rfl, lane, hl, rfl⟩
    exact .inr ⟨trivial, rfl, row, hr, lane, hl, rfl⟩

end Tile

section Run

variable [Inhabited H] {ops : FloatOps F H} {overflow : Overflow} {request : Bench.BenchmarkRequest}
variable {operands : Operands H H} {mr : ℕ} {previous : ℕ → Counted F}
variable {quants : ℕ → RvvMemory F H → ℕ → P → Option (StepQuants × P)} {pointer : ℕ → P}

omit [Inhabited H] in
theorem packedOperands_apart {k : RvvBuffer} {x : ℕ} (cell : PackedOperands request mr k x) :
    k ≠ .output := by
  rintro rfl
  rcases cell with ⟨no | no, _⟩ | ⟨no | no, _⟩
  all_goals cases no

/-- Iteration after iteration every tile is written once. -/
theorem run_effect (feeds : Feeds mr quants pointer) (pos : 0 < mr)
    (bounded : ∀ row < request.m, ∀ block < request.k / 32, Bounded (operands.activation row block))
    (wholeM : request.m / mr * mr = request.m) (wholeN : request.n / 32 * 32 = request.n)
    (iterations : ℕ) :
    Effect (rvvSize request mr) (contents request operands mr (outputs ops request operands previous 0))
      (fun k x => PackedOperands request mr k x ∨ k = .output ∧ x < request.m * request.n)
      (runTiles mr (gemm ops overflow mr quants (pointer 0)) request iterations)
      (contents request operands mr (outputs ops request operands previous iterations))
      (fun k x => k = .output ∧ x < request.m * request.n) fun k _ => k = .output := by
  have visits : ∀ i < iterations,
      ((List.range (request.m / mr)).product (List.range (request.n / 32))).Nodup ∧
      ∀ tile : ℕ × ℕ, tile ∈ (List.range (request.m / mr)).product (List.range (request.n / 32)) ↔
        tile.1 < request.m / mr ∧ tile.2 < request.n / 32 := by
    refine fun _ _ => ⟨List.nodup_range.product List.nodup_range, fun tile => ?_⟩
    exact List.mem_product.trans (and_congr List.mem_range List.mem_range)
  have same : ∀ i k x, PackedOperands request mr k x →
      contents request operands mr (outputs ops request operands previous (i + 1)) k x =
        contents request operands mr (outputs ops request operands previous i) k x := by
    intro i k x cell
    cases k with
    | scales operand => cases operand <;> rfl
    | quants operand => cases operand <;> rfl
    | output => exact absurd rfl (packedOperands_apart cell)
  have each : ∀ i < iterations, ∀ tile : ℕ × ℕ, tile.1 < request.m / mr ∧ tile.2 < request.n / 32 →
      Effect (rvvSize request mr) (contents request operands mr (outputs ops request operands previous i))
        (fun k x => PackedOperands request mr k x ∨
          True ∧ MatrixTile .output request.n mr 32 tile.1 tile.2 k x)
        (gemm ops overflow mr quants (pointer 0) request.k (tile.1 * mr * request.n + tile.2 * 32)
          request.n (tile.2 * (request.k / 32)) (tile.1 * (request.k / 32)) mr 32)
        (contents request operands mr (outputs ops request operands previous (i + 1)))
        (MatrixTile .output request.n mr 32 tile.1 tile.2)
        fun k x => False ∨ MatrixTile .output request.n mr 32 tile.1 tile.2 k x :=
    fun i _ tile member => (gemm_effect feeds pos bounded wholeM wholeN member.1 member.2).weaken
      (fun _ _ cell => ⟨cell, rfl⟩) (fun _ _ cell => .inl ⟨cell, rfl⟩) fun _ _ => .inr
  have passes := Effect.panelsFrom (fun _ => True) visits same each
    (fun k x cell => ⟨id, fun tile _ own => packedOperands_apart cell own.1⟩)
    fun tile member k x cell => ⟨id, fun tile' member' other =>
      matrixTile_apart wholeN member.2 member'.2 other cell⟩
  unfold runTiles
  rw [chunkCount_whole pos wholeM, chunkCount_whole (by decide) wholeN]
  have nest := forUp_product (fun tile => gemm ops overflow mr quants (pointer 0) request.k
    (tile.1 * mr * request.n + tile.2 * 32) request.n (tile.2 * (request.k / 32))
    (tile.1 * (request.k / 32)) mr 32) (request.m / mr) (request.n / 32)
  rw [← nest] at passes
  refine passes.weaken ?_ ?_ ?_
  · rintro k x (cell | ⟨_, cell⟩)
    · exact ⟨.inl cell, rfl⟩
    · exact ⟨.inr ((matrixTile_covers wholeM wholeN pos (by decide)).mpr cell), rfl⟩
  · intro k x cell
    exact .inl ⟨.inr ⟨trivial, (matrixTile_covers wholeM wholeN pos (by decide)).mp cell⟩, rfl⟩
  · rintro k x (no | ⟨_, _, cell⟩)
    · exact no.elim
    · exact cell.1

/-- Packing and any number of iterations, from any previous output. -/
theorem prepared_run (feeds : Feeds mr quants pointer) (pos : 0 < mr)
    {packA : RvvMemory F H → Option (RvvMemory F H)}
    (packs : Writes (rvvSize request mr) packA (contents request operands mr previous)
      (Packed request mr .activation))
    (bounded : ∀ row < request.m, ∀ block < request.k / 32, Bounded (operands.activation row block))
    (wholeM : request.m / mr * mr = request.m) (wholeN : request.n / 32 * 32 = request.n)
    (iterations : ℕ) (memory : RvvMemory F H) (sizes : memory.size = rvvSize request mr) :
    Ends (((packA memory).bind (packWeights request operands)).bind fun memory =>
        runTiles mr (gemm ops overflow mr quants (pointer 0)) request iterations
          (memory.renew .output previous)) fun memory =>
      ∀ x < request.m * request.n,
        memory.cell .output x = outputs ops request operands previous iterations x := by
  have prepared : Effect (rvvSize request mr) (contents request operands mr previous) (fun _ _ => False)
      (fun memory => (packA memory).bind (packWeights request operands)) _ (PackedOperands request mr) _ :=
    Writes.seq packs (packWeights_writes wholeN)
  have fresh : Effect (rvvSize request mr) (contents request operands mr previous)
      (PackedOperands request mr) (fun memory => some (memory.renew .output previous)) _ _ _ :=
    Effect.renewed (fun _ => rfl) fun _ cell => packedOperands_apart cell rfl
  have run : Effect (rvvSize request mr)
      (contents request operands mr (outputs ops request operands previous 0)) _
      (runTiles mr (gemm ops overflow mr quants (pointer 0)) request iterations) _ _ _ :=
    run_effect feeds pos bounded wholeM wholeN iterations
  have later := fresh.seq (run.weaken (fun _ _ cell => ⟨cell.imp id And.left, rfl⟩)
    (fun _ _ cell => .inl ⟨cell, rfl⟩) fun _ _ cell => cell)
  refine (prepared.seq later memory sizes fun _ _ no => no.elim).mono fun memory ⟨_, left⟩ => ?_
  intro x hx
  exact left .output x ⟨rfl, hx⟩

end Run

section Exact

variable {α : Type} [Field α] [LinearOrder α] [Inhabited α]

omit [Inhabited α] in
theorem elementSum_exact (request : Bench.BenchmarkRequest) (operands : Operands α α) (row column n : ℕ) :
    elementSum (FloatOps.exact α) request operands row column n =
      dotQ40Q80 (operands.column request column) (operands.activation row) n :=
  (accumulated_exact _ _ 0 n).trans ((zero_add _).trans (dotQ40Q80_eq_product _ _ n).symm)

/-- The kernel with twelve rows leaves the reference dot products, from any previous output and after any
number of iterations. Its accumulators are never asked for more than 16 bits: wrapping and failing on
overflow end alike. -/
theorem gemm12x32_product (overflow : Overflow) (request : Bench.BenchmarkRequest)
    (operands : Operands α α) (supported : (validateShape 12 32 32 request).supported = true)
    (bounded : ∀ row < request.m, ∀ block < request.k / 32, ∀ k < 32,
      |((operands.activation row block).qs k).toInt| ≤ 127)
    {iterations : ℕ} (some_iteration : 1 ≤ iterations) (previous : ℕ → Counted α)
    (memory : RvvMemory α α) (sizes : memory.size = rvvSize request 12) :
    Ends ((prepare12 request operands memory).bind fun memory =>
        run12 (FloatOps.exact α) overflow request iterations (memory.renew .output previous)) fun memory =>
      ∀ m < request.m, ∀ n < request.n, (memory.cell .output (m * request.n + n)).value =
        some (dotQ40Q80 (fun b => operands.weight (n * (request.k / 32) + b)) (operands.activation m)
          (request.k / 32)) := by
  obtain ⟨_, wholeM, wholeN, _⟩ := validateShape_supported supported
  refine (prepared_run quants12_feeds (by decide) (packA12_writes wholeM) bounded wholeM wholeN iterations
    memory sizes).mono fun memory left => ?_
  intro m hm n hn
  rw [left _ (Layout.index_lt hm hn), outputs_value some_iteration hn, elementSum_exact]
  rfl

def sampleShape (mr : ℕ) : Bench.BenchmarkRequest := ⟨mr, 32, 64, 0, 1, 1, 1, 0, 0, true, []⟩

def sampleOperands : Operands ℚ ℚ := ⟨fun _ _ => ⟨2, fun _ => 127⟩, fun _ => ⟨1, fun _ => 0⟩⟩

theorem sample_gemm12x32_product : Ends ((prepare12 (sampleShape 12) sampleOperands
        (rvvUnwritten (rvvSize (sampleShape 12) 12))).bind fun memory =>
      run12 (FloatOps.exact ℚ) .fails (sampleShape 12) 2 (memory.renew .output fun _ => ⟨some 7, 3⟩))
    fun memory => (memory.cell .output 0).value = some (-130048) := by
  refine (gemm12x32_product .fails (sampleShape 12) sampleOperands (by decide)
    (fun _ _ _ _ _ _ => show |(127#8).toInt| ≤ 127 by decide) (by decide : 1 ≤ 2) (fun _ => ⟨some 7, 3⟩)
    (rvvUnwritten (rvvSize (sampleShape 12) 12)) rfl).mono fun memory h => ?_
  refine (h 0 (by decide) 0 (by decide)).trans ?_
  decide +kernel

/-- So does the kernel with eight rows, and every iteration writes every element of the output once. -/
theorem gemm8x32_product (overflow : Overflow) (request : Bench.BenchmarkRequest)
    (operands : Operands α α) (supported : (validateShape 8 32 32 request).supported = true)
    (bounded : ∀ row < request.m, ∀ block < request.k / 32, ∀ k < 32,
      |((operands.activation row block).qs k).toInt| ≤ 127)
    {iterations : ℕ} (some_iteration : 1 ≤ iterations) (previous : ℕ → Counted α)
    (memory : RvvMemory α α) (sizes : memory.size = rvvSize request 8) :
    Ends ((prepare8 request operands memory).bind fun memory =>
        run8 (FloatOps.exact α) overflow request iterations (memory.renew .output previous)) fun memory =>
      ∀ m < request.m, ∀ n < request.n,
        (memory.cell .output (m * request.n + n)).value =
          some (dotQ40Q80 (fun b => operands.weight (n * (request.k / 32) + b)) (operands.activation m)
            (request.k / 32)) ∧
        (memory.cell .output (m * request.n + n)).writes =
          (previous (m * request.n + n)).writes + iterations := by
  obtain ⟨_, wholeM, wholeN, _⟩ := validateShape_supported supported
  refine (prepared_run quants8_feeds (by decide) (packA8_writes wholeM) bounded wholeM wholeN iterations
    memory sizes).mono fun memory left => ?_
  intro m hm n hn
  rw [left _ (Layout.index_lt hm hn), outputs_value some_iteration hn, outputs_writes, elementSum_exact]
  exact ⟨rfl, rfl⟩

theorem sample_gemm8x32_product : Ends ((prepare8 (sampleShape 8) sampleOperands
        (rvvUnwritten (rvvSize (sampleShape 8) 8))).bind fun memory =>
      run8 (FloatOps.exact ℚ) .fails (sampleShape 8) 2 (memory.renew .output fun _ => ⟨some 7, 3⟩))
    fun memory => (memory.cell .output 0).value = some (-130048) ∧ (memory.cell .output 0).writes = 5 := by
  refine (gemm8x32_product .fails (sampleShape 8) sampleOperands (by decide)
    (fun _ _ _ _ _ _ => show |(127#8).toInt| ≤ 127 by decide) (by decide : 1 ≤ 2) (fun _ => ⟨some 7, 3⟩)
    (rvvUnwritten (rvvSize (sampleShape 8) 8)) rfl).mono fun memory h => ?_
  obtain ⟨value, writes⟩ := h 0 (by decide) 0 (by decide)
  refine ⟨value.trans ?_, writes⟩
  decide +kernel

end Exact

end Pfng.Q40.Rvv32
