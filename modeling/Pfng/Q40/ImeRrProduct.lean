import Mathlib.Data.Rat.Floor
import Pfng.Q40.ImeRrPacking

/-! The weight-stationary kernel adds one K block to every tile of a chunk; a run leaves the
product. The kernel's loop is carried by where the activation scales lie after each slide. -/
namespace Pfng.Q40.ImeRr
open Checked Ime Finset

variable {α : Type} [Field α] [LinearOrder α] [FloorRing α]
variable (request : Bench.BenchmarkRequest) (half : α → α) (input : Input α)

section Registers

variable (chunk : ℕ → α) {tile block : ℕ}

theorem contents_aRegister {window lane : ℕ} (ht : tile < request.m / 8) (hb : block < request.k / 32)
    (hw : window < 2) (hl : lane < 128) :
    operands request .aQs ((block * (request.m / 8) + tile) * 256 + window * 128 + lane) ∧
      contents request half input chunk .aQs
        ((block * (request.m / 8) + tile) * 256 + window * 128 + lane) =
        (rowBlock request half input (tile * 8 + lane / 16) block).qs (window * 16 + lane % 16) := by
  have place : (block * (request.m / 8) + tile) * 256 + window * 128 + lane =
      aQuantPlace (request.m / 8) tile block (lane / 16) + window * 128 + lane % 16 := by
    rw [aQuantPlace]
    omega
  rw [place]
  constructor
  · exact .inl ⟨tile, ht, block, hb, lane / 16, by omega, .inl ⟨rfl, window, hw, _, by omega, rfl⟩⟩
  · exact contents_aQs request half input chunk ht (by omega) hw (by omega)

theorem contents_aScale {row : ℕ} (ht : tile < request.m / 8) (hb : block < request.k / 32)
    (hr : row < 8) :
    operands request .aScales
        ((block * scaleGroups (request.m / 8) + tile / 8) * 64 + (row * 8 + tile % 8)) ∧
      contents request half input chunk .aScales
        ((block * scaleGroups (request.m / 8) + tile / 8) * 64 + (row * 8 + tile % 8)) =
        (rowBlock request half input (tile * 8 + row) block).d :=
  ⟨.inl ⟨tile, ht, block, hb, row, hr, .inr ⟨rfl, rfl⟩⟩,
    contents_aScales request half input chunk ht hr⟩

theorem contents_bRegister {g lane : ℕ} (ht : tile < request.n / 32) (hb : block < request.k / 32)
    (hg : g < 4) (hl : lane < 128) :
    operands request .bQs ((tile * (request.k / 32) + block) * 512 + g * 128 + lane) ∧
      contents request half input chunk .bQs
        ((tile * (request.k / 32) + block) * 512 + g * 128 + lane) =
        (columnBlock request input (tile * 32 + (g * 8 + lane / 16)) block).qs (lane % 16) := by
  have place : (tile * (request.k / 32) + block) * 512 + g * 128 + lane =
      (tile * (request.k / 32) + block) * 512 +
        ((g * 8 + lane / 16) / 8 * 128 + (g * 8 + lane / 16) % 8 * 16) + lane % 16 := by
    omega
  rw [place]
  constructor
  · exact .inr ⟨tile, ht, block, hb, _, by omega, .inl ⟨rfl, _, by omega, rfl⟩⟩
  · exact contents_bQs request half input chunk hb (by omega) (by omega)

theorem contents_bScale {g column : ℕ} (ht : tile < request.n / 32) (hb : block < request.k / 32)
    (hg : g < 4) (hc : column < 8) :
    operands request .bScales ((tile * (request.k / 32) + block) * 256 + g * 64 + column * 8) ∧
      contents request half input chunk .bScales
        ((tile * (request.k / 32) + block) * 256 + g * 64 + column * 8) =
        (columnBlock request input (tile * 32 + (g * 8 + column)) block).d := by
  have place : (tile * (request.k / 32) + block) * 256 + g * 64 + column * 8 =
      bScalePlace (tile * (request.k / 32) + block) (g * 8 + column) := by
    rw [bScalePlace]
    omega
  rw [place]
  constructor
  · exact .inr ⟨tile, ht, block, hb, _, by omega, .inr ⟨rfl, rfl⟩⟩
  · exact contents_bScales request half input chunk hb (by omega)

/-- The registers hold block `block` of the 32 columns of a tile. -/
structure Loaded (tile block : ℕ) (w : WeightRegisters α) : Prop where
  weights : ∀ g : Fin 4, ∃ packed, w.wlo g = lowWeights packed ∧ w.whi g = highWeights packed ∧
    ∀ lane < 128, packed lane =
      (columnBlock request input (tile * 32 + (g * 8 + lane / 16)) block).qs (lane % 16)
  scales : ∀ g : Fin 4, ∀ lane < 64, w.ws g lane =
    if lane % 8 = 0 then (columnBlock request input (tile * 32 + (g * 8 + lane / 8)) block).d else 0

omit [LinearOrder α] [FloorRing α] in
theorem scaleMask {lane : ℕ} : (lane &&& 7 == 0) = true ↔ lane % 8 = 0 := by
  rw [beq_iff_eq, show (7 : ℕ) = 2 ^ 3 - 1 from rfl, Nat.and_two_pow_sub_one_eq_mod]

theorem loadWeights_ends (ht : tile < request.n / 32) (hb : block < request.k / 32)
    {memory : Ime2Memory α α} (sizes : memory.size = bufferSize request)
    (holds : Holds (contents request half input chunk) (operands request) memory) :
    Ends (loadWeights ((tile * (request.k / 32) + block) * 512)
      ((tile * (request.k / 32) + block) * 256) memory) (Loaded request input tile block) := by
  have slot : tile * (request.k / 32) + block < request.n / 32 * (request.k / 32) :=
    Layout.index_lt ht hb
  have weights := gather_ends (n := 4)
    (f := fun g => memory.loadLanes .bQs ((tile * (request.k / 32) + block) * 512 + g * 128) 128)
    (P := fun g packed => ∀ lane < 128, packed lane =
      (columnBlock request input (tile * 32 + (g * 8 + lane / 16)) block).qs (lane % 16)) (by
    intro g
    have bound : (tile * (request.k / 32) + block) * 512 + g * 128 + 128 ≤
        bufferSize request .bQs := by
      rw [bufferSize]
      omega
    obtain ⟨r, load, lanes⟩ := loadLanes_eq holds sizes bound
      fun lane hl => (contents_bRegister request half input chunk ht hb g.isLt hl).1
    refine ⟨r, load, fun lane hl => ?_⟩
    rw [lanes lane hl, (contents_bRegister request half input chunk ht hb g.isLt hl).2])
  have scales := gather_ends (n := 4)
    (f := fun g => memory.loadMasked .bScales (fun lane => lane &&& 7 == 0) (fun _ => 0)
      ((tile * (request.k / 32) + block) * 256 + g * 64) 64)
    (P := fun g ws => ∀ lane < 64, ws lane = if lane % 8 = 0 then
      (columnBlock request input (tile * 32 + (g * 8 + lane / 8)) block).d else 0) (by
    intro g
    have selected : ∀ lane, lane < 64 → (lane &&& 7 == 0) = true →
        (tile * (request.k / 32) + block) * 256 + g * 64 + lane =
          (tile * (request.k / 32) + block) * 256 + g * 64 + lane / 8 * 8 := by
      intro lane _ on
      have := scaleMask.mp on
      omega
    have bound : ∀ lane < 64, (lane &&& 7 == 0) = true →
        (tile * (request.k / 32) + block) * 256 + g * 64 + lane < bufferSize request .bScales := by
      intro lane hl _
      rw [bufferSize]
      omega
    obtain ⟨r, load, lanes⟩ := loadMasked_eq (fun _ => (0 : α)) holds sizes bound (by
      intro lane hl on
      rw [selected lane hl on]
      exact (contents_bScale request half input chunk ht hb g.isLt (by omega)).1)
    refine ⟨r, load, fun lane hl => ?_⟩
    rw [lanes lane hl]
    by_cases on : lane % 8 = 0
    · rw [if_pos (scaleMask.mpr on), if_pos on, selected lane hl (scaleMask.mpr on),
        (contents_bScale request half input chunk ht hb g.isLt (by omega)).2]
    · rw [if_neg (fun no => on (scaleMask.mp no)), if_neg on])
  refine weights.bind fun packed hp => scales.map fun ws hs => ?_
  exact ⟨fun g => ⟨packed g, rfl, rfl, hp g⟩, hs⟩

omit [LinearOrder α] [FloorRing α] in
/-- The int32 lanes of one accumulator: exact sums of the blocks of a row and a column. -/
theorem quant_eq {w : WeightRegisters α} (loaded : Loaded request input tile block w)
    {a : ℕ → BlockQ80 α} {aq0 aq1 : ℕ → BitVec 8}
    (first : ∀ lane < 128, aq0 lane = (a (lane / 16)).qs (lane % 16))
    (second : ∀ lane < 128, aq1 lane = (a (lane / 16)).qs (16 + lane % 16)) (g : Fin 4) {lane : ℕ}
    (hl : lane < 64) :
    vmadot .ime2 (vmadot .ime2 (fun _ => 0) aq0 (w.wlo g)) aq1 (w.whi g) lane =
      integerSum (columnBlock request input (tile * 32 + (g * 8 + lane % 8)) block) (a (lane / 8)) := by
  obtain ⟨packed, hlo, hhi, lanes⟩ := loaded.weights g
  have place : ∀ k < 16, (lane / 8 * 16 + k) / 16 = lane / 8 ∧ (lane / 8 * 16 + k) % 16 = k := by
    intro k hk
    omega
  have weights : ∀ k < 16, packed (lane % 8 * 16 + k) =
      (columnBlock request input (tile * 32 + (g * 8 + lane % 8)) block).qs k := by
    intro k hk
    rw [lanes _ (by omega), show (lane % 8 * 16 + k) / 16 = lane % 8 by omega,
      show (lane % 8 * 16 + k) % 16 = k by omega]
  rw [hlo, hhi]
  refine accumulator_block .ime2 (fun _ => aq0) (fun _ => aq1) (fun _ => packed) (n := 1)
    (by decide) _ _ ?_ ?_ ?_ ?_
  · intro i hi k hk
    change aq0 (lane / 8 * 16 + k) = (a (lane / 8)).qs (i * 32 + k)
    rw [first _ (by change k < 16 at hk; omega), (place k hk).1, (place k hk).2]
    congr 1
    omega
  · intro i hi k hk
    change aq1 (lane / 8 * 16 + k) = (a (lane / 8)).qs (i * 32 + (16 + k))
    rw [second _ (by change k < 16 at hk; omega), (place k hk).1, (place k hk).2]
    congr 1
    omega
  · intro i hi k hk
    change packed (lane % 8 * 16 + k) &&& 15 = nibble _ (i * 32 + k)
    change k < 16 at hk
    rw [weights k hk, show i * 32 + k = k by omega, nibble, if_pos hk]
  · intro i hi k hk
    change packed (lane % 8 * 16 + k) >>> 4 = nibble _ (i * 32 + (16 + k))
    change k < 16 at hk
    rw [weights k hk, show i * 32 + (16 + k) = 16 + k by omega, nibble, if_neg (by omega),
      Nat.add_sub_cancel_left]

omit [LinearOrder α] [FloorRing α] in
theorem scale_eq {w : WeightRegisters α} (loaded : Loaded request input tile block w) {as : ℕ → α}
    (g : Fin 4) (lane : ℕ) :
    vfwmadot (fun _ => 0) as (w.ws g) lane =
      as (lane / 8 * 8) * (columnBlock request input (tile * 32 + (g * 8 + lane % 8)) block).d := by
  rw [vfwmadot_outer]
  · rw [loaded.scales g _ (by omega), if_pos (by omega)]
    congr 3
    omega
  · intro k hk other
    rw [loaded.scales g _ (by omega), if_neg (by omega)]

end Registers

section Kernel

theorem operand_ne_scratch {place : Place} {x : ℕ} : ¬ operands request (.scratch place) x := by
  rintro (⟨_, _, _, _, _, _, ⟨no, _⟩ | ⟨no, _⟩⟩ | ⟨_, _, _, _, _, _, ⟨no, _⟩ | ⟨no, _⟩⟩)
  all_goals cases no

theorem operand_ne_output {x : ℕ} : ¬ operands request .output x := by
  rintro (⟨_, _, _, _, _, _, ⟨no, _⟩ | ⟨no, _⟩⟩ | ⟨_, _, _, _, _, _, ⟨no, _⟩ | ⟨no, _⟩⟩)
  all_goals cases no

variable (place : Place) {tile_n block chunk_begin tile : ℕ}

/-- What one K block adds to cell `x` of the C chunk. -/
def addend (tile_n chunk_begin block x : ℕ) : α :=
  contribution request half input ((chunk_begin + x / 256) * 8 + x % 64 / 8)
    (tile_n * 32 + (x % 256 / 64 * 8 + x % 8)) block

/-- The cells of tiles `lo` to `hi` of the chunk. -/
def Tiles (lo hi : ℕ) : Region Buffer := fun k x =>
  k = .scratch place ∧ lo * 256 ≤ x ∧ x < hi * 256

omit [Field α] in
theorem tiles_split {lo mid hi : ℕ} (le : lo ≤ mid) (le' : mid ≤ hi) (k : Buffer) (x : ℕ) :
    Tiles place lo hi k x ↔ Tiles place lo mid k x ∨ Tiles place mid hi k x := by
  constructor
  · rintro ⟨rfl, low, high⟩
    rcases Nat.lt_or_ge x (mid * 256) with h | h
    · exact .inl ⟨rfl, low, h⟩
    · exact .inr ⟨rfl, h, high⟩
  · rintro (⟨rfl, low, high⟩ | ⟨rfl, low, high⟩)
    · exact ⟨rfl, low, high.trans_le (Nat.mul_le_mul_right 256 le')⟩
    · exact ⟨rfl, (Nat.mul_le_mul_right 256 le).trans low, high⟩

theorem reduceGroup_fills {tile_c : ℕ} {q : Fin 4 → ℕ → ℤ} {s : Fin 4 → ℕ → α} {f : ℕ → α}
    (add : ℕ → α) (g : Fin 4) (bound : tile_c + 256 ≤ 128 * 256)
    (adds : ∀ lane < 64, q g lane * s g lane = add (tile_c + g * 64 + lane)) :
    Fills (bufferSize request) (contents request half input f)
      (fun k x => k = .scratch place ∧ ∃ lane < 64, x = tile_c + g * 64 + lane)
      (reduceGroup place tile_c q s g) (contents request half input fun x => f x + add x)
      (fun k x => k = .scratch place ∧ ∃ lane < 64, x = tile_c + g * 64 + lane) := by
  have group := g.isLt
  refine Effect.loadLanes ?_ fun c known => Fills.storeLanes ?_ ?_
  · change _ ≤ 128 * 256
    omega
  · intro lane hl
    change _ < 128 * 256
    omega
  · intro lane hl
    rw [known lane hl ⟨rfl, lane, hl, rfl⟩, adds lane hl]
    rfl

theorem applyTile_fills {w : WeightRegisters α} {as : ℕ → α} (f : ℕ → α)
    (loaded : Loaded request input tile_n block w) (hb : block < request.k / 32)
    (inChunk : tile < 128) (inA : chunk_begin + tile < request.m / 8)
    (scales : ∀ row < 8, as (row * 8) =
      (rowBlock request half input ((chunk_begin + tile) * 8 + row) block).d) :
    Fills (bufferSize request) (contents request half input f)
      (fun k x => operands request k x ∨ Tiles place tile (tile + 1) k x)
      (applyTile place ((block * (request.m / 8) + chunk_begin) * 256) w tile as)
      (contents request half input
        fun x => f x + addend request half input tile_n chunk_begin block x)
      (Tiles place tile (tile + 1)) := by
  have slot := Layout.index_lt hb inA
  have register : ∀ window < 2, ∀ lane < 128,
      (block * (request.m / 8) + chunk_begin) * 256 + tile * 256 + window * 128 + lane =
        (block * (request.m / 8) + (chunk_begin + tile)) * 256 + window * 128 + lane := by
    intro window _ lane _
    omega
  have first := register 0 (by decide)
  have second := register 1 (by decide)
  simp only [Nat.zero_mul, Nat.add_zero, Nat.one_mul] at first second
  refine Effect.loadLanes ?_ fun aq0 known0 => Effect.loadLanes ?_ fun aq1 known1 => ?_
  · rw [bufferSize, Nat.mul_comm (request.m / 8)]
    omega
  · rw [bufferSize, Nat.mul_comm (request.m / 8)]
    omega
  · have row0 : ∀ lane < 128, aq0 lane =
        (rowBlock request half input ((chunk_begin + tile) * 8 + lane / 16) block).qs (lane % 16) := by
      intro lane hl
      have cell := contents_aRegister request half input f inA hb (show 0 < 2 by decide) hl
      simp only [Nat.zero_mul, Nat.add_zero, Nat.zero_add] at cell
      rw [← first lane hl] at cell
      rw [known0 lane hl (.inl cell.1), cell.2]
    have row1 : ∀ lane < 128, aq1 lane =
        (rowBlock request half input ((chunk_begin + tile) * 8 + lane / 16) block).qs
          (16 + lane % 16) := by
      intro lane hl
      have cell := contents_aRegister request half input f inA hb (show 1 < 2 by decide) hl
      simp only [Nat.one_mul] at cell
      rw [← second lane hl] at cell
      rw [known1 lane hl (.inl cell.1), cell.2]
    refine (Fills.forEach (fun g _ => reduceGroup_fills request half input place
      (addend request half input tile_n chunk_begin block) g (by omega) ?_) ?_).weaken ?_ ?_
    · intro lane hl
      have group := g.isLt
      rw [quant_eq request input loaded (a := fun row =>
          rowBlock request half input ((chunk_begin + tile) * 8 + row) block) row0 row1 g hl,
        scale_eq request input loaded g lane, scales _ (by omega), addend, contribution]
      rw [show (tile * 256 + g * 64 + lane) / 256 = tile by omega,
        show (tile * 256 + g * 64 + lane) % 64 / 8 = lane / 8 by omega,
        show (tile * 256 + g * 64 + lane) % 256 / 64 = g by omega,
        show (tile * 256 + g * 64 + lane) % 8 = lane % 8 by omega]
    · refine (List.nodup_finRange 4).imp_of_mem fun {i j} _ _ other k x => ?_
      rintro ⟨_, lane, hl, same⟩ ⟨_, lane', hl', same'⟩
      have : (i : ℕ) ≠ j := fun eq => other (Fin.ext eq)
      omega
    · rintro k x ⟨g, _, rfl, lane, hl, rfl⟩
      have group := g.isLt
      exact .inr ⟨rfl, by omega, by omega⟩
    · intro k x
      constructor
      · rintro ⟨rfl, low, high⟩
        exact ⟨⟨x % 256 / 64, by omega⟩, List.mem_finRange _, rfl, x % 64, by omega,
          by change x = tile * 256 + x % 256 / 64 * 64 + x % 64; omega⟩
      · rintro ⟨g, _, rfl, lane, hl, rfl⟩
        have group := g.isLt
        exact ⟨rfl, by omega, by omega⟩

theorem tiles_seq {lo mid hi : ℕ} {c d : Ime2Memory α α → Option (Ime2Memory α α)} {f f' : ℕ → α}
    (le : lo ≤ mid) (le' : mid ≤ hi)
    (head : Fills (bufferSize request) (contents request half input f)
      (fun k x => operands request k x ∨ Tiles place lo mid k x) c (contents request half input f')
      (Tiles place lo mid))
    (tail : Fills (bufferSize request) (contents request half input f)
      (fun k x => operands request k x ∨ Tiles place mid hi k x) d (contents request half input f')
      (Tiles place mid hi)) :
    Fills (bufferSize request) (contents request half input f)
      (fun k x => operands request k x ∨ Tiles place lo hi k x) (fun memory => (c memory).bind d)
      (contents request half input f') (Tiles place lo hi) := by
  have split := tiles_split place le le'
  refine (Fills.seq head tail ?_).weaken ?_ split
  · rintro k x (operand | ⟨_, low, _⟩) ⟨rfl, _, high⟩
    · exact (operand_ne_scratch request operand).elim
    · omega
  · intro k x
    rw [split]
    rintro ((operand | cell) | (operand | cell))
    · exact .inl operand
    · exact .inr (.inl cell)
    · exact .inl operand
    · exact .inr (.inr cell)

theorem tiles_none {lo : ℕ} {f f' : ℕ → α} :
    Fills (bufferSize request) (contents request half input f)
      (fun k x => operands request k x ∨ Tiles place lo lo k x) some (contents request half input f')
      (Tiles place lo lo) := by
  refine Fills.skip.weaken (A := fun _ _ => False) (fun _ _ no => no.elim) fun k x => ?_
  constructor
  · rintro ⟨_, low, high⟩
    omega
  · exact False.elim

/-- The slide invariant: lane `t` of each row of `as` is the scale for the `t`-th tile to come. -/
theorem applyGroup_fills {w : WeightRegisters α} (loaded : Loaded request input tile_n block w)
    (hb : block < request.k / 32) {n : ℕ} {as : ℕ → α} (f : ℕ → α) (small : n ≤ 8)
    (inChunk : tile + n ≤ 128) (inA : chunk_begin + tile + n ≤ request.m / 8)
    (slid : ∀ row < 8, ∀ t < n, as (row * 8 + t) =
      (rowBlock request half input ((chunk_begin + (tile + t)) * 8 + row) block).d) :
    Fills (bufferSize request) (contents request half input f)
      (fun k x => operands request k x ∨ Tiles place tile (tile + n) k x)
      (applyGroup place ((block * (request.m / 8) + chunk_begin) * 256) w n tile as)
      (contents request half input
        fun x => f x + addend request half input tile_n chunk_begin block x)
      (Tiles place tile (tile + n)) := by
  induction n generalizing tile as with
  | zero =>
      exact tiles_none request half input place
  | succ n ih =>
      have inA' : chunk_begin + tile < request.m / 8 := by omega
      have first : ∀ row < 8, as (row * 8) =
          (rowBlock request half input ((chunk_begin + tile) * 8 + row) block).d := by
        intro row hr
        have := slid row hr 0 (by omega)
        rwa [Nat.add_zero, Nat.add_zero] at this
      have later : ∀ row < 8, ∀ t < n, vslidedown 64 as 1 (row * 8 + t) =
          (rowBlock request half input ((chunk_begin + (tile + 1 + t)) * 8 + row) block).d := by
        intro row hr t ht
        rw [vslidedown, if_pos (by omega), Nat.add_assoc, slid row hr (t + 1) (by omega),
          Nat.add_right_comm tile, Nat.add_assoc tile]
      have head := applyTile_fills request half input place f loaded hb (by omega) inA' first
      have tail := ih (by omega) (by omega) (by omega) later
      rw [Nat.add_assoc, Nat.add_comm 1 n] at tail
      exact tiles_seq request half input place (by omega) (by omega) head tail

/-- The tile loop, a group of eight at a time; `tile_m` is a multiple of eight until the last group. -/
theorem applyTiles_fills {w : WeightRegisters α} (loaded : Loaded request input tile_n block w)
    (hb : block < request.k / 32) {count tile_m scale_group : ℕ} (f : ℕ → α) (inChunk : count ≤ 128)
    (inA : chunk_begin + count ≤ request.m / 8) (aligned : chunk_begin % 8 = 0)
    (whole : tile_m < count → tile_m = scale_group * 8) (le : tile_m ≤ count) :
    Fills (bufferSize request) (contents request half input f)
      (fun k x => operands request k x ∨ Tiles place tile_m count k x)
      (applyTiles place ((block * (request.m / 8) + chunk_begin) * 256)
        ((block * scaleGroups (request.m / 8) + chunk_begin / 8) * 64) w count tile_m scale_group)
      (contents request half input
        fun x => f x + addend request half input tile_n chunk_begin block x)
      (Tiles place tile_m count) := by
  induction left : count - tile_m using Nat.strong_induction_on generalizing tile_m scale_group with
  | h left ih =>
  by_cases more : tile_m < count
  · obtain ⟨n, hn⟩ : ∃ n, n = if count - tile_m < 8 then count - tile_m else 8 := ⟨_, rfl⟩
    have bounds : 0 < n ∧ n ≤ 8 ∧ tile_m + n ≤ count ∧ (tile_m + n < count → n = 8) := by
      rw [hn]
      split
      · omega
      · omega
    obtain ⟨pos, small, inside, full⟩ := bounds
    have group : ∀ t < n, (chunk_begin + (tile_m + t)) / 8 = chunk_begin / 8 + scale_group ∧
        (chunk_begin + (tile_m + t)) % 8 = t := by
      intro t ht
      have := whole more
      omega
    have slot : block * scaleGroups (request.m / 8) + (chunk_begin / 8 + scale_group) <
        request.k / 32 * scaleGroups (request.m / 8) := by
      have := group 0 pos
      rw [← this.1]
      exact Layout.index_lt hb (scaleGroups_lt (by omega))
    have step : applyTiles place ((block * (request.m / 8) + chunk_begin) * 256)
        ((block * scaleGroups (request.m / 8) + chunk_begin / 8) * 64) w count tile_m scale_group =
        fun memory => (memory.loadLanes .aScales
          ((block * scaleGroups (request.m / 8) + chunk_begin / 8) * 64 + scale_group * 64) 64).bind
          fun as => (applyGroup place ((block * (request.m / 8) + chunk_begin) * 256) w n tile_m as
            memory).bind (applyTiles place ((block * (request.m / 8) + chunk_begin) * 256)
              ((block * scaleGroups (request.m / 8) + chunk_begin / 8) * 64) w count (tile_m + n)
              (scale_group + 1)) := by
      funext memory
      rw [applyTiles, if_pos more, hn]
    rw [step]
    refine Effect.loadLanes ?_ fun as known => ?_
    · rw [bufferSize]
      omega
    · have scales : ∀ row < 8, ∀ t < n, as (row * 8 + t) =
          (rowBlock request half input ((chunk_begin + (tile_m + t)) * 8 + row) block).d := by
        intro row hr t ht
        have inA' : chunk_begin + (tile_m + t) < request.m / 8 := by omega
        have cell := contents_aScale request half input f inA' hb hr
        have slot : (block * scaleGroups (request.m / 8) +
            (chunk_begin + (tile_m + t)) / 8) * 64 + (row * 8 + (chunk_begin + (tile_m + t)) % 8) =
            (block * scaleGroups (request.m / 8) + chunk_begin / 8) * 64 + scale_group * 64 +
              (row * 8 + t) := by
          rw [(group t ht).1, (group t ht).2]
          omega
        rw [slot] at cell
        rw [known _ (by omega) (.inl cell.1), cell.2]
      have next : tile_m + n < count → tile_m + n = (scale_group + 1) * 8 := by
        intro again
        have := whole more
        have := full again
        omega
      have head := applyGroup_fills request half input place loaded hb f small (by omega) (by omega)
        scales
      have tail := ih (count - (tile_m + n)) (by omega) next inside rfl
      exact tiles_seq request half input place (by omega) inside head tail
  · have stop : applyTiles place ((block * (request.m / 8) + chunk_begin) * 256)
        ((block * scaleGroups (request.m / 8) + chunk_begin / 8) * 64) w count tile_m scale_group =
        some := by
      funext memory
      rw [applyTiles, if_neg more]
    obtain rfl : tile_m = count := by omega
    rw [stop]
    exact tiles_none request half input place

theorem wStationary_fills (ht : tile_n < request.n / 32) (hb : block < request.k / 32) {count : ℕ}
    (f : ℕ → α) (inChunk : count ≤ 128) (inA : chunk_begin + count ≤ request.m / 8)
    (aligned : chunk_begin % 8 = 0) :
    Fills (bufferSize request) (contents request half input f)
      (fun k x => operands request k x ∨ Tiles place 0 count k x)
      (wStationary place ((block * (request.m / 8) + chunk_begin) * 256)
        ((block * scaleGroups (request.m / 8) + chunk_begin / 8) * 64)
        ((tile_n * (request.k / 32) + block) * 512) ((tile_n * (request.k / 32) + block) * 256) count)
      (contents request half input
        fun x => f x + addend request half input tile_n chunk_begin block x)
      (Tiles place 0 count) := by
  refine Effect.read (fun m sizes holds => loadWeights_ends request half input f ht hb sizes
    (holds.mono fun _ _ => .inl)) fun w loaded => ?_
  exact applyTiles_fills request half input place loaded hb f inChunk inA aligned (by omega) (Nat.zero_le _)

end Kernel

section Run

variable (place : Place) {tile_n : ℕ}

/-- The sums that the chunk holds after `n` K blocks. -/
def partialSum (tile_n chunk_begin n x : ℕ) : α :=
  ∑ b ∈ range n, addend request half input tile_n chunk_begin b x

/-- The output cells of the rows of tiles `lo` to `hi` and the 32 columns of a tile. -/
def Rows (tile_n lo hi : ℕ) : Region Buffer := fun k x =>
  k = .output ∧ ∃ m, lo * 8 ≤ m ∧ m < hi * 8 ∧ ∃ c < 32, x = m * request.n + (tile_n * 32 + c)

theorem contents_output {f : ℕ → α} (inN : (tile_n + 1) * 32 ≤ request.n) {chunk_begin t g row j : ℕ}
    (hg : g < 4) (hr : row < 8) (hj : j < 8) :
    contents request half input f .output
        (((chunk_begin + t) * 8 + row) * request.n + (tile_n * 32 + (g * 8 + j))) =
      partialSum request half input tile_n chunk_begin (request.k / 32)
        (t * 256 + g * 64 + row * 8 + j) := by
  have column : tile_n * 32 + (g * 8 + j) < request.n := by omega
  rw [contents, Layout.row column, Layout.column column, partialSum]
  apply sum_congr rfl
  intro b _
  have tile : (t * 256 + g * 64 + row * 8 + j) / 256 = t := by omega
  have group : (t * 256 + g * 64 + row * 8 + j) % 256 / 64 = g := by omega
  have inner : (t * 256 + g * 64 + row * 8 + j) % 64 / 8 = row := by omega
  have lane : (t * 256 + g * 64 + row * 8 + j) % 8 = j := by omega
  rw [addend, tile, group, inner, lane]

theorem unpackCChunk_fills (inN : (tile_n + 1) * 32 ≤ request.n) {chunk_begin count : ℕ}
    (inChunk : count ≤ 128) (inM : (chunk_begin + count) * 8 ≤ request.m) :
    Fills (bufferSize request)
      (contents request half input (partialSum request half input tile_n chunk_begin (request.k / 32)))
      (Tiles place 0 count)
      (unpackCChunk place (chunk_begin * 8 * request.n + tile_n * 32) request.n count)
      (contents request half input (partialSum request half input tile_n chunk_begin (request.k / 32)))
      (Rows request tile_n chunk_begin (chunk_begin + count)) := by
  have address : ∀ t g row j, chunk_begin * 8 * request.n + tile_n * 32 + t * 8 * request.n +
      (row * request.n + g * 8) + j =
      ((chunk_begin + t) * 8 + row) * request.n + (tile_n * 32 + (g * 8 + j)) := by
    intro t g row j
    ring
  have rows : ∀ t < count, ∀ g < 4, ∀ row < 8, Fills (bufferSize request)
      (contents request half input (partialSum request half input tile_n chunk_begin (request.k / 32)))
      (Tiles place 0 count)
      (fun memory => (memory.loadLanes (.scratch place) (t * 256 + g * 64 + row * 8) 8).bind
        fun matrix => memory.storeLanes .output (chunk_begin * 8 * request.n + tile_n * 32 +
          t * 8 * request.n + (row * request.n + g * 8)) 8 matrix)
      (contents request half input (partialSum request half input tile_n chunk_begin (request.k / 32)))
      fun k x => k = .output ∧ ∃ j < 8, x = chunk_begin * 8 * request.n + tile_n * 32 +
        t * 8 * request.n + (row * request.n + g * 8) + j := by
    intro t ht g hg row hr
    refine Effect.loadLanes ?_ fun matrix known => Fills.storeLanes ?_ ?_
    · change _ ≤ 128 * 256
      omega
    · intro j hj
      rw [address]
      exact Layout.index_lt (by omega) (by omega)
    · intro j hj
      have inside : t * 256 + g * 64 + row * 8 + j < count * 256 := by omega
      have cell : Tiles place 0 count (.scratch place) (t * 256 + g * 64 + row * 8 + j) :=
        ⟨rfl, by rw [Nat.zero_mul]; exact Nat.zero_le _, inside⟩
      rw [known j hj cell, address, contents_output request half input inN hg hr hj]
      rfl
  have apart : ∀ k x, Tiles place 0 count k x → k ≠ .output := by
    rintro k x ⟨rfl, _⟩ no
    cases no
  have stores : Fills _ _ _ (unpackCChunk place _ request.n count) _ _ :=
    Fills.loop (fun t ht => Fills.loop (fun g hg => Fills.loop (fun row hr => rows t ht g hg row hr)
      fun _ _ k x cell no => apart k x cell no.1)
      fun _ _ k x cell ⟨_, _, no⟩ => apart k x cell no.1)
      fun _ _ k x cell ⟨_, _, _, _, no⟩ => apart k x cell no.1
  refine stores.weaken (fun _ _ cell => cell) fun k x => ?_
  constructor
  · rintro ⟨rfl, m, low, high, c, hc, rfl⟩
    refine ⟨m / 8 - chunk_begin, by omega, c / 8, by omega, m % 8, by omega, rfl, c % 8, by omega, ?_⟩
    rw [address]
    congr 2
    · omega
    · omega
  · rintro ⟨t, ht, g, hg, row, hr, rfl, j, hj, rfl⟩
    exact ⟨rfl, (chunk_begin + t) * 8 + row, by omega, by omega, g * 8 + j, by omega,
      address t g row j⟩

theorem contents_operand {f f' : ℕ → α} {k : Buffer} {x : ℕ} (operand : operands request k x) :
    contents request half input f k x = contents request half input f' k x := by
  cases k with
  | scratch place => exact (operand_ne_scratch request operand).elim
  | aQs => rfl
  | aScales => rfl
  | bQs => rfl
  | bScales => rfl
  | acc => rfl
  | output => rfl

/-- The chunk of activation tiles from `lo` on. -/
def chunkTiles (lo : ℕ) : ℕ := min 128 (request.m / 8 - lo)

def Touched (place : Place) (tile_n lo hi : ℕ) : Region Buffer := fun k x =>
  k = .scratch place ∨ Rows request tile_n lo hi k x

omit [Field α] in
theorem operand_apart {lo hi x : ℕ} {k : Buffer} (operand : operands request k x) :
    ¬ Touched request place tile_n lo hi k x := by
  rintro (rfl | ⟨rfl, _⟩)
  · exact operand_ne_scratch request operand
  · exact operand_ne_output request operand

theorem addBlock_effect (ht : tile_n < request.n / 32) {chunk_begin block : ℕ}
    (hb : block < request.k / 32) (inA : chunk_begin < request.m / 8)
    (aligned : chunk_begin % 8 = 0) :
    Effect (bufferSize request)
      (contents request half input (partialSum request half input tile_n chunk_begin block))
      (fun k x => operands request k x ∨ Tiles place 0 (chunkTiles request chunk_begin) k x)
      (wStationary place ((block * (request.m / 8) + chunk_begin) * 256)
        ((block * scaleGroups (request.m / 8) + chunk_begin / 8) * 64)
        ((tile_n * (request.k / 32) + block) * 512) ((tile_n * (request.k / 32) + block) * 256)
        (chunkTiles request chunk_begin))
      (contents request half input (partialSum request half input tile_n chunk_begin (block + 1)))
      (fun k x => operands request k x ∨ Tiles place 0 (chunkTiles request chunk_begin) k x)
      (Tiles place 0 (chunkTiles request chunk_begin)) := by
  have next : (fun x => partialSum request half input tile_n chunk_begin block x +
      addend request half input tile_n chunk_begin block x) =
      partialSum request half input tile_n chunk_begin (block + 1) := by
    funext x
    exact (sum_range_succ _ _).symm
  have count : chunkTiles request chunk_begin ≤ 128 ∧
      chunk_begin + chunkTiles request chunk_begin ≤ request.m / 8 := by
    rw [chunkTiles]
    omega
  have adds := wStationary_fills request half input place ht hb
    (partialSum request half input tile_n chunk_begin block) count.1 count.2 aligned
  rw [next] at adds
  refine Effect.weaken adds (fun _ _ cell => ⟨cell, rfl⟩) ?_ fun _ _ cell => cell
  rintro k x (operand | cell)
  · refine .inr ⟨?_, .inl operand, contents_operand request half input operand⟩
    rintro ⟨rfl, _⟩
    exact operand_ne_scratch request operand
  · exact .inl ⟨cell, rfl⟩

/-- A chunk ends with its rows of the output, and spares the operands. -/
theorem runChunk_effect (inN : (tile_n + 1) * 32 ≤ request.n) (f : ℕ → α) {chunk : ℕ}
    (inA : chunk * 128 < request.m / 8) :
    Effect (bufferSize request) (contents request half input f) (operands request)
      (runChunk request place tile_n chunk) (contents request half input f)
      (Rows request tile_n (chunk * 128) (chunk * 128 + chunkTiles request (chunk * 128)))
      (Touched request place tile_n (chunk * 128)
        (chunk * 128 + chunkTiles request (chunk * 128))) := by
  have count : chunkTiles request (chunk * 128) ≤ 128 ∧
      (chunk * 128 + chunkTiles request (chunk * 128)) * 8 ≤ request.m := by
    rw [chunkTiles]
    omega
  have zeros : Writes (bufferSize request)
      (fun memory => memory.fill (.scratch place) (chunkTiles request (chunk * 128) * 256) 0)
      (contents request half input (partialSum request half input tile_n (chunk * 128) 0)) _ :=
    Writes.fill (by change _ ≤ 128 * 256; omega) fun _ _ => rfl
  have zero := Effect.keep (R := operands request) zeros (fun _ _ no => no.elim) (by
    rintro k x operand ⟨rfl, _⟩
    exact operand_ne_scratch request operand)
  have blocks := Effect.rounds
    (fun i => contents request half input (partialSum request half input tile_n (chunk * 128) i))
    (fun _ k x => operands request k x ∨ Tiles place 0 (chunkTiles request (chunk * 128)) k x)
    fun block (hb : block < request.k / 32) =>
      addBlock_effect request half input place (by omega) (by omega) inA (by omega)
  have copy := unpackCChunk_fills request half input place inN count.1 count.2
  have zeroed := zero.weaken (T := fun k x => operands request k x ∨
      Tiles place 0 (chunkTiles request (chunk * 128)) k x) (N := fun k _ => k = .scratch place)
    (fun _ _ cell => ⟨cell, rfl⟩) (fun k x cell => .inl ⟨cell.imp_right fun c => ⟨c.1, c.2.2⟩, rfl⟩)
    fun _ _ cell => cell.1
  have copied := Effect.weaken copy (B := fun k x => operands request k x ∨
      Tiles place 0 (chunkTiles request (chunk * 128)) k x) (fun _ _ cell => ⟨.inr cell, rfl⟩)
    (fun _ _ cell => .inl ⟨cell, rfl⟩) fun _ _ cell => cell
  have whole := zeroed.seq (blocks.seq copied)
  refine whole.weaken (fun k x operand => ⟨operand, contents_operand request half input operand⟩)
    ?_ ?_
  · rintro k x ⟨rfl, row⟩
    exact .inl ⟨⟨rfl, row⟩, rfl⟩
  · rintro k x (cell | ⟨rfl, _⟩ | row)
    · exact .inl cell
    · exact .inl rfl
    · exact .inr row

/-- The chunks of a tile of columns write their rows of the output, one after another. -/
theorem runTile_effect (inN : (tile_n + 1) * 32 ≤ request.n) (scratch f : ℕ → α) :
    Effect (bufferSize request) (contents request half input f) (operands request)
      (runTile request place scratch tile_n) (contents request half input f)
      (Rows request tile_n 0 (request.m / 8)) (Touched request place tile_n 0 (request.m / 8)) := by
  have fresh : Effect (bufferSize request) (contents request half input f) (operands request)
      (fun memory => some (memory.renew (.scratch place) scratch)) (contents request half input f)
      (operands request) _ := Effect.renew fun _ operand => operand_ne_scratch request operand
  have chunks := Effect.loop (n := (request.m / 8 + 127) / 128)
    (fun chunk hc => runChunk_effect request half input place inN f
      (show chunk * 128 < request.m / 8 by omega)) (fun _ _ _ _ operand => operand_apart request place operand) (by
        rintro i j lt _ k x ⟨rfl, m, _, high, c, hc, rfl⟩ (no | ⟨_, m', low, _, c', hc', same⟩)
        · cases no
        · have := (Layout.unique (by omega) (by omega) same).1
          rw [chunkTiles] at high
          omega)
  have whole := fresh.seq chunks
  refine whole.weaken (fun _ _ cell => ⟨cell, rfl⟩) ?_ ?_
  · rintro k x ⟨rfl, m, _, high, cell⟩
    refine .inl ⟨⟨m / 8 / 128, by omega, rfl, m, by omega, ?_, cell⟩, rfl⟩
    rw [chunkTiles]
    omega
  · rintro k x (rfl | ⟨chunk, hc, rfl | ⟨rfl, m, low, high, cell⟩⟩)
    · exact .inl rfl
    · exact .inl rfl
    · refine .inr ⟨rfl, m, by omega, ?_, cell⟩
      rw [chunkTiles] at high
      omega

/-- One pass over the tiles of columns writes the whole output, in any order of the tiles. -/
theorem pass_effect (wholeM : request.m / 8 * 8 = request.m) (wholeN : request.n / 32 * 32 = request.n)
    {order : List ℕ} (complete : order.Perm (List.range (request.n / 32))) (places : ℕ → Place)
    (scratch : ℕ → ℕ → α) (f : ℕ → α) :
    Effect (bufferSize request) (contents request half input f) (operands request)
      (forEach (fun tile_n => runTile request (places tile_n) (scratch tile_n) tile_n) order)
      (contents request half input f)
      (fun k x => k = .output ∧ x < request.m * request.n)
      fun k _ => k = .scratch .tcm ∨ k = .scratch .stack ∨ k = .output := by
  have mem : ∀ tile, tile ∈ order ↔ tile < request.n / 32 := by
    intro tile
    rw [complete.mem_iff, List.mem_range]
  have inN : ∀ tile ∈ order, (tile + 1) * 32 ≤ request.n := by
    intro tile ht
    have := (mem tile).mp ht
    omega
  have tiles := Effect.forEach (M := fun tile => Touched request (places tile) tile 0 (request.m / 8))
    (fun tile ht => runTile_effect request half input (places tile) (inN tile ht) (scratch tile) f)
    (fun tile _ _ _ operand => operand_apart request (places tile) operand) (by
      refine (complete.nodup_iff.mpr List.nodup_range).imp_of_mem fun {i j} hi hj other k x => ?_
      rintro ⟨rfl, m, _, _, c, hc, rfl⟩ (no | ⟨_, m', _, _, c', hc', same⟩)
      · cases no
      · have insideI := (mem i).mp hi
        have insideJ := (mem j).mp hj
        have := (Layout.unique (by omega) (by omega) same).2
        omega)
  refine tiles.weaken (fun _ _ cell => ⟨cell, rfl⟩) ?_ ?_
  · rintro k x ⟨rfl, inside⟩
    have column : x % request.n < request.n := by
      apply Nat.mod_lt
      rcases Nat.eq_zero_or_pos request.n with zero | pos
      · rw [zero, Nat.mul_zero] at inside
        omega
      · exact pos
    have row := Layout.row_lt inside
    refine .inl ⟨⟨x % request.n / 32, (mem _).mpr (by omega), rfl, x / request.n,
      by rw [Nat.zero_mul]; exact Nat.zero_le _, by omega,
      x % request.n % 32, by omega, ?_⟩, rfl⟩
    rw [Nat.div_add_mod' (x % request.n), Nat.div_add_mod']
  · rintro k x ⟨tile, _, rfl | ⟨rfl, _⟩⟩
    · cases places tile with
      | tcm => exact .inl rfl
      | stack => exact .inr (.inl rfl)
    · exact .inr (.inr rfl)

theorem run_effect (wholeM : request.m / 8 * 8 = request.m)
    (wholeN : request.n / 32 * 32 = request.n) (schedule : Schedule (request.n / 32) α)
    (iterations : ℕ) {f : ℕ → α} :
    Effect (bufferSize request) (contents request half input f) (operands request)
      (run request schedule iterations) (contents request half input f)
      (fun k x => 0 < iterations ∧ k = .output ∧ x < request.m * request.n)
      fun k _ => k = .scratch .tcm ∨ k = .scratch .stack ∨ k = .output := by
  refine Effect.passes (fun iteration _ => pass_effect request half input wholeM wholeN
    (schedule.complete iteration) (schedule.place iteration) (schedule.scratch iteration) f) ?_
  rintro k x operand (rfl | rfl | rfl)
  · exact operand_ne_scratch request operand
  · exact operand_ne_scratch request operand
  · exact operand_ne_output request operand

/-- The kernel computes the product of the quantised operands. -/
theorem run_product (supported : (validateShape 8 32 32 request).supported = true)
    (schedule : Schedule (request.n / 32) α) {iterations : ℕ} (some_iteration : 1 ≤ iterations)
    (previous : ℕ → α) (memory : Ime2Memory α α) (sizes : memory.size = bufferSize request) :
    Ends ((prepare half request input memory).bind fun memory =>
        run request schedule iterations (memory.renew .output previous)) fun memory =>
      ∀ m < request.m, ∀ n < request.n, memory.cell .output (m * request.n + n) =
        product (fun b => input.weight (n * (request.k / 32) + b))
          (quantizedActivation half input.activation (request.k / 32) m) (request.k / 32) := by
  obtain ⟨_, wholeM, wholeN, _⟩ := validateShape_supported supported
  have first := prepare_effect request half input (fun _ => 0)
  have fresh : Effect (bufferSize request) (contents request half input fun _ => 0) (operands request)
      (fun memory => some (memory.renew .output previous)) (contents request half input fun _ => 0)
      (operands request) _ := Effect.renew fun _ operand => operand_ne_output request operand
  have later := fresh.seq (run_effect request half input wholeM wholeN schedule iterations)
  refine (first.seq later memory sizes fun _ _ no => no.elim).mono fun memory ⟨_, left⟩ => ?_
  intro m hm n hn
  rw [left .output _ ⟨some_iteration, rfl, Layout.index_lt hm hn⟩, contents, Layout.row hn,
    Layout.column hn, product]
  apply sum_congr rfl
  intro b _
  rw [contribution, integerSum_eq, mul_comm]
  rfl

end Run

def sampleRequest : Bench.BenchmarkRequest := ⟨16, 64, 64, 0, 1, 1, 1, 0, 0, true, []⟩

def sampleSchedule : Schedule (sampleRequest.n / 32) ℚ where
  order := fun iteration => if iteration % 2 = 0 then [1, 0] else [0, 1]
  complete := by
    intro iteration
    split <;> decide
  allocated := fun iteration tile => iteration % 2 = tile
  scratch := fun _ _ _ => 5

theorem sample_product : Ends ((prepare id sampleRequest variedInput
      ⟨bufferSize sampleRequest, fun k _ => match k with
        | .aQs => 1 | .aScales => 2 | .bQs => 3 | .bScales => 4 | .scratch _ => 5 | .acc => 6
        | .output => 7⟩).bind fun memory =>
      run sampleRequest sampleSchedule 2 (memory.renew .output fun _ => 8)) fun memory =>
    memory.cell .output (11 * 64 + 37) = -200400 / 127 := by
  refine (run_product sampleRequest id variedInput (by decide) sampleSchedule (by decide)
    (fun _ => 8) _ rfl).mono fun memory h => ?_
  refine (h 11 (by decide) 37 (by decide)).trans ?_
  decide +kernel

end Pfng.Q40.ImeRr
