import Pfng.Lib.Blocking
import Pfng.Lib.Rows
import Pfng.Q4K.Unscramble

/-! One tile of the 12-row kernel. Both of its loops over the blocks add rows of int32 sums, each with
the factor of its block, to rows of float sums. -/
namespace Pfng.Q4K
open Checked Register Rvv Layout Finset

variable {α : Type}

namespace Problem

def subSum (p : Problem α) (row column block i_qsk : ℕ) : ℤ :=
  accumulate 16 (p.product row column block i_qsk) 32

def scale (p : Problem α) (column block i_qsk : ℕ) : ℕ :=
  (q4Scale (p.blockW column block).scales i_qsk).toNat

def min (p : Problem α) (column block i_qsk : ℕ) : ℕ :=
  (q4Min (p.blockW column block).scales i_qsk).toNat

def bsum (p : Problem α) (row block i_qsk : ℕ) : ℤ :=
  ∑ k ∈ range 32, ((p.blockA row block).qs (i_qsk * 32 + k)).toInt

/-- What a sub-block adds to either sum. -/
def term (p : Problem α) (row column block i_qsk : ℕ) : Sums → ℤ
  | .sum => p.subSum row column block i_qsk * p.scale column block i_qsk
  | .sumMin => p.min column block i_qsk * p.bsum row block i_qsk

/-- The int32 sum of a block after its first `n` sub-blocks. -/
def blockSum (p : Problem α) (s : Sums) (row column block n : ℕ) : ℤ :=
  accumulate 32 (fun i_qsk => p.term row column block i_qsk s) n

def factor (ops : FloatOps α α) (p : Problem α) (s : Sums) (row column block : ℕ) : α :=
  ops.mul (ops.widen (s.scaleOf (p.blockW column block))) (p.blockA row block).d

/-- `sum` and `sum_min` of the 12-row kernel after block `i_qk`. -/
def mySum (ops : FloatOps α α) (p : Problem α) (s : Sums) (row column : ℕ) : ℕ → α
  | 0 => ops.mul (ops.ofInt (p.blockSum s row column 0 8)) (p.factor ops s row column 0)
  | i_qk+1 => ops.fma (mySum ops p s row column i_qk)
      (ops.ofInt (p.blockSum s row column (i_qk + 1) 8)) (p.factor ops s row column (i_qk + 1))

def myElement (ops : FloatOps α α) (p : Problem α) (row column : ℕ) : α :=
  ops.sub (p.mySum ops .sum row column (p.blocks - 1)) (p.mySum ops .sumMin row column (p.blocks - 1))

end Problem

theorem toInt_field {b : BitVec 8} (h : b.toNat < 64) : b.toInt = b.toNat := by
  rw [BitVec.toInt_eq_toNat_of_lt]
  omega

section Block

variable {ops : FloatOps α α} {p : Problem α} {bytes : Bytes} {parts : Parts α}
variable {i_mr i_nr b : ℕ} {sums : ℕ → ℤ} {output : ℕ → Option α}

def tileSums (p : Problem α) (i_mr i_nr block n : ℕ) : ℕ → ℤ :=
  matrix 32 fun i lane => p.blockSum .sum (i_mr * 12 + i) (i_nr * 32 + lane) block n

def tileRows (ops : FloatOps α α) (p : Problem α) (s : Sums) (i_mr i_nr i_qk : ℕ) : ℕ → α :=
  matrix 32 fun i lane => p.mySum ops s (i_mr * 12 + i) (i_nr * 32 + lane) i_qk

/-- The arrays, cell by cell; the float sums are those after block `i_qk`. -/
def locals (ops : FloatOps α α) (p : Problem α) (i_mr i_nr i_qk : ℕ) (sums : ℕ → ℤ)
    (output : ℕ → Option α) : Contents Scratch (ScratchCell α)
  | .sumBlock, x => sums x
  | .rows s, x => some (tileRows ops p s i_mr i_nr i_qk x)
  | .output, x => output x

theorem lane_bound {i lane : ℕ} (hi : i < 12) (hl : lane < 32) : i * 32 + lane < 12 * 32 :=
  index_lt hi hl

theorem row_bound {i : ℕ} (hi : i < 12) : i * 32 + 32 ≤ 12 * 32 := by omega

theorem sumSubblock_ends
    (ready : Ready 12 p.activation (myEntry p.weight p.blocks) p.tilesM p.tilesN p.blocks bytes)
    (hm : i_mr < p.tilesM) (hn : i_nr < p.tilesN) (hb : b < p.blocks) {i_qsk i : ℕ} (hq : i_qsk < 8)
    (hi : i < 12) :
    Ends (sumSubblock bytes (i_mr * p.blocks + b) (i_nr * p.blocks + b) i_qsk i 31) fun s =>
      ∀ lane < 32, s lane = p.subSum (i_mr * 12 + i) (i_nr * 32 + lane) b i_qsk := by
  obtain ⟨s, run, lanes⟩ :=
    mulRounds_eq (myOperands_loads ready hm hn hb hq hi) (show 31 < 32 by decide)
  refine ⟨s, run, fun lane hl => ?_⟩
  rw [lanes lane hl]
  exact congrArg (fun term => accumulate 16 term 32)
    (funext (toInt_nibble_mul p (i_mr * 12 + i) (i_nr * 32 + lane) b i_qsk))

theorem loadScale_ends (prepared : Prepared 12 512 p (myBytes p) parts) (hn : i_nr < p.tilesN)
    (hb : b < p.blocks) {i_qsk : ℕ} (hq : i_qsk < 8) :
    Ends (parts.loadLanes .scales ((i_nr * p.blocks + b) * 512 + i_qsk * 32) 32) fun w =>
      ∀ lane < 32, (w lane).toInt = p.scale (i_nr * 32 + lane) b i_qsk := by
  refine (prepared.scales hn hb (by omega) (by decide)).mono fun w lanes lane hl => ?_
  rw [lanes lane hl, myBytes_scale hb hq hl, toInt_field (q4Scale_lt _ _)]
  rfl

theorem loadMin_ends (prepared : Prepared 12 512 p (myBytes p) parts) (hn : i_nr < p.tilesN)
    (hb : b < p.blocks) {i : ℕ} (hi : i < 8) :
    Ends (parts.loadLanes .scales ((i_nr * p.blocks + b) * 512 + (256 + i * 32)) 32) fun w =>
      ∀ lane < 32, (w lane).toInt = p.min (i_nr * 32 + lane) b i := by
  refine (prepared.scales hn hb (by omega) (by decide)).mono fun w lanes lane hl => ?_
  rw [lanes lane hl, Nat.add_assoc, myBytes_min hb hl, toInt_field (q4Min_lt _ _)]
  rfl

theorem accumulateSubblock_effect
    (ready : Ready 12 p.activation (myEntry p.weight p.blocks) p.tilesM p.tilesN p.blocks bytes)
    (prepared : Prepared 12 512 p (myBytes p) parts)
    (hm : i_mr < p.tilesM) (hn : i_nr < p.tilesN) (hb : b < p.blocks) {i_qk i_qsk : ℕ}
    (hq : i_qsk < 8) :
    Effect (scratchSize 12 p) (locals ops p i_mr i_nr i_qk (tileSums p i_mr i_nr b i_qsk) output)
      (ArrayCells 32 .sumBlock 12)
      (accumulateSubblock bytes parts (i_mr * p.blocks + b) (i_nr * p.blocks + b) i_qsk)
      (locals ops p i_mr i_nr i_qk (tileSums p i_mr i_nr b (i_qsk + 1)) output)
      (ArrayCells 32 .sumBlock 12) (ArrayCells 32 .sumBlock 12) := by
  refine Effect.array (A := fun i => RowCells 32 .sumBlock i) ?_ ?_ ?_
  · intro i hi m sizes before
    refine (sumSubblock_ends ready hm hn hb hq hi).bind fun sum_subblock summed => ?_
    refine (loadScale_ends prepared hn hb hq).bind fun w_scale scales => ?_
    obtain ⟨row, run, known⟩ := loadLanes_eq before sizes (row_bound hi) fun lane hl =>
      ⟨rfl, lane, hl, rfl⟩
    rw [run, Option.bind_some]
    have stored : Writes (scratchSize 12 p) (fun m : ScratchMemory α =>
        m.storeLanes .sumBlock (i * 32) 32
          (vwmaccVV row sum_subblock fun lane => (w_scale lane).toInt))
        (locals ops p i_mr i_nr i_qk (tileSums p i_mr i_nr b (i_qsk + 1)) output) _ :=
      Writes.storeLanes (fun lane hl => lane_bound hi hl) fun lane hl => by
        rw [vwmaccVV, known lane hl, summed lane hl, scales lane hl, locals, locals, tileSums, tileSums,
          matrix_at _ hl, matrix_at _ hl]
        rfl
    exact stored m sizes nofun
  · intro i j lt _ k x cell
    exact rowCells_apart (Nat.ne_of_gt lt) cell
  · intro i hi k x cell
    exact arrayCells_iff.mpr ⟨i, hi, cell⟩

theorem subblocks_effect
    (ready : Ready 12 p.activation (myEntry p.weight p.blocks) p.tilesM p.tilesN p.blocks bytes)
    (prepared : Prepared 12 512 p (myBytes p) parts)
    (hm : i_mr < p.tilesM) (hn : i_nr < p.tilesN) (hb : b < p.blocks) {i_qk : ℕ} :
    Effect (scratchSize 12 p) (locals ops p i_mr i_nr i_qk (tileSums p i_mr i_nr b 0) output)
      (fun _ _ => False)
      (fun scratch => forUp (accumulateSubblock bytes parts (i_mr * p.blocks + b)
        (i_nr * p.blocks + b)) 0 8 (scratch.renew .sumBlock fun _ => 0))
      (locals ops p i_mr i_nr i_qk (tileSums p i_mr i_nr b 8) output)
      (ArrayCells 32 .sumBlock 12) (fun k _ => k = .sumBlock) := by
  have zero : Effect (scratchSize 12 p)
      (locals ops p i_mr i_nr i_qk (tileSums p i_mr i_nr b 0) output) (fun _ _ => False)
      (fun scratch => some (scratch.renew .sumBlock fun _ => (0 : ℤ))) _ _ _ :=
    Effect.renewed (fun _ => rfl) fun _ no => no
  have rounds := Effect.rounds
    (fun i_qsk => locals ops p i_mr i_nr i_qk (tileSums p i_mr i_nr b i_qsk) output)
    (fun _ => ArrayCells 32 .sumBlock 12)
    fun i_qsk (hq : i_qsk < 8) => accumulateSubblock_effect ready prepared hm hn hb hq
  have both := zero.seq (rounds.weaken (fun k x cell => ⟨.inr cell.1, rfl⟩)
    (fun k x cell => .inl ⟨cell, rfl⟩) fun _ _ cell => cell)
  refine both.weaken (fun _ _ no => no.elim) (fun k x cell => .inl ⟨cell, rfl⟩) ?_
  rintro k x (cell | cell)
  · exact cell
  · exact cell.1

theorem minRow_eq {w_min : ℕ → ℕ → ℤ} {bsums : ℕ → ℤ} {row column block lane : ℕ}
    (mins : ∀ i < 8, w_min i lane = p.min column block i)
    (sums : ∀ i < 8, bsums i = p.bsum row block i) {i : ℕ} (hi : i < 8) :
    minRow w_min bsums i lane = p.blockSum .sumMin row column block (i + 1) := by
  induction i with
  | zero =>
      rw [minRow, vwmulVV, mins 0 hi, sums 0 hi, Problem.blockSum, accumulate, accumulate, Int.zero_add]
      rfl
  | succ i ih =>
      rw [minRow, vwmaccVV, ih (by omega), mins _ hi, sums _ hi, Int.mul_comm]
      rfl

variable [Inhabited α]

theorem addRow_effect (s : Sums) {u v : Contents Scratch (ScratchCell α)} {i_qk i_m : ℕ}
    {w_d : ℕ → α} {row : ℕ → ℤ} {blockA : ℕ} (hi : i_m < 12)
    (before : ∀ x, u (.rows s) x = some (tileRows ops p s i_mr i_nr (i_qk - 1) x))
    (after : ∀ x, v (.rows s) x = some (tileRows ops p s i_mr i_nr i_qk x))
    (scaleA : parts.load .activationD (blockA * 12 + i_m) =
      some (p.blockA (i_mr * 12 + i_m) i_qk).d)
    (scaleW : ∀ lane < 32, w_d lane = s.scaleOf (p.blockW (i_nr * 32 + lane) i_qk))
    (sums : ∀ lane < 32, row lane = p.blockSum s (i_mr * 12 + i_m) (i_nr * 32 + lane) i_qk 8) :
    Effect (scratchSize 12 p) u (fun k x => 0 < i_qk ∧ RowCells 32 (.rows s) i_m k x)
      (addRow ops parts s blockA i_qk i_m w_d row) v (RowCells 32 (.rows s) i_m)
      (RowCells 32 (.rows s) i_m) := by
  intro m sizes holds
  have values : Ends (if i_qk = 0 then some fun lane => ops.mul (ops.ofInt (row lane))
        (ops.mul (ops.widen (w_d lane)) (p.blockA (i_mr * 12 + i_m) i_qk).d)
      else (m.fetchLanes (.rows s) id (i_m * 32) 32).map fun sum_row lane =>
        ops.fma (sum_row lane) (ops.ofInt (row lane))
          (ops.mul (ops.widen (w_d lane)) (p.blockA (i_mr * 12 + i_m) i_qk).d))
      fun sum_row => ∀ lane < 32,
        sum_row lane = p.mySum ops s (i_mr * 12 + i_m) (i_nr * 32 + lane) i_qk := by
    cases i_qk with
    | zero =>
        refine .some fun lane hl => ?_
        rw [sums lane hl, scaleW lane hl]
        rfl
    | succ i_qk =>
        have loaded : Ends (m.fetchLanes (.rows s) id (i_m * 32) 32) fun r => ∀ lane < 32,
            r lane = p.mySum ops s (i_mr * 12 + i_m) (i_nr * 32 + lane) i_qk :=
          holds.fetchLanes sizes (fun lane hl => lane_bound hi hl) fun lane hl =>
            ⟨⟨Nat.succ_pos _, rfl, lane, hl, rfl⟩, by
              rw [before, tileRows, matrix_at _ hl]
              rfl⟩
        refine loaded.map fun sum_row known => fun lane hl => ?_
        rw [sums lane hl, scaleW lane hl, known lane hl]
        rfl
  rw [addRow, scaleA, Option.bind_some]
  refine values.bind fun sum_row values => ?_
  have stored : Writes (scratchSize 12 p) (fun m : ScratchMemory α =>
      m.storeLanes (.rows s) (i_m * 32) 32 fun lane => some (sum_row lane)) v _ :=
    Writes.storeLanes (fun lane hl => lane_bound hi hl) fun lane hl => by
      rw [values lane hl, after, tileRows, matrix_at _ hl]
  exact stored m sizes nofun

variable (ops output) in
theorem sumBlock_effect
    (ready : Ready 12 p.activation (myEntry p.weight p.blocks) p.tilesM p.tilesN p.blocks bytes)
    (prepared : Prepared 12 512 p (myBytes p) parts)
    (hm : i_mr < p.tilesM) (hn : i_nr < p.tilesN) {i_qk : ℕ} (hb : i_qk < p.blocks) :
    Effect (scratchSize 12 p)
      (locals ops p i_mr i_nr (i_qk - 1) (tileSums p i_mr i_nr i_qk 0) output)
      (fun k x => 0 < i_qk ∧ ArrayCells 32 (.rows .sum) 12 k x)
      (sumBlock ops bytes parts (i_mr * p.blocks + i_qk) (i_nr * p.blocks + i_qk) i_qk)
      (locals ops p i_mr i_nr i_qk (tileSums p i_mr i_nr i_qk 8) output)
      (ArrayCells 32 (.rows .sum) 12)
      fun k x => k = .sumBlock ∨ ArrayCells 32 (.rows .sum) 12 k x := by
  have kept : Effect (scratchSize 12 p)
      (locals ops p i_mr i_nr (i_qk - 1) (tileSums p i_mr i_nr i_qk 0) output)
      (fun k x => 0 < i_qk ∧ ArrayCells 32 (.rows .sum) 12 k x) _
      (locals ops p i_mr i_nr (i_qk - 1) (tileSums p i_mr i_nr i_qk 8) output)
      (fun k x => ArrayCells 32 .sumBlock 12 k x ∨ 0 < i_qk ∧ ArrayCells 32 (.rows .sum) 12 k x)
      (fun k _ => k = .sumBlock) :=
    Effect.weaken (subblocks_effect ready prepared hm hn hb) (fun _ _ no => no.elim) (by
      rintro k x (cell | ⟨later, rfl, inside⟩)
      · exact .inl ⟨cell, rfl⟩
      · exact .inr ⟨nofun, ⟨later, rfl, inside⟩, by rw [locals, locals]⟩) fun _ _ cell => cell
  unfold sumBlock
  refine kept.seq ?_
  refine Effect.read (fun _ _ _ => prepared.weightD .sum hn hb) fun w_d scales => ?_
  refine Effect.array
    (A := fun i k x => RowCells 32 .sumBlock i k x ∨ 0 < i_qk ∧ RowCells 32 (.rows .sum) i k x)
    ?_ ?_ ?_
  · intro i_m hi m sizes before
    obtain ⟨row, run, known⟩ := loadLanes_eq before sizes (row_bound hi) fun lane hl =>
      .inl ⟨rfl, lane, hl, rfl⟩
    dsimp only
    rw [run, Option.bind_some]
    refine addRow_effect .sum hi (fun _ => rfl) (fun _ => rfl) (prepared.activationD hm hb hi)
      scales (fun lane hl => ?_) m sizes (before.mono fun _ _ cell => .inr cell)
    rw [known lane hl, locals, tileSums, matrix_at _ hl]
  · rintro i j lt _ k x (⟨rfl, _⟩ | ⟨_, cell⟩)
    · nofun
    · exact rowCells_apart (Nat.ne_of_gt lt) cell
  · rintro i hi k x (cell | ⟨later, cell⟩)
    · exact .inl (arrayCells_iff.mpr ⟨i, hi, cell⟩)
    · exact .inr ⟨later, arrayCells_iff.mpr ⟨i, hi, cell⟩⟩

variable (ops sums output) in
theorem sumMinBlock_effect (prepared : Prepared 12 512 p (myBytes p) parts)
    (hm : i_mr < p.tilesM) (hn : i_nr < p.tilesN) {i_qk : ℕ} (hb : i_qk < p.blocks) :
    Effect (scratchSize 12 p) (locals ops p i_mr i_nr (i_qk - 1) sums output)
      (fun k x => 0 < i_qk ∧ ArrayCells 32 (.rows .sumMin) 12 k x)
      (sumMinBlock ops parts (i_mr * p.blocks + i_qk) (i_nr * p.blocks + i_qk) i_qk)
      (locals ops p i_mr i_nr i_qk sums output)
      (ArrayCells 32 (.rows .sumMin) 12) (ArrayCells 32 (.rows .sumMin) 12) := by
  have loaded : Ends (fetchAll 8 fun i =>
      parts.loadLanes .scales ((i_nr * p.blocks + i_qk) * 512 + (256 + i * 32)) 32) fun w =>
      ∀ i < 8, ∀ lane < 32, (w i lane).toInt = p.min (i_nr * 32 + lane) i_qk i :=
    fetchAll_ends fun i hi => loadMin_ends prepared hn hb hi
  refine Effect.read (fun _ _ _ => loaded) fun w_min mins => ?_
  refine Effect.read (fun _ _ _ => prepared.weightD .sumMin hn hb) fun w_dmin scales => ?_
  refine Effect.array (A := fun i k x => 0 < i_qk ∧ RowCells 32 (.rows .sumMin) i k x) ?_ ?_ ?_
  · intro i_m hi
    have each : ∀ i < 8, Ends (parts.load .bsums ((i_mr * p.blocks + i_qk) * 96 + (i_m + i * 12)))
        fun bsum => bsum.toInt = p.bsum (i_mr * 12 + i_m) i_qk i := by
      intro i hsub
      rw [Nat.add_comm i_m]
      exact ⟨_, prepared.bsums hm hb hi hsub, toInt_bsum _ _⟩
    have sums := fetchAll_ends each
    refine Effect.read (fun _ _ _ => sums) fun bsums known => ?_
    exact addRow_effect .sumMin hi (fun _ => rfl) (fun _ => rfl) (prepared.activationD hm hb hi) scales
      fun lane hl => minRow_eq (fun i hi => mins i hi lane hl) known (by decide)
  · rintro i j lt _ k x ⟨_, cell⟩
    exact rowCells_apart (Nat.ne_of_gt lt) cell
  · rintro i hi k x ⟨later, cell⟩
    exact ⟨later, arrayCells_iff.mpr ⟨i, hi, cell⟩⟩

end Block

section Tile

variable {ops : FloatOps α α} {p : Problem α} {bytes : Bytes} {parts : Parts α}
variable {i_mr i_nr : ℕ} {output : ℕ → Option α} {u : Contents Scratch (ScratchCell α)}

theorem blocks_effect (s : Sums) {count : ℕ} (pos : 0 < count) {M : Region Scratch}
    {round : ℕ → ScratchMemory α → Option (ScratchMemory α)}
    (each : ∀ i_qk < count, ∃ sums sums', Effect (scratchSize 12 p)
      (locals ops p i_mr i_nr (i_qk - 1) sums output)
      (fun k x => 0 < i_qk ∧ ArrayCells 32 (.rows s) 12 k x) (round i_qk)
      (locals ops p i_mr i_nr i_qk sums' output) (ArrayCells 32 (.rows s) 12) M) :
    Effect (scratchSize 12 p) u (fun _ _ => False)
      (fun scratch => forUp round 0 count (scratch.renew (.rows s) fun _ => none))
      (locals ops p i_mr i_nr (count - 1) (fun _ => 0) output) (ArrayCells 32 (.rows s) 12)
      fun k x => k = .rows s ∨ M k x := by
  have fresh : Effect (scratchSize 12 p) u (fun _ _ => False)
      (fun scratch => some (scratch.renew (.rows s) fun _ => none)) u _ _ :=
    Effect.renew fun _ no => no
  have rounds : Effect (scratchSize 12 p) _ _ (forUp round 0 count) _ _ M :=
    Effect.rounds (fun i_qk => locals ops p i_mr i_nr (i_qk - 1) (fun _ => 0) output)
      (fun i_qk k x => 0 < i_qk ∧ ArrayCells 32 (.rows s) 12 k x) fun i_qk hq => by
        obtain ⟨sums, sums', effect⟩ := each i_qk hq
        refine effect.weaken ?_ ?_ fun _ _ cell => cell
        · rintro k x ⟨later, rfl, inside⟩
          exact ⟨⟨later, rfl, inside⟩, rfl⟩
        · rintro k x ⟨_, rfl, inside⟩
          exact .inl ⟨⟨rfl, inside⟩, rfl⟩
  refine fresh.seq (rounds.weaken ?_ (fun k x cell => .inl ⟨⟨pos, cell⟩, rfl⟩) fun _ _ cell => cell)
  rintro k x ⟨no, _⟩
  exact absurd no (Nat.lt_irrefl 0)

/-- The output, element by element, and anything in the arrays of a call. -/
def outputs (p : Problem α) (element : ℕ → ℕ → α) : Contents Scratch (ScratchCell α)
  | .sumBlock, _ => 0
  | .rows _, _ => none
  | .output, x => some (matrix (p.tilesN * 32) element x)

variable [Inhabited α]

variable (ops) in
theorem outputRow_effect (hm : i_mr < p.tilesM) (hn : i_nr < p.tilesN) {i_m : ℕ} (hi : i_m < 12) :
    Effect (scratchSize 12 p)
      (locals ops p i_mr i_nr (p.blocks - 1) (fun _ => 0) (outputs p (p.myElement ops) .output))
      (fun k x => RowCells 32 (.rows .sum) i_m k x ∨ RowCells 32 (.rows .sumMin) i_m k x)
      (fun scratch : ScratchMemory α =>
        (scratch.fetchLanes (.rows .sum) id (i_m * 32) 32).bind fun sum_row =>
        (scratch.fetchLanes (.rows .sumMin) id (i_m * 32) 32).bind fun sum_min_row =>
        scratch.storeLanes .output
          (i_mr * 12 * (p.tilesN * 32) + i_nr * 32 + i_m * (p.tilesN * 32)) 32 fun lane =>
            some (ops.sub (sum_row lane) (sum_min_row lane)))
      (outputs p (p.myElement ops)) (TileRow .output (p.tilesN * 32) 12 32 i_mr i_nr i_m)
      (TileRow .output (p.tilesN * 32) 12 32 i_mr i_nr i_m) := by
  have row : ∀ s lane, lane < 32 → tileRows ops p s i_mr i_nr (p.blocks - 1) (i_m * 32 + lane) =
      p.mySum ops s (i_mr * 12 + i_m) (i_nr * 32 + lane) (p.blocks - 1) := fun s lane hl =>
    matrix_at _ hl
  refine Effect.fetchLanes (fun lane hl => lane_bound hi hl) (fun lane hl =>
    ⟨.inl ⟨rfl, lane, hl, rfl⟩, congrArg some (row .sum lane hl)⟩) fun sum_row sums => ?_
  refine Effect.fetchLanes (fun lane hl => lane_bound hi hl) (fun lane hl =>
    ⟨.inr ⟨rfl, lane, hl, rfl⟩, congrArg some (row .sumMin lane hl)⟩) fun sum_min_row mins => ?_
  refine (Writes.storeTileRow ?_ ?_ ?_).fills
  · rw [Nat.add_mul, Nat.add_right_comm]
  · intro lane hl
    exact index_lt (index_lt hm hi) (index_lt hn hl)
  · intro lane hl
    rw [sums lane hl, mins lane hl, outputs, matrix_at _ (index_lt hn hl)]
    rfl

theorem myTile_effect (pos : 0 < p.blocks)
    (ready : Ready 12 p.activation (myEntry p.weight p.blocks) p.tilesM p.tilesN p.blocks bytes)
    (prepared : Prepared 12 512 p (myBytes p) parts) (hm : i_mr < p.tilesM) (hn : i_nr < p.tilesN) :
    Effect (scratchSize 12 p) (outputs p (p.myElement ops)) (fun _ _ => False)
      (myTile ops bytes parts p.blocks (p.tilesN * 32) (i_mr * 12 * (p.tilesN * 32) + i_nr * 32)
        (i_nr * p.blocks) (i_mr * p.blocks) 0 0)
      (outputs p (p.myElement ops)) (MatrixTile .output (p.tilesN * 32) 12 32 i_mr i_nr)
      fun k x => k ≠ .output ∨ MatrixTile .output (p.tilesN * 32) 12 32 i_mr i_nr k x := by
  have first := blocks_effect (u := outputs p (p.myElement ops)) .sum pos fun i_qk hb =>
    ⟨_, _, sumBlock_effect ops (outputs p (p.myElement ops) .output) ready prepared hm hn hb⟩
  have second := blocks_effect (u := outputs p (p.myElement ops)) .sumMin pos fun i_qk hb =>
    ⟨_, _, sumMinBlock_effect ops (fun _ => 0) (outputs p (p.myElement ops) .output) prepared hm hn hb⟩
  have both := first.seqOwn second (fun _ _ no => no.elim) (by
    rintro k x ⟨rfl, _⟩ (same | ⟨same, _⟩) <;> cases same)
  have rows := Effect.tile (fun lane hl => index_lt hn hl)
    (fun i_m (hi : i_m < 12) => outputRow_effect ops hm hn hi) (by
      rintro i_m _ k x (⟨rfl, _⟩ | ⟨rfl, _⟩) same <;> cases same)
  have whole := both.seq (rows.weaken (by
    rintro k x ⟨i_m, hi, cell | cell⟩
    · exact ⟨.inl (arrayCells_iff.mpr ⟨i_m, hi, cell⟩), rfl⟩
    · exact ⟨.inr (arrayCells_iff.mpr ⟨i_m, hi, cell⟩), rfl⟩)
    (fun _ _ cell => .inl ⟨cell, rfl⟩) fun _ _ cell => cell)
  intro m sizes before
  obtain ⟨m', run, change, left⟩ := whole m sizes fun _ _ no => (or_self_iff.mp no).elim
  refine ⟨m', ?_, change.mono ?_, left⟩
  · simp only [myTile, Nat.zero_mul, Nat.zero_add, Nat.add_zero]
    rw [← run]
    exact (Option.bind_assoc _ _ _).symm
  · rintro k x (((rfl | rfl | ⟨rfl, _⟩) | (rfl | ⟨rfl, _⟩)) | cell)
    · exact .inl nofun
    · exact .inl nofun
    · exact .inl nofun
    · exact .inl nofun
    · exact .inl nofun
    · exact .inr cell

end Tile

section Run

variable {p : Problem α} {mr iterations : ℕ} {element : ℕ → ℕ → α} {scratch : ScratchMemory α}

/-- Every element of the output is written. -/
def Leaves (mr : ℕ) (p : Problem α) (element : ℕ → ℕ → α) (scratch : ScratchMemory α) : Prop :=
  ∀ row < p.tilesM * mr, ∀ column < p.tilesN * 32,
    scratch.cell .output (row * (p.tilesN * 32) + column) = some (element row column)

theorem tiles_ends {body : ℕ → ℕ → ScratchMemory α → Option (ScratchMemory α)} (pos : 0 < mr)
    (once : 1 ≤ iterations) (sizes : scratch.size = scratchSize mr p)
    (each : ∀ i_mr < p.tilesM, ∀ i_nr < p.tilesN, Effect (scratchSize mr p) (outputs p element)
      (fun _ _ => False) (body i_mr i_nr) (outputs p element)
      (MatrixTile .output (p.tilesN * 32) mr 32 i_mr i_nr)
      fun k x => k ≠ .output ∨ MatrixTile .output (p.tilesN * 32) mr 32 i_mr i_nr k x) :
    Ends (forUp (fun _ => forUp (fun tile_m => forUp (body tile_m) 0 p.tilesN) 0 p.tilesM)
      0 iterations scratch) (Leaves mr p element) := by
  have runs := Effect.repeatTiles pos (by decide) once (fun _ no => no rfl) each
  refine (runs scratch sizes fun _ _ no => no.elim).mono fun scratch' ⟨_, left⟩ => ?_
  intro row hr column hc
  rw [left .output _ ⟨rfl, index_lt hr hc⟩, outputs, matrix_at _ hc]

theorem runMy_ends [Inhabited α] {ops : FloatOps α α} {bytes : Bytes} {parts : Parts α}
    (pos : 0 < p.blocks) (once : 1 ≤ iterations)
    (ready : Ready 12 p.activation (myEntry p.weight p.blocks) p.tilesM p.tilesN p.blocks bytes)
    (prepared : Prepared 12 512 p (myBytes p) parts) (sizes : scratch.size = scratchSize 12 p) :
    Ends (runMy ops bytes parts p iterations scratch) (Leaves 12 p (p.myElement ops)) := by
  refine tiles_ends (by decide) once sizes fun i_mr hm i_nr hn => ?_
  intro m sizes before
  refine (myTile_effect pos ready prepared hm hn m sizes before).imp fun m' ⟨run, rest⟩ => ⟨?_, rest⟩
  simp only [gemmMy, forUp, Nat.reduceDiv]
  rw [run, Option.bind_some, Option.bind_some]

end Run

end Pfng.Q4K
