import Pfng.Q4K.Tile

/-! One tile of the grouped kernel. It takes the sub-blocks two at a time and keeps all sums in
registers. -/
namespace Pfng.Q4K
open Checked Register Rvv Layout

variable {α : Type}

namespace Problem

/-- `sum_rows` and `sum_min_rows` before block `b`. -/
def groupSum (ops : FloatOps α α) (p : Problem α) (s : Sums) (row column : ℕ) : ℕ → α
  | 0 => ops.zero
  | b+1 => ops.fma (groupSum ops p s row column b) (ops.ofInt (p.blockSum s row column b 8))
      (p.factor ops s row column b)

def groupElement (ops : FloatOps α α) (p : Problem α) (row column : ℕ) : α :=
  ops.sub (p.groupSum ops .sum row column p.blocks) (p.groupSum ops .sumMin row column p.blocks)

end Problem

section Block

variable {ops : FloatOps α α} {p : Problem α} {bytes : Bytes} {parts : Parts α} {i_mr i_nr b : ℕ}

theorem suml_ends
    (ready : Ready 4 p.activation (groupEntry p.weight p.blocks) p.tilesM p.tilesN p.blocks bytes)
    (hm : i_mr < p.tilesM) (hn : i_nr < p.tilesN) (hb : b < p.blocks) {i_qsk row : ℕ} (hq : i_qsk < 8)
    (hr : row < 4) :
    Ends (suml bytes (i_mr * p.blocks + b) (i_nr * p.blocks + b) (i_qsk / 2) (i_qsk % 2 == 1) row 32)
      fun s => ∀ lane < 32, s lane = p.subSum (i_mr * 4 + row) (i_nr * 32 + lane) b i_qsk := by
  obtain ⟨s, run, lanes⟩ :=
    macRounds_eq (groupOperands_loads ready hm hn hb hq hr) (Nat.le_refl 32)
  refine ⟨s, run, fun lane hl => ?_⟩
  rw [lanes lane hl]
  exact congrArg (fun term => accumulate 16 term 32)
    (funext (toInt_nibble_mul p (i_mr * 4 + row) (i_nr * 32 + lane) b i_qsk))

theorem loadUtmp_ends (prepared : Prepared 4 384 p (groupBytes p) parts) (hn : i_nr < p.tilesN)
    (hb : b < p.blocks) {i_qsk : ℕ} (hq : i_qsk < 8) :
    Ends (loadUtmp parts ((i_nr * p.blocks + b) * 512 + i_qsk * 48)) fun utmp => ∀ lane < 32,
      utmpLanes utmp 0 lane = p.scale (i_nr * 32 + lane) b i_qsk ∧
        utmpLanes utmp 8 lane = p.min (i_nr * 32 + lane) b i_qsk := by
  have loaded := prepared.scales hn hb (y := i_qsk * 48) (n := 48) (by omega) (by decide)
  refine loaded.map fun bytes known => ?_
  have packed : ∀ r < 48, bytes r =
      groupByte (source p.weight p.blocks (i_nr * p.blocks + b)) i_qsk r := by
    intro r hr
    rw [known r hr, groupBytes, Layout.row hr, column hr]
  intro lane hl
  have lanes := utmpLanes_eq packed hl
  rw [source_slot p.weight hb] at lanes
  exact lanes

/-- The int32 sums of four rows after `n` sub-blocks. -/
def HoldsSums (p : Problem α) (i_mr i_nr b n : ℕ) (block : BlockRows) : Prop :=
  ∀ row < 4, ∀ lane < 32,
    block.sum_block row lane = p.blockSum .sum (i_mr * 4 + row) (i_nr * 32 + lane) b n ∧
      block.sum_min_block row lane = p.blockSum .sumMin (i_mr * 4 + row) (i_nr * 32 + lane) b n

theorem blockSum_next (p : Problem α) (s : Sums) (row column block n : ℕ) :
    p.blockSum s row column block (n + 1) =
      wrap 32 (p.blockSum s row column block n + p.term row column block n s) := rfl

theorem groupPair_ends
    (ready : Ready 4 p.activation (groupEntry p.weight p.blocks) p.tilesM p.tilesN p.blocks bytes)
    (prepared : Prepared 4 384 p (groupBytes p) parts)
    (hm : i_mr < p.tilesM) (hn : i_nr < p.tilesN) (hb : b < p.blocks) {sb : ℕ} (hs : sb < 4)
    {block : BlockRows} (known : HoldsSums p i_mr i_nr b (sb * 2) block) :
    Ends (groupPair bytes parts (i_mr * p.blocks + b) (i_nr * p.blocks + b) sb block)
      (HoldsSums p i_mr i_nr b ((sb + 1) * 2)) := by
  have low : sb * 2 / 2 = sb ∧ (sb * 2 % 2 == 1) = false := by
    refine ⟨by omega, ?_⟩
    rw [Nat.mul_mod_left]
    rfl
  have high : (sb * 2 + 1) / 2 = sb ∧ ((sb * 2 + 1) % 2 == 1) = true := by
    refine ⟨by omega, ?_⟩
    rw [Nat.mul_add_mod_self_right]
    rfl
  have first : ∀ row < 4, Ends (suml bytes (i_mr * p.blocks + b) (i_nr * p.blocks + b) sb false row 32)
      fun s => ∀ lane < 32, s lane = p.subSum (i_mr * 4 + row) (i_nr * 32 + lane) b (sb * 2) := by
    intro row hr
    have ends := suml_ends ready hm hn hb (show sb * 2 < 8 by omega) hr
    rwa [low.1, low.2] at ends
  have second : ∀ row < 4, Ends (suml bytes (i_mr * p.blocks + b) (i_nr * p.blocks + b) sb true row 32)
      fun s => ∀ lane < 32, s lane = p.subSum (i_mr * 4 + row) (i_nr * 32 + lane) b (sb * 2 + 1) := by
    intro row hr
    have ends := suml_ends ready hm hn hb (show sb * 2 + 1 < 8 by omega) hr
    rwa [high.1, high.2] at ends
  have utmp : ∀ i_qsk < 8, Ends (loadUtmp parts ((i_nr * p.blocks + b) * 512 + i_qsk * 48)) _ :=
    fun i_qsk hq => loadUtmp_ends prepared hn hb hq
  have bsum : ∀ i < 8, Ends (parts.load .bsums ((i_mr * p.blocks + b) * 32 + (i + sb * 8)))
      fun bits => bits.toInt = p.bsum (i_mr * 4 + i % 4) b (sb * 2 + i / 4) := by
    intro i hi
    have loaded := prepared.bsums hm hb (x := i % 4) (i := sb * 2 + i / 4) (by omega) (by omega)
    rw [show (sb * 2 + i / 4) * 4 + i % 4 = i + sb * 8 by omega] at loaded
    exact ⟨_, loaded, toInt_bsum _ _⟩
  refine (fetchAll_ends first).bind fun suml_32 low => ?_
  refine (fetchAll_ends second).bind fun suml_64 high => ?_
  have utmp_32 := utmp (sb * 2) (by omega)
  have utmp_64 := utmp (sb * 2 + 1) (by omega)
  rw [show sb * 2 * 48 = 96 * sb by omega] at utmp_32
  rw [show (sb * 2 + 1) * 48 = 48 + 96 * sb by omega] at utmp_64
  refine utmp_32.bind fun utmp_32 fields => ?_
  refine utmp_64.bind fun utmp_64 fields' => ?_
  refine (fetchAll_ends bsum).map fun bsums sums => ?_
  intro row hr lane hl
  rw [Nat.succ_mul]
  have here := sums row (by omega)
  have next := sums (4 + row) (by omega)
  rw [Nat.mod_eq_of_lt hr, Nat.div_eq_of_lt hr, Nat.add_zero] at here
  rw [show (4 + row) % 4 = row by omega, show (4 + row) / 4 = 1 by omega] at next
  constructor
  · rw [blockSum_next _ _ _ _ _ (sb * 2 + 1), blockSum_next, ← (known row hr lane hl).1]
    simp only [vwmaccVV, low row hr lane hl, high row hr lane hl, (fields lane hl).1,
      (fields' lane hl).1, Problem.term]
  · rw [blockSum_next _ _ _ _ _ (sb * 2 + 1), blockSum_next, ← (known row hr lane hl).2]
    simp only [vaddVV, vwmulVV, (fields lane hl).2, (fields' lane hl).2, here, next, Problem.term,
      wrap_add_wrap, wrap_wrap_add, Int.add_assoc]

variable [Inhabited α]

/-- The float sums of four rows before block `n`. -/
def HoldsRows (ops : FloatOps α α) (p : Problem α) (i_mr i_nr n : ℕ) (rows : FloatRows α) : Prop :=
  ∀ row < 4, ∀ lane < 32,
    rows.sum_rows row lane = p.groupSum ops .sum (i_mr * 4 + row) (i_nr * 32 + lane) n ∧
      rows.sum_min_rows row lane = p.groupSum ops .sumMin (i_mr * 4 + row) (i_nr * 32 + lane) n

theorem groupBlock_ends
    (ready : Ready 4 p.activation (groupEntry p.weight p.blocks) p.tilesM p.tilesN p.blocks bytes)
    (prepared : Prepared 4 384 p (groupBytes p) parts)
    (hm : i_mr < p.tilesM) (hn : i_nr < p.tilesN) (hb : b < p.blocks) {rows : FloatRows α}
    (known : HoldsRows ops p i_mr i_nr b rows) :
    Ends (groupBlock ops bytes parts (i_mr * p.blocks + b) (i_nr * p.blocks + b) rows)
      (HoldsRows ops p i_mr i_nr (b + 1)) := by
  have start : HoldsSums p i_mr i_nr b 0 ⟨fun _ _ => 0, fun _ _ => 0⟩ := fun _ _ _ _ => ⟨rfl, rfl⟩
  have pairs := loop_ends (fun sb => HoldsSums p i_mr i_nr b (sb * 2)) start
    fun sb (hs : sb < 4) block known => groupPair_ends ready prepared hm hn hb hs known
  refine pairs.bind fun block sums => ?_
  have scales : ∀ row < 4, Ends (parts.load .activationD ((i_mr * p.blocks + b) * 4 + row))
      fun d => d = (p.blockA (i_mr * 4 + row) b).d := fun row hr =>
    ⟨_, prepared.activationD hm hb hr, rfl⟩
  refine (fetchAll_ends scales).bind fun src1_d scaleA => ?_
  refine (prepared.weightD .sum hn hb).bind fun src0_d scaleW => ?_
  refine (prepared.weightD .sumMin hn hb).map fun src0_dmin scaleMin => ?_
  intro row hr lane hl
  constructor
  · dsimp only
    rw [(known row hr lane hl).1, (sums row hr lane hl).1, scaleA row hr, scaleW lane hl]
    rfl
  · dsimp only
    rw [(known row hr lane hl).2, (sums row hr lane hl).2, scaleA row hr, scaleMin lane hl]
    rfl

theorem groupTile_effect
    (ready : Ready 4 p.activation (groupEntry p.weight p.blocks) p.tilesM p.tilesN p.blocks bytes)
    (prepared : Prepared 4 384 p (groupBytes p) parts) (hm : i_mr < p.tilesM) (hn : i_nr < p.tilesN) :
    Effect (scratchSize 4 p) (outputs p (p.groupElement ops)) (fun _ _ => False)
      (groupTile ops bytes parts p.blocks (p.tilesN * 32) (i_mr * 4 * (p.tilesN * 32) + i_nr * 32)
        (i_nr * p.blocks) (i_mr * p.blocks) 0 0)
      (outputs p (p.groupElement ops)) (MatrixTile .output (p.tilesN * 32) 4 32 i_mr i_nr)
      fun k x => k ≠ .output ∨ MatrixTile .output (p.tilesN * 32) 4 32 i_mr i_nr k x := by
  have start : HoldsRows ops p i_mr i_nr 0 ⟨fun _ _ => ops.zero, fun _ _ => ops.zero⟩ :=
    fun _ _ _ _ => ⟨rfl, rfl⟩
  have blocks := loop_ends (HoldsRows ops p i_mr i_nr) start
    fun b (hb : b < p.blocks) rows known => groupBlock_ends ready prepared hm hn hb known
  obtain ⟨rows, run, known⟩ := blocks
  have store : ∀ row < 4, Writes (scratchSize 4 p) (fun scratch : ScratchMemory α =>
      scratch.storeLanes .output (i_mr * 4 * (p.tilesN * 32) + i_nr * 32 + row * (p.tilesN * 32)) 32
        fun lane => some (ops.sub (rows.sum_rows row lane) (rows.sum_min_rows row lane)))
      (outputs p (p.groupElement ops)) (TileRow .output (p.tilesN * 32) 4 32 i_mr i_nr row) := by
    intro row hr
    refine Writes.storeTileRow ?_ ?_ ?_
    · rw [Nat.add_mul, Nat.add_right_comm]
    · intro lane hl
      exact index_lt (index_lt hm hr) (index_lt hn hl)
    · intro lane hl
      rw [(known row hr lane hl).1, (known row hr lane hl).2, outputs, matrix_at _ (index_lt hn hl)]
      rfl
  have stores := Effect.tile (fun lane hl => index_lt hn hl) store fun _ _ _ _ no => no.elim
  intro m sizes before
  have untouched : ∀ k x, (∃ row < 4, False) → m.cell k x = outputs p (p.groupElement ops) k x :=
    fun _ _ no => absurd no (by simp)
  obtain ⟨m', stored, change, left⟩ := stores m sizes untouched
  refine ⟨m', ?_, change.mono fun _ _ => .inr, left⟩
  simp only [groupTile, Nat.zero_mul, Nat.zero_add, Nat.add_zero]
  rw [run, Option.bind_some, ← stored]

end Block

theorem runGroup_ends [Inhabited α] {ops : FloatOps α α} {p : Problem α} {bytes : Bytes}
    {parts : Parts α} {scratch : ScratchMemory α} {iterations : ℕ} (once : 1 ≤ iterations)
    (ready : Ready 4 p.activation (groupEntry p.weight p.blocks) p.tilesM p.tilesN p.blocks bytes)
    (prepared : Prepared 4 384 p (groupBytes p) parts) (sizes : scratch.size = scratchSize 4 p) :
    Ends (runGroup ops bytes parts p iterations scratch) (Leaves 4 p (p.groupElement ops)) := by
  refine tiles_ends (by decide) once sizes fun i_mr hm i_nr hn => ?_
  intro m sizes before
  refine (groupTile_effect ready prepared hm hn m sizes before).imp fun m' ⟨run, rest⟩ => ⟨?_, rest⟩
  simp only [gemmGroup, forUp, Nat.reduceDiv]
  rw [run, Option.bind_some, Option.bind_some]

end Pfng.Q4K
