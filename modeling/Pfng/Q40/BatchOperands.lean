import Pfng.Lib.Words
import Pfng.Q40.BatchInvariant

/-! How a packed block lies in its bytes, and the sums that the kernels make of it. -/
namespace Pfng.Q40.BatchReduction
open Checked Ime Finset

variable {F H : Type}

section Layout

variable (unit : MatrixUnit)

/-- The row of the tile that byte `o` of a packed activation block belongs to. -/
def quantRow (o : ℕ) : ℕ :=
  o % (4 * kBytesPerMIV unit) / kBytesPerMIV unit / 2 * unit.width +
    o % kBytesPerMIV unit / unit.depth

def quantDepth (o : ℕ) : ℕ :=
  o / (4 * kBytesPerMIV unit) * (2 * unit.depth) +
    (o % (4 * kBytesPerMIV unit) / kBytesPerMIV unit % 2 * unit.depth + o % unit.depth)

/-- The column of byte `o` of a packed weight block. -/
def weightColumn (o : ℕ) : ℕ :=
  o % (4 * kBytesPerMIV unit) / kBytesPerMIV unit * unit.width +
    o % kBytesPerMIV unit / unit.depth

def weightDepth (o : ℕ) : ℕ := o / (4 * kBytesPerMIV unit) * (2 * unit.depth) + o % unit.depth

def packedByte (w : BlockQ40 H) (k : ℕ) : BitVec 8 :=
  nibble w k ||| nibble w (unit.depth + k) <<< 4

def unpackedDepth (o : ℕ) : ℕ :=
  o / (8 * kBytesPerMIV unit) * (2 * unit.depth) +
    (o % (8 * kBytesPerMIV unit) / (4 * kBytesPerMIV unit) * unit.depth + o % unit.depth)

end Layout

theorem nibble_lt (w : BlockQ40 H) (k : ℕ) : (nibble w k).toNat < 2 ^ 4 :=
  Nat.lt_succ_of_le (nibble_le w k)

theorem packedByte_low (unit : MatrixUnit) (w : BlockQ40 H) (k : ℕ) :
    packedByte unit w k &&& 15 = nibble w k :=
  Words.fields_and_mask (nibble_lt w k)

theorem packedByte_high (unit : MatrixUnit) (w : BlockQ40 H) (k : ℕ) :
    packedByte unit w k >>> 4 = nibble w (unit.depth + k) :=
  Words.fields_ushiftRight (nibble_lt w k) (nibble_lt w (unit.depth + k))

section Block

variable {unit : MatrixUnit} {m : BatchMemory F H} {w : ℕ → BlockQ40 H} {a : ℕ → BlockQ80 F}

/-- Register `j` of the activation in window `inner`. -/
def quantRegister (unit : MatrixUnit) (a : ℕ → BlockQ80 F) (inner j lane : ℕ) : BitVec 8 :=
  (a (j / 2 * unit.width + lane / unit.depth)).qs
    (inner * (2 * unit.depth) + (j % 2 * unit.depth + lane % unit.depth))

def lowRegister (unit : MatrixUnit) (w : ℕ → BlockQ40 H) (inner g lane : ℕ) : BitVec 8 :=
  weightByte (w (g * unit.width + lane / unit.depth))
    (inner * (2 * unit.depth) + lane % unit.depth)

def highRegister (unit : MatrixUnit) (w : ℕ → BlockQ40 H) (inner g lane : ℕ) : BitVec 8 :=
  weightByte (w (g * unit.width + lane / unit.depth))
    (inner * (2 * unit.depth) + (unit.depth + lane % unit.depth))

def WindowWeights (unit : MatrixUnit) (w : ℕ → BlockQ40 H) (inner : ℕ) (r : WeightRegisters) :
    Prop :=
  ∀ g < 4, ∀ lane < kBytesPerMIV unit,
    r.1 g lane = lowRegister unit w inner g lane ∧ r.2 g lane = highRegister unit w inner g lane

theorem windowWeights_of_packed {packed : ℕ → ℕ → BitVec 8} {inner : ℕ}
    (known : ∀ g < 4, ∀ lane < kBytesPerMIV unit, packed g lane =
      packedByte unit (w (g * unit.width + lane / unit.depth))
        (inner * (2 * unit.depth) + lane % unit.depth)) :
    WindowWeights unit w inner (fun g => lowWeights (packed g), fun g => highWeights (packed g)) := by
  intro g hg lane hl
  dsimp only [lowWeights, highWeights]
  rw [known g hg lane hl, packedByte_low, packedByte_high]
  unfold lowRegister highRegister weightByte
  rw [Nat.add_left_comm unit.depth]
  exact ⟨rfl, rfl⟩

theorem packedWeights_ends {blockWQs : ℕ} (bytes : ∀ o < kNr unit * 16,
      blockWQs + o < m.size (.bytes .packedB) ∧ m.cell (.bytes .packedB) (blockWQs + o) =
        some (packedByte unit (w (weightColumn unit o)) (weightDepth unit o))) {inner : ℕ}
    (hi : inner < numKIter unit) :
    Ends (packedWeights unit blockWQs inner m) (WindowWeights unit w inner) := by
  have place : ∀ g < 4, ∀ lane < kBytesPerMIV unit,
      inner * (4 * kBytesPerMIV unit) + g * kBytesPerMIV unit + lane < kNr unit * 16 ∧
      weightColumn unit (inner * (4 * kBytesPerMIV unit) + g * kBytesPerMIV unit + lane) =
        g * unit.width + lane / unit.depth ∧
      weightDepth unit (inner * (4 * kBytesPerMIV unit) + g * kBytesPerMIV unit + lane) =
        inner * (2 * unit.depth) + lane % unit.depth := by
    intro g hg lane hl
    unfold weightColumn weightDepth
    cases unit with
    | ime1 =>
        simp only [kBytesPerMIV, kNr, numKIter, MatrixUnit.width, MatrixUnit.depth] at *
        omega
    | ime2 =>
        simp only [kBytesPerMIV, kNr, numKIter, MatrixUnit.width, MatrixUnit.depth] at *
        omega
  have cell : ∀ g < 4, ∀ lane < kBytesPerMIV unit,
      blockWQs + inner * (4 * kBytesPerMIV unit) + g * kBytesPerMIV unit + lane <
        m.size (.bytes .packedB) ∧ m.cell (.bytes .packedB)
        (blockWQs + inner * (4 * kBytesPerMIV unit) + g * kBytesPerMIV unit + lane) =
        some (packedByte unit (w (g * unit.width + lane / unit.depth))
          (inner * (2 * unit.depth) + lane % unit.depth)) := by
    intro g hg lane hl
    obtain ⟨inside, column, depth⟩ := place g hg lane hl
    have byte := bytes _ inside
    rwa [column, depth, ← Nat.add_assoc, ← Nat.add_assoc] at byte
  have registers : Ends (m.fetchRows (.bytes .packedB) id (blockWQs + inner * (4 * kBytesPerMIV unit))
      (kBytesPerMIV unit) 4 (kBytesPerMIV unit)) _ :=
    fetchRows_ends (fun g hg lane hl => (cell g hg lane hl).1) fun g hg lane hl => (cell g hg lane hl).2
  exact registers.map fun packed known => windowWeights_of_packed known

theorem unpackedWeights_ends {blockWQs : ℕ} (bytes : ∀ o < kNr unit * 32,
      blockWQs + o < m.size .unpacked ∧ (m.cell .unpacked (blockWQs + o)).value =
        some (weightByte (w (weightColumn unit o)) (unpackedDepth unit o))) {inner : ℕ}
    (hi : inner < numKIter unit) :
    Ends (unpackedWeights unit blockWQs inner m) (WindowWeights unit w inner) := by
  have place : ∀ r < 8, ∀ lane < kBytesPerMIV unit,
      inner * (8 * kBytesPerMIV unit) + r * kBytesPerMIV unit + lane < kNr unit * 32 ∧
      weightColumn unit (inner * (8 * kBytesPerMIV unit) + r * kBytesPerMIV unit + lane) =
        r % 4 * unit.width + lane / unit.depth ∧
      unpackedDepth unit (inner * (8 * kBytesPerMIV unit) + r * kBytesPerMIV unit + lane) =
        inner * (2 * unit.depth) + (r / 4 * unit.depth + lane % unit.depth) := by
    intro r hr lane hl
    unfold weightColumn unpackedDepth
    cases unit with
    | ime1 =>
        simp only [kBytesPerMIV, kNr, numKIter, MatrixUnit.width, MatrixUnit.depth] at *
        omega
    | ime2 =>
        simp only [kBytesPerMIV, kNr, numKIter, MatrixUnit.width, MatrixUnit.depth] at *
        omega
  have cell : ∀ r < 8, ∀ lane < kBytesPerMIV unit,
      blockWQs + inner * (8 * kBytesPerMIV unit) + r * kBytesPerMIV unit + lane <
        m.size .unpacked ∧ (m.cell .unpacked
        (blockWQs + inner * (8 * kBytesPerMIV unit) + r * kBytesPerMIV unit + lane)).value =
        some (weightByte (w (r % 4 * unit.width + lane / unit.depth))
          (inner * (2 * unit.depth) + (r / 4 * unit.depth + lane % unit.depth))) := by
    intro r hr lane hl
    obtain ⟨inside, column, depth⟩ := place r hr lane hl
    have byte := bytes _ inside
    rwa [column, depth, ← Nat.add_assoc, ← Nat.add_assoc] at byte
  have registers : Ends (m.fetchRows .unpacked Counted.value
      (blockWQs + inner * (8 * kBytesPerMIV unit)) (kBytesPerMIV unit) 8 (kBytesPerMIV unit)) _ :=
    fetchRows_ends (fun r hr lane hl => (cell r hr lane hl).1) fun r hr lane hl => (cell r hr lane hl).2
  refine registers.map fun unpacked known => ?_
  intro g hg lane hl
  dsimp only
  constructor
  · rw [known g (by omega) lane hl, Nat.mod_eq_of_lt hg, Nat.div_eq_of_lt hg, Nat.zero_mul,
      Nat.zero_add]
    rfl
  · rw [known (4 + g) (by omega) lane hl, Nat.add_mod_left, Nat.mod_eq_of_lt hg,
      Nat.add_div_left g (by decide), Nat.div_eq_of_lt hg, Nat.one_mul]
    rfl

theorem tile_lane {row column : ℕ} (hr : row < kMr unit) (hc : column < kNr unit) :
    row / unit.width * 4 + column / unit.width < 8 ∧
      row % unit.width * unit.width + column % unit.width < unit.width * unit.width := by
  cases unit with
  | ime1 =>
      simp only [kMr, kNr, MatrixUnit.width] at *
      omega
  | ime2 =>
      simp only [kMr, kNr, MatrixUnit.width] at *
      omega

theorem operand_row {row column k : ℕ} (hr : row < kMr unit) (hc : column < kNr unit)
    (hk : k < unit.depth) :
    (row / unit.width * 4 + column / unit.width) / 4 * 2 / 2 * unit.width +
      ((row % unit.width * unit.width + column % unit.width) / unit.width * unit.depth + k) /
        unit.depth = row ∧
    ((row / unit.width * 4 + column / unit.width) / 4 * 2 + 1) / 2 * unit.width +
      ((row % unit.width * unit.width + column % unit.width) / unit.width * unit.depth + k) /
        unit.depth = row ∧
    (row / unit.width * 4 + column / unit.width) / 4 * 2 % 2 = 0 ∧
    ((row / unit.width * 4 + column / unit.width) / 4 * 2 + 1) % 2 = 1 ∧
    ((row % unit.width * unit.width + column % unit.width) / unit.width * unit.depth + k) %
      unit.depth = k := by
  cases unit with
  | ime1 =>
      simp only [kMr, kNr, MatrixUnit.width, MatrixUnit.depth] at *
      omega
  | ime2 =>
      simp only [kMr, kNr, MatrixUnit.width, MatrixUnit.depth] at *
      omega

theorem operand_column {row column k : ℕ} (hr : row < kMr unit) (hc : column < kNr unit)
    (hk : k < unit.depth) :
    (row / unit.width * 4 + column / unit.width) % 4 * unit.width +
      ((row % unit.width * unit.width + column % unit.width) % unit.width * unit.depth + k) /
        unit.depth = column ∧
    ((row % unit.width * unit.width + column % unit.width) % unit.width * unit.depth + k) %
      unit.depth = k := by
  cases unit with
  | ime1 =>
      simp only [kMr, kNr, MatrixUnit.width, MatrixUnit.depth] at *
      omega
  | ime2 =>
      simp only [kMr, kNr, MatrixUnit.width, MatrixUnit.depth] at *
      omega

/-- The accumulators of a K block are its sums for all rows and columns of the tile. -/
theorem dots_ends {weights : ℕ → BatchMemory F H → Option WeightRegisters} {blockAQs : ℕ}
    (registers : ∀ inner < numKIter unit, Ends (weights inner m) (WindowWeights unit w inner))
    (quants : ∀ o < kMr unit * 32,
      blockAQs + o < m.size (.bytes .packedA) ∧ m.cell (.bytes .packedA) (blockAQs + o) =
        some ((a (quantRow unit o)).qs (quantDepth unit o))) :
    Ends (dots unit weights blockAQs m) fun inner_acc =>
      ∀ row < kMr unit, ∀ column < kNr unit,
        inner_acc (row / unit.width * 4 + column / unit.width)
          (row % unit.width * unit.width + column % unit.width) =
          blockSum (w column) (a row) := by
  have whole : numKIter unit * (2 * unit.depth) = 32 := by
    cases unit with
    | ime1 => rfl
    | ime2 => rfl
  have place : ∀ inner < numKIter unit, ∀ j < 4, ∀ lane < kBytesPerMIV unit,
      inner * (4 * kBytesPerMIV unit) + j * kBytesPerMIV unit + lane < kMr unit * 32 ∧
      quantRow unit (inner * (4 * kBytesPerMIV unit) + j * kBytesPerMIV unit + lane) =
        j / 2 * unit.width + lane / unit.depth ∧
      quantDepth unit (inner * (4 * kBytesPerMIV unit) + j * kBytesPerMIV unit + lane) =
        inner * (2 * unit.depth) + (j % 2 * unit.depth + lane % unit.depth) := by
    intro inner hi j hj lane hl
    unfold quantRow quantDepth
    cases unit with
    | ime1 =>
        simp only [kBytesPerMIV, kMr, numKIter, MatrixUnit.width, MatrixUnit.depth] at *
        omega
    | ime2 =>
        simp only [kBytesPerMIV, kMr, numKIter, MatrixUnit.width, MatrixUnit.depth] at *
        omega
  have quant : ∀ inner < numKIter unit, ∀ j < 4, ∀ lane < kBytesPerMIV unit,
      blockAQs + inner * (4 * kBytesPerMIV unit) + j * kBytesPerMIV unit + lane <
        m.size (.bytes .packedA) ∧ m.cell (.bytes .packedA)
        (blockAQs + inner * (4 * kBytesPerMIV unit) + j * kBytesPerMIV unit + lane) =
        some (quantRegister unit a inner j lane) := by
    intro inner hi j hj lane hl
    obtain ⟨inside, row, depth⟩ := place inner hi j hj lane hl
    have byte := quants _ inside
    rwa [row, depth, ← Nat.add_assoc, ← Nat.add_assoc] at byte
  have run : Ends (dots unit weights blockAQs m) fun acc => ∀ index < 8,
      ∀ lane < unit.width * unit.width,
      acc index lane = accumulator unit (fun i => quantRegister unit a i (index / 4 * 2))
        (fun i => quantRegister unit a i (index / 4 * 2 + 1))
        (fun i => lowRegister unit w i (index % 4)) (fun i => highRegister unit w i (index % 4))
        (numKIter unit) lane := by
    refine loop_ends (fun inner (acc : ℕ → ℕ → ℤ) => ∀ index < 8, ∀ lane < unit.width * unit.width,
      acc index lane = accumulator unit (fun i => quantRegister unit a i (index / 4 * 2))
        (fun i => quantRegister unit a i (index / 4 * 2 + 1))
        (fun i => lowRegister unit w i (index % 4)) (fun i => highRegister unit w i (index % 4))
        inner lane) (fun index _ lane _ => rfl) fun inner hi acc before => ?_
    refine (registers inner hi).bind fun r known => ?_
    refine (fetchRows_ends (fun j hj lane hl => (quant inner hi j hj lane hl).1)
      fun j hj lane hl => (quant inner hi j hj lane hl).2).map fun a' quants => ?_
    intro index hx lane hl
    refine vmadot_congr hl (vmadot_congr hl (before index hx lane hl)
      (quants (index / 4 * 2) (by omega)) fun l inside => (known (index % 4) (by omega) l inside).1)
      (quants (index / 4 * 2 + 1) (by omega))
      fun l inside => (known (index % 4) (by omega) l inside).2
  refine run.mono fun acc sums => ?_
  intro row hr column hc
  obtain ⟨hx, hl⟩ := tile_lane hr hc
  rw [sums _ hx _ hl]
  refine accumulator_sum unit _ _ _ _ whole (fun k => ((a row).qs k).toInt)
    (fun k => ((nibble (w column) k).toNat : ℤ) - 8) (blockSum_fits (w column) (a row)) ?_ ?_ ?_ ?_
  · intro i _ k hk
    obtain ⟨even, _, parity, _, rest⟩ := operand_row hr hc hk
    rw [quantRegister, even, parity, rest, Nat.zero_mul, Nat.zero_add]
  · intro i _ k hk
    obtain ⟨_, odd, _, parity, rest⟩ := operand_row hr hc hk
    rw [quantRegister, odd, parity, rest, Nat.one_mul]
  · intro i _ k hk
    obtain ⟨same, rest⟩ := operand_column hr hc hk
    rw [lowRegister, same, rest, weightByte_toInt]
  · intro i _ k hk
    obtain ⟨same, rest⟩ := operand_column hr hc hk
    rw [highRegister, same, rest, weightByte_toInt]

end Block

end Pfng.Q40.BatchReduction
