import Mathlib.Data.Rat.Floor
import Pfng.Q40.Ime1Packing

/-! When the quants of the IME1 activation packing are those of the reference: the hardware rounds
ties to even, the reference away from zero. -/
namespace Pfng.Q40
open Checked Rounding Register Extended Finset Folds

section Block

variable {α : Type} [Field α] [LinearOrder α]

def largest (x : ℕ → α) : α := (range 32).sup' nonempty_range_32 fun i => |x i|

def Tie (x : ℕ → α) (k : ℕ) : Prop := ∃ j : ℕ, 254 * |x k| = (4 * j + 1) * largest x

variable [IsStrictOrderedRing α]

theorem absoluteMax_eq (x : ℕ → α) : absoluteMax x = largest x := by
  rw [absoluteMax, foldl_max_eq nonempty_range_32, max_eq_right]
  · rfl
  · exact (abs_nonneg (x 0)).trans (le_sup' (fun i => |x i|) (mem_range.mpr (by decide)))

theorem tie_iff {x : ℕ → α} (nonzero : largest x ≠ 0) (k : ℕ) :
    (∃ j : ℕ, |x k * 127 / largest x| = 2 * j + 1 / 2) ↔ Tie x k := by
  have pos : 0 < largest x := by
    rw [← absoluteMax_eq] at nonzero ⊢
    exact lt_of_le_of_ne (absoluteMax_nonneg x) (Ne.symm nonzero)
  have hundred : |(127 : α)| = 127 := abs_of_pos (by norm_num)
  refine exists_congr fun j => ?_
  rw [abs_div, abs_mul, abs_of_pos pos, hundred, div_eq_iff nonzero]
  constructor
  · intro h
    linarith
  · intro h
    linarith

theorem ofInt_inj {a b : ℤ} (ha : |a| ≤ 127) (hb : |b| ≤ 127) :
    BitVec.ofInt 8 a = BitVec.ofInt 8 b ↔ a = b := by
  constructor
  · intro same
    have ints := congrArg BitVec.toInt same
    rw [abs_le] at ha hb
    rw [BitVec.toInt_ofInt, BitVec.toInt_ofInt, Int.bmod_eq_of_le (by omega) (by omega),
      Int.bmod_eq_of_le (by omega) (by omega)] at ints
    exact ints
  · rintro rfl
    rfl

theorem saturate_of_abs_le {w : ℕ} {x : ℤ} (h : |x| ≤ 127) (wide : 8 ≤ w) : saturate w x = x := by
  have big : (2 : ℤ)^7 ≤ 2^(w-1) := pow_le_pow_right₀ (by decide) (by omega)
  rw [abs_le] at h
  rw [saturate]
  omega

variable [FloorRing α]

theorem abs_toEven_le {x : α} (h : |x| ≤ 127) : |toEven x| ≤ 127 := by
  obtain ⟨low, high⟩ := abs_le.mp h
  refine abs_le.mpr ⟨le_toEven ?_, toEven_le ?_⟩
  · exact_mod_cast low
  · exact_mod_cast high

theorem rowQuants_eq {x : ℕ → α} (nonzero : largest x ≠ 0) {k : ℕ} (hk : k < 32) :
    rowQuants x k = BitVec.ofInt 8 (toEven (x k * 127 / largest x)) := by
  have scale : rowScale x = largest x * (1 / 127) := by
    rw [← absoluteMax_eq]
    rfl
  have scaled : x k * (1 / (largest x * (1 / 127))) = x k * 127 / largest x := by
    field_simp
  have small := abs_scaled_le x hk
  rw [mul_inverse_eq, absoluteMax_eq] at small
  have rounded := abs_toEven_le small
  rw [rowQuants, scale, div_finite _ (mul_ne_zero nonzero (by norm_num)), mul_finite, vfcvt, scaled,
    saturate_of_abs_le rounded (by decide), saturate_of_abs_le rounded (by decide),
    saturate_of_abs_le rounded (by decide)]

theorem rowQuants_eq_iff (half : α → α) {x : ℕ → α} (nonzero : largest x ≠ 0) {k : ℕ} (hk : k < 32) :
    rowQuants x k = (quantizeBlock half x).qs k ↔ ¬ Tie x k := by
  have small := abs_scaled_le x hk
  have away := abs_away_scaled_le x hk
  rw [mul_inverse_eq, absoluteMax_eq] at small away
  have reference : (quantizeBlock half x).qs k =
      BitVec.ofInt 8 (Rounding.away (x k * 127 / largest x)) := by
    change BitVec.ofInt 8 (Rounding.away (x k * inverse (absoluteMax x / 127))) = _
    rw [mul_inverse_eq, absoluteMax_eq]
  rw [rowQuants_eq nonzero hk, reference, ofInt_inj (abs_toEven_le small) away, ← tie_iff nonzero,
    ← toEven_ne_away_iff, not_not]

end Block

section Packing

variable {α : Type} [Field α] [LinearOrder α] [FloorRing α]

/-- The packed activation is the reference one: its scales, and its quants in every block that is
not zero. -/
structure Describes (mr : ℕ) (half : α → α) (activation : ℕ → α) (tiles blocks : ℕ)
    (memory : PackedMemory α) : Prop where
  scale : ∀ row < tiles * mr, ∀ b < blocks, storedScale mr blocks row b memory =
    some (quantizedActivation half activation blocks row b).d
  quant : ∀ row < tiles * mr, ∀ b < blocks, largest (blockOf activation blocks row b) ≠ 0 →
    ∀ k < 32, storedQuant mr blocks row b k memory =
      some ((quantizedActivation half activation blocks row b).qs k)

def NoTie (mr : ℕ) (activation : ℕ → α) (tiles blocks : ℕ) : Prop :=
  ∀ row < tiles * mr, ∀ b < blocks, largest (blockOf activation blocks row b) ≠ 0 →
    ∀ k < 32, ¬ Tie (blockOf activation blocks row b) k

variable [IsStrictOrderedRing α] {mr tiles blocks : ℕ} {half : α → α} {activation : ℕ → α}

theorem describes_iff {c : Option (PackedMemory α)} (run : Ends c (Stored mr half activation tiles blocks)) :
    Ends c (Describes mr half activation tiles blocks) ↔ NoTie mr activation tiles blocks := by
  obtain ⟨memory, same, stored⟩ := run
  have quant : ∀ row < tiles * mr, ∀ b < blocks, largest (blockOf activation blocks row b) ≠ 0 →
      ∀ k < 32, (storedQuant mr blocks row b k memory =
        some ((quantizedActivation half activation blocks row b).qs k) ↔
          ¬ Tie (blockOf activation blocks row b) k) := by
    intro row hr b hb nonzero k hk
    rw [stored.quant row hr b hb k hk, Option.some_inj]
    exact rowQuants_eq_iff half nonzero hk
  constructor
  · rintro ⟨memory', same', describes⟩ row hr b hb nonzero k hk
    rw [same, Option.some_inj] at same'
    subst same'
    exact (quant row hr b hb nonzero k hk).mp (describes.quant row hr b hb nonzero k hk)
  · intro none
    exact ⟨memory, same, stored.scale, fun row hr b hb nonzero k hk =>
      (quant row hr b hb nonzero k hk).mpr (none row hr b hb nonzero k hk)⟩

/-- Both packings hold the reference Q8_0 activation just when no element is at a tie. -/
theorem packed_reference_iff (memory : PackedMemory α) :
    (memory.size = packedSize 4 tiles blocks →
      (Ends (initializeM4 half activation tiles blocks memory)
        (Describes 4 half activation tiles blocks) ↔ NoTie 4 activation tiles blocks)) ∧
    (memory.size = packedSize 8 tiles blocks →
      (Ends (initializeM8 half activation tiles blocks memory)
        (Describes 8 half activation tiles blocks) ↔ NoTie 8 activation tiles blocks)) :=
  ⟨fun sizes => describes_iff (initializeM4_ends sizes),
    fun sizes => describes_iff (initializeM8_ends half activation sizes)⟩

end Packing

def halfStep (i : ℕ) : ℚ := if i = 0 then 127 else if i = 1 then 1 / 2 else 0

def emptyPacked (mr tiles blocks : ℕ) : PackedMemory ℚ where
  size := packedSize mr tiles blocks
  cell := fun k _ => match k with
    | (_, .floats) => 0
    | (_, .bytes) => 0

theorem halfStep_tie : ¬ NoTie 4 halfStep 1 1 ∧ ¬ NoTie 8 halfStep 1 1 := by
  have top : largest (blockOf halfStep 1 0 0) = 127 := by decide +kernel
  have tie : Tie (blockOf halfStep 1 0 0) 1 := by
    refine ⟨0, ?_⟩
    rw [top]
    decide +kernel
  have nonzero : largest (blockOf halfStep 1 0 0) ≠ 0 := by
    rw [top]
    decide
  exact ⟨fun none => none 0 (by decide) 0 (by decide) nonzero 1 (by decide) tie,
    fun none => none 0 (by decide) 0 (by decide) nonzero 1 (by decide) tie⟩

/-- One half becomes quant 0 where the reference has 1. -/
theorem half_step_parts :
    Ends (initializeM4 id halfStep 1 1 (emptyPacked 4 1 1)) (fun m => storedQuant 4 1 0 0 1 m = some 0) ∧
    Ends (initializeM8 id halfStep 1 1 (emptyPacked 8 1 1)) (fun m => storedQuant 8 1 0 0 1 m = some 0) ∧
    (quantizedActivation id halfStep 1 0 0).qs 1 = 1 ∧
    ¬ Ends (initializeM4 id halfStep 1 1 (emptyPacked 4 1 1)) (Describes 4 id halfStep 1 1) ∧
    ¬ Ends (initializeM8 id halfStep 1 1 (emptyPacked 8 1 1)) (Describes 8 id halfStep 1 1) := by
  have even : rowQuants (blockOf halfStep 1 0 0) 1 = 0 := by decide +kernel
  have four : Ends (initializeM4 id halfStep 1 1 (emptyPacked 4 1 1)) (Stored 4 id halfStep 1 1) :=
    initializeM4_ends rfl
  have eight : Ends (initializeM8 id halfStep 1 1 (emptyPacked 8 1 1)) (Stored 8 id halfStep 1 1) :=
    initializeM8_ends id halfStep rfl
  refine ⟨four.mono fun m stored => ?_, eight.mono fun m stored => ?_, by decide +kernel, ?_, ?_⟩
  · rw [stored.quant 0 (by decide) 0 (by decide) 1 (by decide), even]
  · rw [stored.quant 0 (by decide) 0 (by decide) 1 (by decide), even]
  · rw [describes_iff four]
    exact halfStep_tie.1
  · rw [describes_iff eight]
    exact halfStep_tie.2

def oddRows (i : ℕ) : ℚ := if i % 32 = 0 then (31 + 2 * (i / 32) : ℕ) else (i * 7 % 61 : ℕ) - 30

theorem oddRows_noTie {mr tiles : ℕ} (rows : tiles * mr ≤ 8) : NoTie mr oddRows tiles 2 := by
  have top : ∀ row < 8, ∀ b < 2, largest (blockOf oddRows 2 row b) = (31 + 2 * (row * 2 + b) : ℕ) := by
    decide +kernel
  have whole : ∀ i, ∃ n : ℤ, oddRows i = n := by
    intro i
    rw [oddRows]
    split
    · exact ⟨(31 + 2 * (i / 32) : ℕ), by push_cast; rfl⟩
    · exact ⟨(i * 7 % 61 : ℕ) - 30, by push_cast; rfl⟩
  rintro row hr b hb _ k hk ⟨j, tie⟩
  obtain ⟨n, integer⟩ := whole (row * (2 * 32) + (b * 32 + k))
  rw [top row (hr.trans_le rows) b hb, blockOf, integer] at tie
  -- the left side is even, the right side is odd
  have parity : 254 * |n| = (4 * j + 1) * (31 + 2 * (row * 2 + b) : ℕ) := by exact_mod_cast tie
  have first : (4 * (j : ℤ) + 1) % 2 = 1 := by omega
  have second : ((31 + 2 * (row * 2 + b) : ℕ) : ℤ) % 2 = 1 := by omega
  have odd : (254 * |n|) % 2 = 1 := by rw [parity, Int.mul_emod, first, second]; rfl
  omega

/-- Two tiles of four rows, and one of eight, are packed as the reference has them. -/
theorem odd_rows_described :
    Ends (initializeM4 id oddRows 2 2 (emptyPacked 4 2 2)) (Describes 4 id oddRows 2 2) ∧
    Ends (initializeM8 id oddRows 1 2 (emptyPacked 8 1 2)) (Describes 8 id oddRows 1 2) :=
  ⟨((packed_reference_iff (emptyPacked 4 2 2)).1 rfl).mpr (oddRows_noTie (by decide)),
    ((packed_reference_iff (emptyPacked 8 1 2)).2 rfl).mpr (oddRows_noTie (by decide))⟩

end Pfng.Q40
