import Mathlib.Data.Rat.Floor
import Pfng.Blocks
import Pfng.Lib.Steps
import Pfng.Q40.Reference
import Pfng.Q4K.Quantizer

/-! The quantisers `quantize_row_q4_0`, `quantize_row_q8_0` and `quantize_row_q8_K` over an ordered
field: every conversion is defined, and every element is kept within a step. -/
namespace Pfng.Quantizers
open Checked Function Finset Folds Register Rounding Steps Q40
open Q4K (array array_ends)

/-- `block_q8_K` with its sums. -/
structure SummedQ8K (α : Type) extends BlockQ8K α where
  bsums : ℕ → BitVec 16

variable {α β : Type} [Field α] [LinearOrder α]

/-- `absolute_max` and `signed_max` of a block. -/
def extreme (x : ℕ → α) : α × α :=
  (List.range 32).foldl (fun (absolute_max, signed_max) i =>
    if absolute_max < |x i| then (|x i|, x i) else (absolute_max, signed_max)) (0, 0)

/-- `amax` of a block of 256. -/
def amax (x : ℕ → α) : α := (List.range 256).foldl (fun m i => max m |x i|) 0

/-- The loop of a quantiser over the blocks of a row, into an output with any contents. -/
def quantizeRow (size : ℕ) (quantize : (ℕ → α) → Option β) (input : ℕ → α) (blocks : ℕ)
    (output : ℕ → β) : Option (ℕ → β) :=
  forUp (fun b output => (quantize fun i => input (b * size + i)).map (update output b)) 0 blocks output

variable [FloorRing α]

/-- `static_cast<int8_t>(x)`, undefined where int8 cannot hold the result. -/
def toInt8 (x : α) : Option ℤ := if Fits 8 (truncate x) then some (truncate x) else none

/-- `std::min<int>(15, static_cast<int8_t>(value + 8.5f))`. -/
def code (value : α) : Option (BitVec 8) :=
  (toInt8 (value + 17 / 2)).map fun q => BitVec.ofInt 8 (min 15 q)

/-- `static_cast<int8_t>(std::round(value))`. -/
def rounded (value : α) : Option (BitVec 8) := (toInt8 (away value : α)).map (BitVec.ofInt 8)

def quantizeQ40 (half : α → α) (x : ℕ → α) : Option (BlockQ40 α) :=
  let scale := (extreme x).2 / -8
  (array 16 (0 : BitVec 8) fun i =>
    (code (x i * inverse scale)).bind fun qlow =>
    (code (x (16 + i) * inverse scale)).map fun (qhigh : BitVec 8) => qlow ||| qhigh <<< 4).map fun qs =>
  ⟨half scale, qs⟩

def quantizeRowQ40 (half : α → α) := quantizeRow 32 (quantizeQ40 half)

def quantizeQ80 (half : α → α) (x : ℕ → α) : Option (BlockQ80 α) :=
  let scale := absoluteMax x / 127
  (array 32 0 fun i => rounded (x i * inverse scale)).map fun qs => ⟨half scale, qs⟩

def quantizeRowQ80 (half : α → α) := quantizeRow 32 (quantizeQ80 half)

def quantizeQ8K (x : ℕ → α) : Option (SummedQ8K α) :=
  let d := amax x / 127
  (array 256 0 fun i => rounded (x i * inverse d)).bind fun qs =>
  (array 16 0 fun i =>
    some ((List.range 16).foldl (fun sum j => sum + (qs (i * 16 + j)).signExtend 16) 0)).map fun bsums =>
  ⟨⟨d, qs⟩, bsums⟩

def quantizeRowQ8K : (ℕ → α) → ℕ → (ℕ → SummedQ8K α) → Option (ℕ → SummedQ8K α) :=
  quantizeRow 256 quantizeQ8K

/-- A block of `n` elements in steps of `d`, with codes of eight bits. -/
structure WithinHalf (n : ℕ) (x : ℕ → α) (d : α) (qs : ℕ → BitVec 8) : Prop where
  range : ∀ i < n, -127 ≤ (qs i).toInt ∧ (qs i).toInt ≤ 127
  error : ∀ i < n, |d * (qs i).toInt - x i| ≤ d / 2
  zero : (∀ i < n, x i = 0) → ∀ i < n, d * (qs i).toInt = 0

/-- A block of nibbles with an offset of eight. -/
structure WithinStep (x : ℕ → α) (o : BlockQ40 α) : Prop where
  range : ∀ i < 32, (nibble o i).toNat ≤ 15
  error : ∀ i < 32, |((nibble o i).toNat - 8) * o.d - x i| ≤ |o.d|
  near : ∀ i < 32, x i / o.d ≤ 15 / 2 → |((nibble o i).toNat - 8) * o.d - x i| ≤ |o.d| / 2
  zero : (∀ i < 32, x i = 0) → ∀ i < 32, ((nibble o i).toNat - 8) * o.d = 0

section Rows

variable {size blocks : ℕ} {quantize : (ℕ → α) → Option β} {P : (ℕ → α) → β → Prop}

omit [Field α] [LinearOrder α] [FloorRing α] in
theorem quantizeRow_ends (each : ∀ x, Ends (quantize x) (P x)) (input : ℕ → α) (output : ℕ → β) :
    Ends (quantizeRow size quantize input blocks output) fun o =>
      ∀ b < blocks, P (fun i => input (b * size + i)) (o b) := by
  have blocks_end : ∀ b < blocks, Ends (quantize fun i => input (b * size + i)) _ :=
    fun b _ => each fun i => input (b * size + i)
  exact updates_ends blocks_end output

end Rows

section Bounds

omit [FloorRing α] in
theorem abs_le_amax (x : ℕ → α) {i : ℕ} (h : i < 256) : |x i| ≤ amax x :=
  ((foldl_max_le_iff (f := fun i => |x i|) (List.range 256)).mp le_rfl).2 i (List.mem_range.mpr h)

omit [FloorRing α] in
theorem amax_nonneg (x : ℕ → α) : 0 ≤ amax x :=
  ((foldl_max_le_iff (f := fun i => |x i|) (List.range 256)).mp le_rfl).1

variable [IsStrictOrderedRing α]

omit [FloorRing α] in
theorem extreme_eq (x : ℕ → α) : |(extreme x).2| = absoluteMax x := by
  have scan : ∀ (l : List ℕ) (m s : α), |s| = m →
      (l.foldl (fun (m, s) i => if m < |x i| then (|x i|, x i) else (m, s)) (m, s)).1 =
        l.foldl (fun m i => max m |x i|) m ∧
      |(l.foldl (fun (m, s) i => if m < |x i| then (|x i|, x i) else (m, s)) (m, s)).2| =
        l.foldl (fun m i => max m |x i|) m := by
    intro l
    induction l with
    | nil => exact fun m s same => ⟨rfl, same⟩
    | cons i l ih =>
        intro m s same
        rw [List.foldl_cons, List.foldl_cons]
        dsimp only
        by_cases larger : m < |x i|
        · rw [if_pos larger, max_eq_right larger.le]
          exact ih _ _ rfl
        · rw [if_neg larger, max_eq_left (not_lt.mp larger)]
          exact ih _ _ same
  exact (scan _ 0 0 abs_zero).2

theorem toInt8_intCast {n : ℤ} (h : |n| ≤ 127) : toInt8 (n : α) = some n := by
  have small : |n| < 2 ^ (8 - 1) := by omega
  rw [toInt8, truncate_intCast, if_pos (fits_of_abs_lt small)]

theorem toInt_ofInt_of_abs_le {n : ℤ} (h : |n| ≤ 127) : (BitVec.ofInt 8 n).toInt = n := by
  obtain ⟨low, high⟩ := abs_le.mp h
  rw [BitVec.toInt_ofInt, Int.bmod_eq_of_le (by omega) (by omega)]

theorem rounded_eq {x m : α} (h : |x| ≤ m) :
    rounded (x * inverse (m / 127)) = some (BitVec.ofInt 8 (away (x / (m / 127)))) := by
  rw [rounded, mul_inverse, toInt8_intCast (abs_away_ratio_le h), Option.map_some]

theorem withinHalf {n : ℕ} {x : ℕ → α} {m : α} (nonneg : 0 ≤ m) (bound : ∀ i < n, |x i| ≤ m)
    {qs : ℕ → BitVec 8} (codes : ∀ i < n, qs i = BitVec.ofInt 8 (away (x i / (m / 127)))) :
    WithinHalf n x (m / 127) qs := by
  have value : ∀ i < n, (qs i).toInt = away (x i / (m / 127)) := by
    intro i hi
    rw [codes i hi, toInt_ofInt_of_abs_le (abs_away_ratio_le (bound i hi))]
  have error : ∀ i < n, |m / 127 * (qs i).toInt - x i| ≤ m / 127 / 2 := by
    intro i hi
    rw [value i hi]
    rcases nonneg.eq_or_lt with rfl | pos
    · have zero : x i = 0 := abs_nonpos_iff.mp (bound i hi)
      simp [zero]
    · have step : 0 < m / 127 := div_pos pos (by norm_num)
      have near := abs_nearest_sub_le (x := x i) step.ne'
      rwa [abs_of_pos step] at near
  refine ⟨fun i hi => ?_, error, fun none_ i hi => ?_⟩
  · rw [value i hi]
    exact abs_le.mp (abs_away_ratio_le (bound i hi))
  · rw [value i hi, none_ i hi, zero_div, away_eq_zero_iff.mpr ⟨by norm_num, by norm_num⟩,
      Int.cast_zero, mul_zero]

end Bounds

section Blocks

variable [IsStrictOrderedRing α] (x : ℕ → α)

theorem quantizeQ80_ends : Ends (quantizeQ80 id x) fun o => WithinHalf 32 x o.d o.qs := by
  have codes := array_ends (0 : BitVec 8) fun i (hi : i < 32) =>
    rounded_eq (abs_le_absoluteMax x hi)
  exact codes.map fun qs same =>
    withinHalf (absoluteMax_nonneg x) (fun i => abs_le_absoluteMax x) same

theorem quantizeQ80_eq (half : α → α) : Ends (quantizeQ80 half x) fun o =>
    o.d = (quantizeBlock half x).d ∧ ∀ i < 32, o.qs i = (quantizeBlock half x).qs i := by
  have codes := array_ends (0 : BitVec 8) fun i (hi : i < 32) =>
    rounded_eq (abs_le_absoluteMax x hi)
  refine codes.map fun qs same => ⟨rfl, fun i hi => ?_⟩
  refine (same i hi).trans ?_
  rw [← mul_inverse]
  rfl

theorem quantizeQ8K_ends : Ends (quantizeQ8K x) fun o => WithinHalf 256 x o.d o.qs ∧
    ∀ i < 16, (o.bsums i).toInt = ∑ j ∈ range 16, (o.qs (i * 16 + j)).toInt := by
  have codes := array_ends (0 : BitVec 8) fun i (hi : i < 256) =>
    rounded_eq (abs_le_amax x hi)
  refine codes.bind fun qs same => ?_
  have bounds := withinHalf (amax_nonneg x) (fun i => abs_le_amax x) same
  refine (array_ends 0 fun i _ => rfl).map fun bsums sums => ⟨bounds, fun i hi => ?_⟩
  have terms : ∀ j < 16, |(qs (i * 16 + j)).toInt| ≤ 127 := fun j hj =>
    abs_le.mpr (bounds.range _ (by omega))
  dsimp only
  rw [sums i hi, toInt_foldl_add]
  simp only [BitVec.toInt_signExtend_of_le (by decide : 8 ≤ 16)]
  exact (wrap_eq_self_iff (by decide) _).mpr (sum_fits terms (by decide))

omit [Field α] [LinearOrder α] [FloorRing α] [IsStrictOrderedRing α] in
theorem nibbles_of_pair {low high : ℤ} (hl : 0 ≤ low ∧ low ≤ 15) (hh : 0 ≤ high ∧ high ≤ 15) :
    (((BitVec.ofInt 8 low ||| BitVec.ofInt 8 high <<< 4) &&& 0x0f).toNat : ℤ) = low ∧
      (((BitVec.ofInt 8 low ||| BitVec.ofInt 8 high <<< 4) >>> 4).toNat : ℤ) = high := by
  have value : ∀ n : ℤ, 0 ≤ n ∧ n ≤ 15 →
      ((BitVec.ofInt 8 n).toNat : ℤ) = n ∧ (BitVec.ofInt 8 n).toNat < 2 ^ 4 := by
    intro n hn
    rw [BitVec.toNat_ofInt]
    omega
  constructor
  · exact (congrArg (fun b : BitVec 8 => (b.toNat : ℤ))
      (Words.fields_and_mask (s := 4) (value low hl).2)).trans (value low hl).1
  · rw [Words.fields_ushiftRight (value low hl).2 (value high hh).2, (value high hh).1]

theorem code_eq {y : α} (low : -8 ≤ y) (high : y ≤ 8) :
    code y = some (BitVec.ofInt 8 (clampedCode y)) := by
  have fits := floor_range low high
  rw [code, toInt8, truncate_of_nonneg (by linarith), if_pos ⟨by omega, by omega⟩, Option.map_some,
    clampedCode]

theorem abs_ratio_extreme_le {i : ℕ} (h : i < 32) : |x i / ((extreme x).2 / -8)| ≤ 8 := by
  have bound := abs_le_absoluteMax x h
  rw [← extreme_eq] at bound
  rw [abs_div, abs_div, abs_neg, abs_of_pos (by norm_num : (0 : α) < 8)]
  refine div_le_of_le_mul₀ (div_nonneg (abs_nonneg _) (by norm_num)) (by norm_num) ?_
  rwa [mul_div_cancel₀ _ (by norm_num : (8 : α) ≠ 0)]

omit [Field α] [LinearOrder α] [FloorRing α] [IsStrictOrderedRing α] in
theorem nibble_packed {c : ℕ → ℤ} (bounds : ∀ i < 32, 0 ≤ c i ∧ c i ≤ 15) {o : BlockQ40 α}
    (packed : ∀ i < 16, o.qs i = BitVec.ofInt 8 (c i) ||| BitVec.ofInt 8 (c (16 + i)) <<< 4)
    {i : ℕ} (h : i < 32) : ((nibble o i).toNat : ℤ) = c i := by
  by_cases first : i < 16
  · rw [nibble, if_pos first, packed i first]
    exact (nibbles_of_pair (bounds i h) (bounds (16 + i) (by omega))).1
  · have index : 16 + (i - 16) = i := by omega
    rw [nibble, if_neg first, packed (i - 16) (by omega), index]
    exact (nibbles_of_pair (bounds (i - 16) (by omega)) (bounds i h)).2

theorem withinStep {d : α} (ratios : ∀ i < 32, |x i / d| ≤ 8) (empty : d = 0 → ∀ i < 32, x i = 0)
    {o : BlockQ40 α} (step : o.d = d)
    (codes : ∀ i < 32, ((nibble o i).toNat : ℤ) = clampedCode (x i / d)) : WithinStep x o := by
  have cast : ∀ i < 32, ((nibble o i).toNat : α) = clampedCode (x i / d) := by
    intro i hi
    rw [← codes i hi, Int.cast_natCast]
  have scaled : ∀ i < 32, ∀ c : α, |(clampedCode (x i / d) : α) - 8 - x i / d| ≤ c →
      |((nibble o i).toNat - 8) * o.d - x i| ≤ |o.d| * c := by
    intro i hi c near
    rw [step, cast i hi]
    rcases eq_or_ne d 0 with rfl | nonzero
    · rw [empty rfl i hi, mul_zero, sub_zero, abs_zero, zero_mul]
    · rw [mul_comm, abs_mul_sub nonzero]
      exact mul_le_mul_of_nonneg_left near (abs_nonneg d)
  have error : ∀ i < 32, |((nibble o i).toNat - 8) * o.d - x i| ≤ |o.d| := by
    intro i hi
    have one := scaled i hi 1 (abs_clampedCode_sub_le_one (abs_le.mp (ratios i hi)).2)
    rwa [mul_one] at one
  refine ⟨?_, error, ?_, ?_⟩
  · intro i hi
    have top := codes i hi
    have := (clampedCode_range (abs_le.mp (ratios i hi)).1).2
    omega
  · intro i hi inside
    rw [step] at inside
    have half := scaled i hi (1 / 2) (abs_clampedCode_sub_le inside)
    rwa [mul_one_div] at half
  · intro none_ i hi
    have eight : clampedCode (0 : α) = 8 := by
      have floor : ⌊(0 : α) + 17 / 2⌋ = 8 := Int.floor_eq_iff.mpr ⟨by norm_num, by norm_num⟩
      rw [clampedCode, floor]
      rfl
    rw [cast i hi, none_ i hi, zero_div, eight, Int.cast_ofNat, sub_self, zero_mul]

theorem quantizeQ40_ends : Ends (quantizeQ40 id x) (WithinStep x) := by
  have ratios : ∀ i < 32, |x i / ((extreme x).2 / -8)| ≤ 8 := fun i hi => abs_ratio_extreme_le x hi
  have code_of : ∀ i < 32, code (x i * inverse ((extreme x).2 / -8)) =
      some (BitVec.ofInt 8 (clampedCode (x i / ((extreme x).2 / -8)))) := by
    intro i hi
    obtain ⟨low, high⟩ := abs_le.mp (ratios i hi)
    rw [mul_inverse, code_eq low high]
  have byte : ∀ i < 16, ((code (x i * inverse ((extreme x).2 / -8))).bind fun qlow =>
      (code (x (16 + i) * inverse ((extreme x).2 / -8))).map fun (qhigh : BitVec 8) =>
        qlow ||| qhigh <<< 4) = some (BitVec.ofInt 8 (clampedCode (x i / ((extreme x).2 / -8))) |||
      BitVec.ofInt 8 (clampedCode (x (16 + i) / ((extreme x).2 / -8))) <<< 4) := by
    intro i hi
    rw [code_of i (by omega), Option.bind_some, code_of (16 + i) (by omega), Option.map_some]
  refine (array_ends 0 byte).map fun qs packed => withinStep x ratios ?_ rfl ?_
  · intro none_ i hi
    have zero : (extreme x).2 = 0 := (div_eq_zero_iff.mp none_).resolve_right (by norm_num)
    have bound := abs_le_absoluteMax x hi
    rw [← extreme_eq, zero, abs_zero] at bound
    exact abs_nonpos_iff.mp bound
  · intro i hi
    exact nibble_packed (fun i hi => clampedCode_range (abs_le.mp (ratios i hi)).1) packed hi

end Blocks

variable [IsStrictOrderedRing α]

/-- In a row of any number of blocks, every element is kept within the bounds of its format. -/
theorem quantizers_within_step (input : ℕ → α) (blocks : ℕ) (q40 : ℕ → BlockQ40 α)
    (q80 : ℕ → BlockQ80 α) (q8K : ℕ → SummedQ8K α) :
    Ends (quantizeRowQ40 id input blocks q40) (fun o => ∀ b < blocks,
      WithinStep (fun i => input (b * 32 + i)) (o b)) ∧
    Ends (quantizeRowQ80 id input blocks q80) (fun o => ∀ b < blocks,
      WithinHalf 32 (fun i => input (b * 32 + i)) (o b).d (o b).qs) ∧
    Ends (quantizeRowQ8K input blocks q8K) fun o => ∀ b < blocks,
      WithinHalf 256 (fun i => input (b * 256 + i)) (o b).d (o b).qs ∧
      ∀ i < 16, ((o b).bsums i).toInt = ∑ j ∈ range 16, ((o b).qs (i * 16 + j)).toInt :=
  ⟨quantizeRow_ends quantizeQ40_ends input q40, quantizeRow_ends quantizeQ80_ends input q80,
    quantizeRow_ends quantizeQ8K_ends input q8K⟩

def rampRow (i : ℕ) : ℚ := (i % 37 : ℕ) - 11

theorem ramp_within_step :
    Ends (quantizeRowQ40 id rampRow 3 fun _ => ⟨0, fun _ => 0⟩) (fun o => ∀ b < 3,
      WithinStep (fun i => rampRow (b * 32 + i)) (o b)) ∧
    Ends (quantizeRowQ80 id rampRow 3 fun _ => ⟨0, fun _ => 0⟩) (fun o => ∀ b < 3,
      WithinHalf 32 (fun i => rampRow (b * 32 + i)) (o b).d (o b).qs) ∧
    Ends (quantizeRowQ8K rampRow 3 fun _ => ⟨⟨0, fun _ => 0⟩, fun _ => 0⟩) fun o => ∀ b < 3,
      WithinHalf 256 (fun i => rampRow (b * 256 + i)) (o b).d (o b).qs ∧
      ∀ i < 16, ((o b).bsums i).toInt = ∑ j ∈ range 16, ((o b).qs (i * 16 + j)).toInt :=
  quantizers_within_step rampRow 3 _ _ _

end Pfng.Quantizers

