import Pfng.Lib.Steps
import Pfng.Q4K.Product
import Pfng.Q4K.RoundTrip
import Pfng.Quantizers

/-! How far the weights that `dot_q4_K_q8_K` reads from a quantised block are from the weights that
were quantised. The quantiser keeps an offset in steps, and its reader takes it as it is. -/
namespace Pfng.Q4K
open Checked Finset Register Rounding Steps

variable {α : Type} [Field α] [LinearOrder α]

/-- A weight as the reader rebuilds it: `d * scales[sb] * q - dmin * mins[sb]`. -/
def reconstructed (o : BlockQ4K α) (sb j : ℕ) : α :=
  o.d * ((unpackScales o.scales).scales sb).toNat * (dotQuant o sb j).toNat -
    o.dmin * ((unpackScales o.scales).mins sb).toNat

/-- What the reader subtracts from the elements of a sub-block. -/
def subtracted (o : BlockQ4K α) (sb : ℕ) : α := o.dmin * ((unpackScales o.scales).mins sb).toNat

/-- A fifteenth of the largest range of a sub-block that includes zero. -/
def spread (x : ℕ → α) : α :=
  (range 8).sup' Folds.nonempty_range_8 fun sb =>
    (max (highest x sb) 0 - min (lowest x sb) 0) / 15

def reach (x : ℕ → α) : α :=
  (range 8).sup' Folds.nonempty_range_8 fun sb => -min (lowest x sb) 0

/-- Every weight is rebuilt as well as the format can. -/
def Approximates (x : ℕ → α) (o : BlockQ4K α) : Prop :=
  ∀ sb < 8, ∀ j < 32,
    |reconstructed o sb j - x (sb * 32 + j)| ≤ (1 / 2 + 15 / 126) * spread x + reach x / 126

/-- In 126ths: what the rounding of a scale and of the codes may lose. -/
def stepLoss (x : ℕ → α) (sb : ℕ) : α :=
  if step x sb = 0 then 0 else 63 * step x sb + 15 * peak (step x)

/-- In 126ths: what the rounding of a minimum may lose. Above zero there is none. -/
def minLoss (x : ℕ → α) (sb : ℕ) : α := if 0 ≤ lowest x sb then 0 else peak (depth x)

/-- How far the offset that is stored is from the one that the reader should subtract: it is stored in
steps, and not at all above zero. -/
def offBy (x : ℕ → α) (sb : ℕ) : α :=
  if 0 ≤ lowest x sb then lowest x sb else |depth x sb + lowest x sb|

/-- No minimum rounds to a negative field. -/
def NoneNegative (x : ℕ → α) : Prop := ∀ i < 8, Rounds (depth x i) (peak (depth x))

/-- A minimum below zero that is packed into one of the last four fields is aligned. -/
def MinAligned (x : ℕ → α) (i : ℕ) : Prop :=
  4 ≤ i → lowest x i < 0 → Aligned (depth x i) (peak (depth x))

/-- The last four fields are aligned, no minimum is negative where minimums count, and the offsets are
off by no more than the bound leaves beside the roundings. -/
structure Representable (x : ℕ → α) : Prop where
  scales : ∀ i, 4 ≤ i → i < 8 → Aligned (step x i) (peak (step x))
  mins : ∀ i < 8, MinAligned x i
  offsets : NoneNegative x ∨ peak (depth x) = 0 ∧ ∀ i < 8, -(2^32 + 1) < 2 * depth x i
  loss : ∀ sb < 8, 126 * offBy x sb + minLoss x sb + stepLoss x sb ≤ 78 * spread x + reach x

/-- What a block that is rebuilt within the bound must have in common with a representable one. -/
def OffsetsFit (x : ℕ → α) : Prop :=
  NoneNegative x ∨ peak (depth x) = 0 → ∀ sb < 8, MinAligned x sb →
    126 * offBy x sb ≤ 78 * spread x + reach x + minLoss x sb

/-- The quantiser makes none of its slips: the last four fields are aligned, no sub-block lies above
zero, and an offset in steps is the offset itself. -/
structure Slipless (x : ℕ → α) : Prop where
  scales : ∀ i, 4 ≤ i → i < 8 → Aligned (step x i) (peak (step x))
  mins : ∀ i < 8, MinAligned x i
  below : ∀ sb < 8, lowest x sb ≤ 0
  offset : ∀ sb < 8, lowest x sb = 0 ∨ step x sb = 0 ∨ step x sb = 1

variable [IsStrictOrderedRing α]

section Offsets

variable {x : ℕ → α} {sb : ℕ}

theorem depth_nonpos (above : 0 ≤ lowest x sb) : depth x sb ≤ 0 := by
  rw [depth, ← ite_not, ← orOne]
  exact div_nonpos_of_nonpos_of_nonneg (neg_nonpos.mpr above) (orOne_pos (step_nonneg x sb)).le

theorem depth_pos (below : lowest x sb < 0) : 0 < depth x sb := by
  rw [depth, ← ite_not, ← orOne]
  exact div_pos (neg_pos.mpr below) (orOne_pos (step_nonneg x sb))

theorem le_reach (x : ℕ → α) (h : sb < 8) : -lowest x sb ≤ reach x := by
  have most := le_sup' (fun sb => -min (lowest x sb) 0) (mem_range.mpr h)
  exact (neg_le_neg (min_le_left _ _)).trans most

theorem reach_nonneg (x : ℕ → α) : 0 ≤ reach x := by
  have most := le_sup' (fun sb => -min (lowest x sb) 0) (mem_range.mpr (by decide : 0 < 8))
  have zero : (0 : α) ≤ -min (lowest x 0) 0 := neg_nonneg.mpr (min_le_right _ _)
  exact zero.trans most

theorem step_le_spread (x : ℕ → α) (h : sb < 8) : step x sb ≤ spread x := by
  have most := le_sup' (fun sb => (max (highest x sb) 0 - min (lowest x sb) 0) / 15) (mem_range.mpr h)
  refine le_trans ?_ most
  rw [step]
  have high := le_max_left (highest x sb) 0
  have low := min_le_left (lowest x sb) 0
  linarith

theorem peak_step_le (x : ℕ → α) : peak (step x) ≤ spread x :=
  max_le ((step_nonneg x 0).trans (step_le_spread x (by decide)))
    (sup'_le _ _ fun _ h => step_le_spread x (mem_range.mp h))

theorem stepLoss_le (x : ℕ → α) (h : sb < 8) : stepLoss x sb ≤ 78 * spread x := by
  have own := step_le_spread x h
  have all := peak_step_le x
  rw [stepLoss]
  split
  · have nonneg := (step_nonneg x sb).trans own
    linarith
  · linarith

theorem Slipless.depth_eq (ok : Slipless x) (h : sb < 8) : depth x sb = -lowest x sb := by
  rcases ok.offset sb h with zero | flat | unit
  · rw [depth, zero, neg_zero, zero_div]
  · rw [depth, if_pos flat, div_one]
  · rw [depth, unit, if_neg one_ne_zero, div_one]

theorem Slipless.peak_le (ok : Slipless x) : peak (depth x) ≤ reach x := by
  refine max_le (reach_nonneg x) (sup'_le _ _ fun sb h => ?_)
  rw [ok.depth_eq (mem_range.mp h)]
  exact le_reach x (mem_range.mp h)

theorem Slipless.offBy_eq (ok : Slipless x) (h : sb < 8) : offBy x sb = 0 := by
  rw [offBy]
  split
  · exact le_antisymm (ok.below sb h) ‹_›
  · rw [ok.depth_eq h, neg_add_cancel, abs_zero]

/-- Where the quantiser makes no slip nothing is left of the condition. -/
theorem Slipless.representable (ok : Slipless x) : Representable x where
  scales := ok.scales
  mins := ok.mins
  offsets := .inl fun i h => by
    refine rounds_of_nonneg ?_ (peak_nonneg _)
    rw [ok.depth_eq h]
    exact neg_nonneg.mpr (ok.below i h)
  loss sb h := by
    have steps := stepLoss_le x h
    have most : minLoss x sb ≤ reach x := by
      rw [minLoss]
      split
      · exact reach_nonneg x
      · exact ok.peak_le
    rw [ok.offBy_eq h]
    linarith

end Offsets

variable [FloorRing α]

theorem abs_share_sub_le {part whole : α} {n : ℤ} (nonneg : 0 ≤ whole) (le : part ≤ whole)
    (empty : whole = 0 → part = 0) (same : share part whole = some n) :
    |whole / 63 * n - part| ≤ whole / 126 := by
  rw [eq_away_of_share nonneg le same]
  rcases nonneg.eq_or_lt with rfl | pos
  · simp [empty rfl]
  · have unit : 0 < whole / 63 := div_pos pos (by norm_num)
    have near := abs_nearest_sub_le (x := part) unit.ne'
    rw [abs_of_pos unit] at near
    rw [orOne, if_pos unit.ne']
    linarith

theorem abs_level_sub_le (x : ℕ → α) {sb j : ℕ} (h : j < 32) :
    |step x sb * level x sb j - (x (sb * 32 + j) - lowest x sb)| ≤ step x sb / 2 := by
  have below : lowest x sb ≤ x (sb * 32 + j) := inf'_le _ (mem_range.mpr h)
  have above : x (sb * 32 + j) ≤ highest x sb := le_sup' (fun j => x (sb * 32 + j)) (mem_range.mpr h)
  rcases (step_nonneg x sb).eq_or_lt with flat | pos
  · have same : x (sb * 32 + j) = lowest x sb := by
      rw [step] at flat
      linarith
    rw [← flat, same]
    simp
  · have near := abs_nearest_sub_le (x := x (sb * 32 + j) - lowest x sb) pos.ne'
    rw [abs_of_pos pos] at near
    rw [level, orOne, if_pos pos.ne']
    exact near

theorem dotQuant_levels (x : ℕ → α) {o : BlockQ4K α} {sb j : ℕ} (h : sb < 8) (hj : j < 32)
    (quants : ∀ pair < 4, ∀ j < 32, o.qs (pair * 32 + j) = levels x pair j) :
    ((dotQuant o sb j).toNat : ℤ) = level x sb j := by
  have pair := Quantizers.nibbles_of_pair (level_range x (sb / 2 * 2) hj)
    (level_range x (sb / 2 * 2 + 1) hj)
  rw [dotQuant, quants (sb / 2) (by omega) j hj, levels]
  by_cases even : sb % 2 = 0
  · rw [if_pos even]
    refine pair.1.trans ?_
    rw [show sb / 2 * 2 = sb by omega]
  · rw [if_neg even]
    refine pair.2.trans ?_
    rw [show sb / 2 * 2 + 1 = sb by omega]

theorem level_code (x : ℕ → α) (sb : ℕ) {j : ℕ} (h : j < 32) :
    (0 : α) ≤ level x sb j ∧ (level x sb j : α) ≤ 15 := by
  obtain ⟨low, high⟩ := level_range x sb h
  exact ⟨by exact_mod_cast low, by exact_mod_cast high⟩

theorem scale_eq_zero {x : ℕ → α} {n : ℤ} {sb : ℕ} (same : scaleField x sb = some n)
    (flat : step x sb = 0) : n = 0 := by
  rw [scaleField_eq, share, flat, zero_div, intRound, away_zero, if_pos (by decide)] at same
  exact (Option.some_inj.mp same).symm

theorem abs_scale_sub_le {x : ℕ → α} {n : ℤ} {sb : ℕ} (h : sb < 8) (same : scaleField x sb = some n) :
    |peak (step x) / 63 * n - step x sb| ≤ if step x sb = 0 then 0 else peak (step x) / 126 := by
  split
  · rw [scale_eq_zero same ‹_›, ‹step x sb = 0›]
    simp
  · refine abs_share_sub_le (peak_nonneg _) (le_peak _ h) (fun none_ => ?_) (scaleField_eq x sb ▸ same)
    exact le_antisymm (none_ ▸ le_peak _ h) (step_nonneg x sb)

section Block

variable {x : ℕ → α} {s m : ℕ → ℤ} {o : BlockQ4K α} {sb : ℕ}

theorem Encoded.scale_eq (encoded : Encoded id x s m o)
    (scales : ∀ i, 4 ≤ i → i < 8 → Aligned (step x i) (peak (step x))) (h : sb < 8) :
    (((unpackScales o.scales).scales sb).toNat : ℤ) = s sb := by
  obtain ⟨low, high⟩ := encoded.scale_range sb h
  rw [unpackScales_scales _ h, encoded.q4Scale_eq h, stored_eq_iff low high]
  intro last
  have same := encoded.scale sb h
  rw [scaleField_eq] at same
  exact (aligned_iff (peak_nonneg _) (le_peak _ h) same low).mpr (scales sb last h)

/-- The errors of scale and codes, and that of the offset. -/
theorem Encoded.abs_sub_le (encoded : Encoded id x s m o)
    (scales : ∀ i, 4 ≤ i → i < 8 → Aligned (step x i) (peak (step x))) (h : sb < 8) {j : ℕ}
    (hj : j < 32) : |reconstructed o sb j - x (sb * 32 + j)| ≤
      stepLoss x sb / 126 + |subtracted o sb + lowest x sb| := by
  have scale : (((unpackScales o.scales).scales sb).toNat : α) = s sb := by
    exact_mod_cast congrArg (fun n : ℤ => (n : α)) (encoded.scale_eq scales h)
  have quant : ((dotQuant o sb j).toNat : α) = level x sb j := by
    exact_mod_cast congrArg (fun n : ℤ => (n : α)) (dotQuant_levels x h hj encoded.quants)
  have code := level_code x sb hj
  have total := abs_affine_sub_le code.1 code.2 (abs_scale_sub_le h (encoded.scale sb h))
    (abs_level_sub_le x hj) (le_refl |subtracted o sb + lowest x sb|)
  rw [reconstructed, scale, quant, ← subtracted, encoded.d, ds, maxs_eq]
  refine total.trans ?_
  rw [stepLoss]
  split
  · linarith
  · linarith

theorem Encoded.min_eq (encoded : Encoded id x s m o) (rounds : NoneNegative x) (aligned : MinAligned x sb)
    (h : sb < 8) :
    ((unpackScales o.scales).mins sb).toNat = (m sb : α) ∧ (0 ≤ lowest x sb → m sb = 0) := by
  have r := encoded.ratios rounds
  obtain ⟨same, low, high⟩ := r.min sb h
  rw [minField_eq] at same
  have none_ : 0 ≤ lowest x sb → m sb = 0 := by
    intro above
    refine le_antisymm ?_ low
    rw [eq_away_of_share (peak_nonneg _) (le_peak _ h) same]
    refine away_le le_rfl ?_
    rw [Int.cast_zero]
    exact div_nonpos_of_nonpos_of_nonneg (depth_nonpos above)
      (orOne_pos (div_nonneg (peak_nonneg _) (by norm_num))).le
  refine ⟨?_, none_⟩
  have field : (((unpackScales o.scales).mins sb).toNat : ℤ) = m sb := by
    rw [unpackScales_mins _ h, (encoded.written r).min sb h, stored_eq_iff low high]
    intro last
    rcases lt_or_ge (lowest x sb) 0 with below | above
    · exact (aligned_iff (peak_nonneg _) (le_peak _ h) same low).mpr (aligned last below)
    · exact .inl (none_ above)
  exact_mod_cast congrArg (fun n : ℤ => (n : α)) field

/-- The offset that is subtracted is off by `offBy`, up to the rounding of the minimum. -/
theorem Encoded.subtracted_near (encoded : Encoded id x s m o)
    (kept : NoneNegative x ∨ peak (depth x) = 0) (aligned : MinAligned x sb) (h : sb < 8) :
    |(|subtracted o sb + lowest x sb| - offBy x sb)| ≤ minLoss x sb / 126 := by
  have unit : o.dmin = peak (depth x) / 63 := by
    rw [encoded.dmin, dm, maxm_eq]
    rfl
  rcases lt_or_ge (lowest x sb) 0 with below | above
  · rw [offBy, minLoss, if_neg below.not_ge, if_neg below.not_ge]
    have deep := depth_pos below
    have rounds : NoneNegative x := by
      refine kept.resolve_right fun none_ => ?_
      exact absurd (none_ ▸ le_peak (depth x) h) deep.not_ge
    have near : |subtracted o sb - depth x sb| ≤ peak (depth x) / 126 := by
      rw [subtracted, unit, (encoded.min_eq rounds aligned h).1]
      refine abs_share_sub_le (peak_nonneg _) (le_peak _ h) (fun none_ => ?_)
        (minField_eq x sb ▸ encoded.min sb h)
      exact absurd (none_ ▸ le_peak (depth x) h) deep.not_ge
    refine (abs_abs_sub_abs_le _ _).trans ?_
    rwa [add_sub_add_right_eq_sub]
  · have nothing : subtracted o sb = 0 := by
      rw [subtracted]
      rcases kept with rounds | none_
      · obtain ⟨read, zero⟩ := encoded.min_eq rounds aligned h
        rw [read, zero above, Int.cast_zero, mul_zero]
      · rw [unit, none_, zero_div, zero_mul]
    rw [offBy, minLoss, if_pos above, if_pos above, nothing, zero_add, abs_of_nonneg above, sub_self,
      abs_zero, zero_div]

end Block

theorem Representable.minField {x : ℕ → α} (ok : Representable x) {i : ℕ} (h : i < 8) :
    ∃ n, minField x i = some n := by
  rw [minField_eq]
  rcases ok.offsets with rounds | ⟨none_, small⟩
  · obtain ⟨n, same, _⟩ := share_eq (peak_nonneg _) (le_peak _ h) (rounds i h)
    exact ⟨n, same⟩
  · have below : depth x i ≤ 0 := none_ ▸ le_peak (depth x) h
    have low : -2^31 ≤ away (depth x i) := by
      rw [le_away_iff (by decide)]
      have fits := small i h
      push_cast
      linarith
    have high : away (depth x i) ≤ 0 := away_le le_rfl (by simpa using below)
    have fits : Fits 32 (away (depth x i)) := by
      rw [Fits]
      omega
    rw [none_, share, orOne, zero_div, if_neg (not_not.mpr rfl), div_one, intRound, if_pos fits]
    exact ⟨_, rfl⟩

theorem Representable.approximates {x : ℕ → α} (ok : Representable x) :
    Ends (quantizeBlock id x) (Approximates x) := by
  obtain ⟨s, scale⟩ := choose_below fun i hi => scaleField_range x hi
  obtain ⟨m, min⟩ := choose_below fun i hi => ok.minField hi
  refine (quantizeBlock_encoded id (fun i hi => (scale i hi).1) min).mono fun o encoded sb h j hj => ?_
  have kept : NoneNegative x ∨ peak (depth x) = 0 := ok.offsets.imp_right And.left
  have near := (abs_le.mp (encoded.subtracted_near kept (ok.mins sb h) h)).2
  have total := encoded.abs_sub_le ok.scales h hj
  have loss := ok.loss sb h
  linarith

/-- The lowest element of a sub-block shows how far its offset is off. -/
theorem Approximates.offsetsFit {x : ℕ → α} {s m : ℕ → ℤ} {o : BlockQ4K α} (near : Approximates x o)
    (encoded : Encoded id x s m o) : OffsetsFit x := by
  intro kept sb h aligned
  obtain ⟨j, member, same⟩ := exists_mem_eq_inf' Folds.nonempty_range_32 fun j => x (sb * 32 + j)
  have hj := mem_range.mp member
  have bottom : x (sb * 32 + j) = lowest x sb := same.symm
  have quant : ((dotQuant o sb j).toNat : ℤ) = 0 := by
    rw [dotQuant_levels x h hj encoded.quants, level, bottom, sub_self, zero_div, away_zero]
  have bound := near sb h j hj
  rw [reconstructed, show (dotQuant o sb j).toNat = 0 by omega, Nat.cast_zero, mul_zero, zero_sub, bottom,
    ← subtracted, ← neg_add', abs_neg] at bound
  have off := (abs_le.mp (encoded.subtracted_near kept aligned h)).1
  linarith

/-- A row of representable blocks is rebuilt within the bound, and a block without a slip is one. In a
row that is rebuilt within the bound the offsets fit, up to the roundings. -/
theorem representable_approximates {input : ℕ → α} {blocks : ℕ} {output : ℕ → BlockQ4K α} :
    ((∀ b < blocks, Representable fun i => input (b * 256 + i)) →
      Ends (quantizeRow id input blocks output) fun o =>
        ∀ b < blocks, Approximates (fun i => input (b * 256 + i)) (o b)) ∧
    (∀ b < blocks, Slipless (fun i => input (b * 256 + i)) →
      Representable fun i => input (b * 256 + i)) ∧
    (Ends (quantizeRow id input blocks output) (fun o =>
        ∀ b < blocks, Approximates (fun i => input (b * 256 + i)) (o b)) →
      ∀ b < blocks, OffsetsFit fun i => input (b * 256 + i)) := by
  refine ⟨fun ok => quantizeRow_ends fun b hb => (ok b hb).approximates,
    fun b _ ok => ok.representable, ?_⟩
  rintro ⟨o, run, near⟩ b hb
  obtain ⟨s, m, encoded⟩ := encoded_of_some ((updates_some run).1 b (Nat.zero_le b) (by omega))
  exact (near b hb).offsetsFit encoded

def deepSpike (i : ℕ) : ℚ := if i = 0 then -30 else 0

/-- The reader rebuilds -30 as -15, the element beside a spike of 63 as 16 for 1, and 0 for 1. -/
theorem offset_in_steps :
    (quantizeRow id deepSpike 1 blank).map (fun o => reconstructed (o 0) 0 0) = some (-15) ∧
    (quantizeRow id twoSpikes 1 blank).map (fun o => reconstructed (o 0) 4 1) = some 16 ∧
    (quantizeRow id (fun _ => (1 : ℚ)) 1 blank).map (fun o => reconstructed (o 0) 0 0) = some 0 ∧
    ¬ Ends (quantizeRow id deepSpike 1 blank) (fun o => Approximates deepSpike (o 0)) ∧
    ¬ Ends (quantizeRow id twoSpikes 1 blank) (fun o => Approximates twoSpikes (o 0)) ∧
    ¬ Ends (quantizeRow id (fun _ => (1 : ℚ)) 1 blank) (fun o => Approximates (fun _ => 1) (o 0)) := by
  have far : ∀ {x : ℕ → ℚ} {sb j : ℕ} {v : ℚ}, sb < 8 → j < 32 →
      (quantizeRow id x 1 blank).map (fun o => reconstructed (o 0) sb j) = some v →
      (1 / 2 + 15 / 126) * spread x + reach x / 126 < |v - x (sb * 32 + j)| →
      ¬ Ends (quantizeRow id x 1 blank) (fun o => Approximates x (o 0)) := by
    rintro x sb j v hsb hj value large ⟨o, run, near⟩
    rw [run, Option.map_some, Option.some_inj] at value
    have bound := near sb hsb j hj
    rw [value] at bound
    linarith
  have deep : (quantizeRow id deepSpike 1 blank).map (fun o => reconstructed (o 0) 0 0) =
      some (-15) := by decide +kernel
  have beside : (quantizeRow id twoSpikes 1 blank).map (fun o => reconstructed (o 0) 4 1) =
      some 16 := by decide +kernel
  have flat : (quantizeRow id (fun _ => (1 : ℚ)) 1 blank).map (fun o => reconstructed (o 0) 0 0) =
      some 0 := by decide +kernel
  exact ⟨deep, beside, flat, far (by decide) (by decide) deep (by decide +kernel),
    far (by decide) (by decide) beside (by decide +kernel),
    far (by decide) (by decide) flat (by decide +kernel)⟩

/-- One sub-block of step 1 that reaches down to -5. -/
def unitSteps (i : ℕ) : ℚ := if i = 0 then -5 else if i = 1 then 10 else if i < 12 then i - 5 else 0

/-- Beside it a sub-block of step 1/2, whose offset in steps is off by 1/5. -/
def halfSteps (i : ℕ) : ℚ := if i = 32 then -1 / 5 else if i = 33 then 73 / 10 else unitSteps i

def raised (i : ℕ) : ℚ := if i < 32 then 3 / 10 else if i < 64 then min (i - 32) 15 else 0

def threeBlocks (i : ℕ) : ℚ :=
  if i < 256 then unitSteps i else if i < 512 then halfSteps (i - 256) else raised (i - 512)

theorem unitSteps_slipless : Slipless fun i => threeBlocks (0 * 256 + i) where
  scales := by
    simp only [Aligned]
    decide +kernel
  mins := by
    simp only [MinAligned, Aligned]
    decide +kernel
  below := by decide +kernel
  offset := by decide +kernel

theorem halfSteps_representable : Representable fun i => threeBlocks (1 * 256 + i) where
  scales := by
    simp only [Aligned]
    decide +kernel
  mins := by
    simp only [MinAligned, Aligned]
    decide +kernel
  offsets := .inl (by
    simp only [NoneNegative, Rounds]
    decide +kernel)
  loss := by decide +kernel

theorem raised_representable : Representable fun i => threeBlocks (2 * 256 + i) where
  scales := by
    simp only [Aligned]
    decide +kernel
  mins := by
    simp only [MinAligned, Aligned]
    decide +kernel
  offsets := .inr (by decide +kernel)
  loss := by decide +kernel

theorem three_blocks_approximated :
    Ends (quantizeRow id threeBlocks 3 blank) (fun o =>
      ∀ b < 3, Approximates (fun i => threeBlocks (b * 256 + i)) (o b)) ∧
    ∀ b < 3, OffsetsFit fun i => threeBlocks (b * 256 + i) := by
  obtain ⟨enough, slipless, needed⟩ :=
    @representable_approximates ℚ _ _ _ _ threeBlocks 3 blank
  have approximated := enough fun b hb => by
    interval_cases b
    · exact slipless 0 hb unitSteps_slipless
    · exact halfSteps_representable
    · exact raised_representable
  exact ⟨approximated, needed approximated⟩

end Pfng.Q4K
