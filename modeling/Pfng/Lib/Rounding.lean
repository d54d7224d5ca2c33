import Mathlib.Algebra.Order.Round
import Mathlib.Tactic.Linarith
import Mathlib.Tactic.Push
import Mathlib.Tactic.Ring

/-! Rounding to integers under the two tie rules of C: ties away from zero (`std::round`), and
ties to even (the default mode of the floating-point unit). -/
namespace Rounding
open Int

section Literals

-- A definition that writes one of these numbers over a field needs no proof of its own for it.
instance atLeastTwo_2 : Nat.AtLeastTwo 2 := ⟨by decide⟩
instance atLeastTwo_8 : Nat.AtLeastTwo 8 := ⟨by decide⟩
instance atLeastTwo_15 : Nat.AtLeastTwo 15 := ⟨by decide⟩
instance atLeastTwo_17 : Nat.AtLeastTwo 17 := ⟨by decide⟩
instance atLeastTwo_63 : Nat.AtLeastTwo 63 := ⟨by decide⟩
instance atLeastTwo_126 : Nat.AtLeastTwo 126 := ⟨by decide⟩
instance atLeastTwo_127 : Nat.AtLeastTwo 127 := ⟨by decide⟩

end Literals

variable {α : Type*} [Field α] [LinearOrder α] [FloorRing α]

def away (x : α) : ℤ := if 0 ≤ x then round x else -round (-x)

def toEven (x : α) : ℤ :=
  if 2 * fract x < 1 then ⌊x⌋
  else if 1 < 2 * fract x then ⌊x⌋ + 1
  else if ⌊x⌋ % 2 = 0 then ⌊x⌋ else ⌊x⌋ + 1

theorem away_of_nonneg {x : α} (h : 0 ≤ x) : away x = round x := if_pos h

theorem away_eq_floor {x : α} (h : 0 ≤ x) (half : 2 * fract x < 1) : away x = ⌊x⌋ := by
  rw [away_of_nonneg h, round, if_pos half]

theorem toEven_of_lt {x : α} (h : 2 * fract x < 1) : toEven x = ⌊x⌋ := if_pos h

theorem toEven_of_gt {x : α} (h : 1 < 2 * fract x) : toEven x = ⌊x⌋ + 1 := by
  rw [toEven, if_neg h.not_gt, if_pos h]

theorem toEven_of_tie {x : α} (h : 2 * fract x = 1) :
    toEven x = if ⌊x⌋ % 2 = 0 then ⌊x⌋ else ⌊x⌋ + 1 := by
  rw [toEven, if_neg h.not_lt, if_neg h.not_gt]

variable [IsStrictOrderedRing α] {x : α} {n : ℤ}

theorem away_neg (x : α) : away (-x) = -away x := by
  rcases lt_trichotomy x 0 with neg | rfl | pos
  · rw [away_of_nonneg (by linarith), away, if_neg (not_le.mpr neg), neg_neg]
  · simp [away]
  · rw [away, if_neg (by linarith), neg_neg, away_of_nonneg pos.le]

theorem away_zero : away (0 : α) = 0 := by
  rw [away_of_nonneg le_rfl, round_zero]

theorem away_nonneg (h : 0 ≤ x) : 0 ≤ away x := by
  have := round_le_add_half x
  have := sub_half_lt_round x
  have above : (-1 : α) < round x := by linarith
  rw [away_of_nonneg h]
  have : (-1 : ℤ) < round x := by exact_mod_cast above
  omega

/-- Below zero the tie goes down. -/
theorem le_away_iff (neg : n ≤ 0) : n ≤ away x ↔ n - 1 / 2 < x := by
  have small : (n : α) ≤ 0 := by exact_mod_cast neg
  rcases le_or_gt 0 x with h | h
  · exact ⟨fun _ => by linarith, fun _ => neg.trans (away_nonneg h)⟩
  · have half : round (-x) ≤ -n ↔ ⌊-x + 1 / 2⌋ < 1 - n := by
      rw [round_eq]
      omega
    rw [away, if_neg (not_le.mpr h), le_neg, half, floor_lt]
    push_cast
    constructor
    · intro below
      linarith
    · intro above
      linarith

theorem away_nonneg_iff : 0 ≤ away x ↔ -(1 / 2) < x := by
  rw [le_away_iff le_rfl, cast_zero, zero_sub]

theorem away_eq_iff (h : 0 < n) : away x = n ↔ n - 1 / 2 ≤ x ∧ x < n + 1 / 2 := by
  have one : (1 : α) ≤ n := by exact_mod_cast h
  rcases le_or_gt 0 x with nonneg | neg
  · rw [away_of_nonneg nonneg, round_eq_iff, Set.mem_Ico]
  · constructor
    · intro same
      have below : away (-x) = -n := by rw [away_neg, same]
      have := away_nonneg (x := -x) (by linarith)
      omega
    · intro between
      linarith [between.1]

theorem away_eq_zero_iff : away x = 0 ↔ -(1 / 2) < x ∧ x < 1 / 2 := by
  rcases le_or_gt 0 x with nonneg | neg
  · rw [away_of_nonneg nonneg, round_eq_zero_iff, Set.mem_Ico]
    constructor
    · intro between
      exact ⟨by linarith, between.2⟩
    · intro between
      exact ⟨between.1.le, between.2⟩
  · rw [away, if_neg (not_le.mpr neg), neg_eq_zero, round_eq_zero_iff, Set.mem_Ico]
    constructor
    · intro between
      exact ⟨by linarith [between.2], by linarith⟩
    · intro between
      exact ⟨by linarith, by linarith [between.1]⟩

theorem away_le (pos : 0 ≤ n) (h : x ≤ n) : away x ≤ n := by
  rcases le_or_gt 0 x with nonneg | neg
  · have below := round_le_add_half x
    rw [away_of_nonneg nonneg]
    have strict : (round x : α) < n + 1 := by linarith
    have : round x < n + 1 := by exact_mod_cast strict
    omega
  · have below : 0 ≤ away (-x) := away_nonneg (by linarith)
    rw [away_neg] at below
    omega

theorem away_eq_ceil {x : α} (h : 0 ≤ x) (half : 1 ≤ 2 * fract x) : away x = ⌊x⌋ + 1 := by
  have above : ⌊x⌋ + 1 ≤ x + 1 / 2 ∧ x + 1 / 2 < ⌊x⌋ + 1 + 1 := by
    have := self_sub_floor x
    have := fract_lt_one x
    constructor <;> linarith
  rw [away_of_nonneg h, round_eq, floor_eq_iff]
  push_cast
  exact above

theorem toEven_neg (x : α) : toEven (-x) = -toEven x := by
  rcases eq_or_ne (fract x) 0 with whole | part
  · obtain ⟨n, rfl⟩ : ∃ n : ℤ, (n : α) = x := ⟨⌊x⌋, by linarith [self_sub_floor x]⟩
    have exact : ∀ n : ℤ, toEven (n : α) = n := by
      intro n
      simp [toEven]
    rw [exact, ← cast_neg, exact]
  · have turn : fract (-x) = 1 - fract x := fract_neg part
    have down : ⌊-x⌋ = -⌊x⌋ - 1 := by
      rw [floor_eq_iff]
      have := self_sub_floor x
      have pos : 0 < fract x := lt_of_le_of_ne (fract_nonneg x) (Ne.symm part)
      have := fract_lt_one x
      push_cast
      constructor <;> linarith
    rcases lt_trichotomy (2 * fract x) 1 with less | tie | more
    · rw [toEven_of_lt less, toEven_of_gt (by linarith), down]
      omega
    · rw [toEven_of_tie tie, toEven_of_tie (by linarith), down]
      split <;> split <;> omega
    · rw [toEven_of_gt more, toEven_of_lt (by linarith), down]
      omega

theorem floor_even_half (j : ℕ) : ⌊(2 * j + 1 / 2 : α)⌋ = 2 * j := by
  rw [floor_eq_iff]
  push_cast
  constructor <;> linarith

theorem fract_even_half (j : ℕ) : 2 * fract (2 * j + 1 / 2 : α) = 1 := by
  rw [← self_sub_floor, floor_even_half]
  push_cast
  ring

theorem toEven_ne_away_of_nonneg (h : 0 ≤ x) :
    toEven x ≠ away x ↔ ∃ j : ℕ, x = 2 * j + 1 / 2 := by
  constructor
  · intro differ
    rcases lt_trichotomy (2 * fract x) 1 with less | tie | more
    · rw [away_eq_floor h less, toEven_of_lt less] at differ
      exact absurd rfl differ
    · rw [away_eq_ceil h tie.ge, toEven_of_tie tie] at differ
      have even : ⌊x⌋ % 2 = 0 := by
        by_contra odd
        exact differ (if_neg odd)
      have low : 0 ≤ ⌊x⌋ := floor_nonneg.mpr h
      have whole : ((2 * ((⌊x⌋ / 2).toNat : ℤ) : ℤ) : α) = ⌊x⌋ := by
        congr 1
        omega
      push_cast at whole
      refine ⟨(⌊x⌋ / 2).toNat, ?_⟩
      rw [whole]
      linarith [self_sub_floor x]
    · rw [away_eq_ceil h more.le, toEven_of_gt more] at differ
      exact absurd rfl differ
  · rintro ⟨j, rfl⟩
    rw [away_eq_ceil h (fract_even_half j).ge, toEven_of_tie (fract_even_half j), floor_even_half,
      if_pos (by omega)]
    omega

theorem toEven_ne_away_iff (x : α) : toEven x ≠ away x ↔ ∃ j : ℕ, |x| = 2 * j + 1 / 2 := by
  rcases le_total 0 x with h | h
  · rw [toEven_ne_away_of_nonneg h, abs_of_nonneg h]
  · have mirror := toEven_ne_away_of_nonneg (x := -x) (by linarith)
    rw [toEven_neg, away_neg, ne_eq, neg_inj] at mirror
    rw [ne_eq, mirror, abs_of_nonpos h]

theorem toEven_le (h : x ≤ n) : toEven x ≤ n := by
  have low := floor_le x
  have below : ⌊x⌋ ≤ n := by
    have : (⌊x⌋ : α) ≤ n := by linarith
    exact_mod_cast this
  rcases below.eq_or_lt with top | less
  · have same : x = n := by
      rw [top] at low
      exact le_antisymm h low
    rw [same, toEven_of_lt (by simp), floor_intCast]
  · rw [toEven]
    split
    · omega
    · split
      · omega
      · split <;> omega

theorem le_toEven (h : (n : α) ≤ x) : n ≤ toEven x := by
  have := toEven_le (x := -x) (n := -n) (by push_cast; linarith)
  rw [toEven_neg] at this
  omega

theorem le_away (neg : n ≤ 0) (h : (n : α) ≤ x) : n ≤ away x :=
  (le_away_iff neg).mpr (by linarith)

end Rounding
