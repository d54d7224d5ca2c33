import Mathlib.Logic.Function.Basic
import Mathlib.Tactic.IntervalCases
import Pfng.Blocks
import Pfng.Lib.Words

/-! The twelve scale bytes of a Q4_K block. The encoder puts the low two bits of the last four
fields into the top of the first eight bytes, where all three decoders expect the high two. -/
namespace Pfng.Q4K
open Function

/-- The bytes `scales` that `quantize_row_q4_K` packs. -/
def packScales (s m : ℕ → BitVec 8) : ℕ → BitVec 8 :=
  (List.range 4).foldl (fun o i =>
    let o := update o i (s i ||| (s (i + 4) &&& 3) <<< 6)
    let o := update o (i + 4) (m i ||| (m (i + 4) &&& 3) <<< 6)
    update o (i + 8) (s (i + 4) >>> 2 ||| (m (i + 4) >>> 2) <<< 4)) fun _ => 0

/-- The arrays `scales` and `mins`. -/
structure Fields where
  scales : ℕ → BitVec 8
  mins : ℕ → BitVec 8

/-- The first loop of `dot_q4_K_q8_K`. -/
def unpackScales (w : ℕ → BitVec 8) : Fields :=
  (List.range 4).foldl (fun f i =>
    let scales := update f.scales i (w i &&& 63)
    let scales := update scales (i + 4) (w (i + 8) &&& 15 ||| (w i >>> 6) <<< 4)
    let mins := update f.mins i (w (i + 4) &&& 63)
    let mins := update mins (i + 4) (w (i + 8) >>> 4 ||| (w (i + 4) >>> 6) <<< 4)
    ⟨scales, mins⟩) ⟨fun _ => 0, fun _ => 0⟩

/-- `q4_scale` of the grouped adapter. -/
def q4Scale (w : ℕ → BitVec 8) (index : ℕ) : BitVec 8 :=
  if index < 4 then w index &&& 0x3f
  else w (index + 4) &&& 0x0f ||| (w (index - 4) >>> 6) <<< 4

/-- `q4_min` of the grouped adapter. -/
def q4Min (w : ℕ → BitVec 8) (index : ℕ) : BitVec 8 :=
  if index < 4 then w (index + 4) &&& 0x3f
  else w (index + 4) >>> 4 ||| (w index >>> 6) <<< 4

/-- The loop of `prepare` in the 12-row adapter, for column `x` of a tile. -/
def expandScales (w : ℕ → BitVec 8) (x : ℕ) (o : Fields) : Fields :=
  (List.range 4).foldl (fun o i =>
    let scales := update o.scales (i * 32 + x) (w i &&& 63)
    let mins := update o.mins (i * 32 + x) (w (4 + i) &&& 63)
    let scales := update scales ((i + 4) * 32 + x) (w (8 + i) &&& 15 ||| (w i >>> 6) <<< 4)
    let mins := update mins ((i + 4) * 32 + x) (w (8 + i) >>> 4 ||| (w (4 + i) >>> 6) <<< 4)
    ⟨scales, mins⟩) o

variable {s m w : ℕ → BitVec 8} {i x : ℕ}

theorem unpackScales_scales (w : ℕ → BitVec 8) (h : i < 8) :
    (unpackScales w).scales i = q4Scale w i := by
  interval_cases i <;> rfl

theorem unpackScales_mins (w : ℕ → BitVec 8) (h : i < 8) :
    (unpackScales w).mins i = q4Min w i := by
  interval_cases i <;> rfl

theorem expandScales_scales (w : ℕ → BitVec 8) (x : ℕ) (o : Fields) (h : i < 8) :
    (expandScales w x o).scales (i * 32 + x) = q4Scale w i := by
  interval_cases i <;> simp [expandScales, List.range_succ, q4Scale]

theorem expandScales_mins (w : ℕ → BitVec 8) (x : ℕ) (o : Fields) (h : i < 8) :
    (expandScales w x o).mins (i * 32 + x) = q4Min w i := by
  interval_cases i <;> simp [expandScales, List.range_succ, q4Min]

theorem expandScales_other (w : ℕ → BitVec 8) {x y : ℕ} (o : Fields) (hx : x < 32) (hy : y < 32)
    (ne : x ≠ y) (i : ℕ) :
    (expandScales w x o).scales (i * 32 + y) = o.scales (i * 32 + y) ∧
      (expandScales w x o).mins (i * 32 + y) = o.mins (i * 32 + y) := by
  have first : i * 32 + y ≠ x := by omega
  have apart : ∀ c, c % 32 = 0 → i * 32 + y ≠ c + x := by
    intro c hc
    omega
  simp [expandScales, List.range_succ, first, apart]

def expandTile (w : ℕ → ℕ → BitVec 8) (columns : ℕ) (o : Fields) : Fields :=
  (List.range columns).foldl (fun o x => expandScales (w x) x o) o

theorem expandTile_eq (w : ℕ → ℕ → BitVec 8) {columns : ℕ} (fit : columns ≤ 32) (o : Fields)
    (hx : x < columns) (hi : i < 8) :
    (expandTile w columns o).scales (i * 32 + x) = q4Scale (w x) i ∧
      (expandTile w columns o).mins (i * 32 + x) = q4Min (w x) i := by
  induction columns with
  | zero => omega
  | succ n ih =>
      rw [expandTile, List.range_succ, List.foldl_append, List.foldl_cons, List.foldl_nil]
      rcases Nat.lt_succ_iff_lt_or_eq.mp hx with old | rfl
      · have kept := expandScales_other (w n) (expandTile w n o) (show n < 32 by omega)
          (show x < 32 by omega) (by omega) i
        rw [expandTile] at kept
        rw [kept.1, kept.2]
        exact ih (by omega) old
      · exact ⟨expandScales_scales _ _ _ hi, expandScales_mins _ _ _ hi⟩

def turn (v : BitVec 8) : BitVec 8 := v >>> 2 ||| (v &&& 3) <<< 4

theorem toNat_ushiftRight_lt {a : BitVec 8} (ha : a.toNat < 64) : (a >>> 2).toNat < 2 ^ 4 := by
  rw [BitVec.toNat_ushiftRight, Nat.shiftRight_eq_div_pow]
  omega

/-- What the masks and shifts find in a byte that holds `a` and two bits of `b`, and in one that holds
the other four bits of both. -/
theorem packed_fields {a : BitVec 8} (ha : a.toNat < 64) (b : BitVec 8) :
    (a ||| (b &&& 3) <<< 6) &&& 63 = a ∧ (a ||| (b &&& 3) <<< 6) >>> 6 = b &&& 3 ∧
    (a >>> 2 ||| (b >>> 2) <<< 4) &&& 15 = a >>> 2 := by
  have low : (b &&& 3).toNat < 2 ^ 2 := by
    rw [BitVec.toNat_and]
    exact Nat.and_lt_two_pow _ (by decide)
  exact ⟨Words.fields_and_mask (s := 6) ha, Words.fields_ushiftRight ha low,
    Words.fields_and_mask (s := 4) (toNat_ushiftRight_lt ha)⟩

theorem turn_eq_iff : ∀ a : Fin 64,
    turn (BitVec.ofNat 8 a) = BitVec.ofNat 8 a ↔ (a : ℕ) ∈ [0, 21, 42, 63] := by
  decide +kernel

theorem turn_eq_self_iff {v : BitVec 8} (h : v.toNat < 64) :
    turn v = v ↔ v.toNat ∈ [0, 21, 42, 63] := by
  have back := turn_eq_iff ⟨v.toNat, h⟩
  simpa only [BitVec.ofNat_toNat, BitVec.setWidth_eq] using back

section Codec

variable (hs : ∀ i < 8, (s i).toNat < 64)
include hs

theorem q4Scale_packScales (h : i < 8) :
    q4Scale (packScales s m) i = if i < 4 then s i else turn (s i) := by
  by_cases low : i < 4
  · rw [q4Scale, if_pos low, if_pos low]
    have := (packed_fields (hs i h) (s (i + 4))).1
    interval_cases i <;> exact this
  · rw [q4Scale, if_neg low, if_neg low]
    have high := (packed_fields (hs i h) (m i)).2.2
    have top := (packed_fields (hs (i - 4) (by omega)) (s i)).2.1
    rw [turn, ← high, ← top]
    interval_cases i <;> rfl

theorem q4Min_packScales (hm : ∀ i < 8, (m i).toNat < 64) (h : i < 8) :
    q4Min (packScales s m) i = if i < 4 then m i else turn (m i) := by
  by_cases low : i < 4
  · rw [q4Min, if_pos low, if_pos low]
    have := (packed_fields (hm i h) (m (i + 4))).1
    interval_cases i <;> exact this
  · rw [q4Min, if_neg low, if_neg low]
    have high : (s i >>> 2 ||| (m i >>> 2) <<< 4) >>> 4 = m i >>> 2 :=
      Words.fields_ushiftRight (toNat_ushiftRight_lt (hs i h)) (toNat_ushiftRight_lt (hm i h))
    have top := (packed_fields (hm (i - 4) (by omega)) (m i)).2.1
    rw [turn, ← high, ← top]
    interval_cases i <;> rfl

end Codec

end Pfng.Q4K
