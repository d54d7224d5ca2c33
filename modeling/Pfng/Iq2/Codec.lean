import Mathlib.Tactic.Common
import Pfng.Blocks
import Pfng.Iq2.Tables
import Pfng.Lib.Layout

/-! Decoding one 32-element sub-block of 8 bytes: the reference decoder, and the kernels' macro
lane by lane. On the grid entries of the input generator they agree. -/
namespace Pfng.Iq2
open Finset

/-- `__builtin_parity`. -/
def parity (index : BitVec 8) : Bool :=
  (List.range 8).foldl (fun p i => p ^^ index.getLsbD i) false

def signMask (index : BitVec 8) : BitVec 8 := index ||| (if parity index then 0x80 else 0)

def signsAndScale (packed : ℕ → BitVec 8) : BitVec 32 := packed 7 ++ packed 6 ++ packed 5 ++ packed 4

def signIndex (packed : ℕ → BitVec 8) (group : ℕ) : BitVec 8 :=
  ((signsAndScale packed >>> (7 * group)) &&& 0x7f).setWidth 8

def magnitudeByte (magnitudes : BitVec 64) (lane : ℕ) : BitVec 8 :=
  ((magnitudes >>> (lane * 8)) &&& 0xff).setWidth 8

/-- `values[i]` of `decode_subblock`; `none` is a read past the 32 grid entries. -/
def decodeSubblock (packed : ℕ → BitVec 8) (i : ℕ) : Option (BitVec 8) :=
  grid[(packed (i / 8)).toNat]?.map fun magnitudes =>
    let signs := signMask (signIndex packed (i / 8))
    let magnitude := magnitudeByte magnitudes (i % 8)
    if signs.getLsbD (i % 8) then -magnitude else magnitude

/-- `scale` of `decode_subblock`. -/
def decodeScale (packed : ℕ → BitVec 8) : ℤ :=
  2 * (((signsAndScale packed >>> 28) &&& 0x0f).toNat : ℤ) + 1

/-- Lane `i` of `w_q` in `decompress_iq2_subblock`: both gathers index a table, and the gathered
sign bytes are the mask of the merge. -/
def decompressSubblock (packed : ℕ → BitVec 8) (i : ℕ) : BitVec 8 :=
  let w_q := magnitudeByte (iq2xxsGrid.getD (packed (i / 8)).toNat 0) (i % 8)
  let w_s := ksignsIq2xs.getD (signIndex packed (i / 8)).toNat 0
  if w_s.getLsbD (i % 8) then -w_q else w_q

/-- `w_scale` of `decompress_iq2_subblock`. -/
def decompressScale (packed : ℕ → BitVec 8) : ℤ :=
  2 * (((signsAndScale packed >>> 28) &&& 0xf).toNat : ℤ) + 1

theorem grid_leads : ∀ index < 32, iq2xxsGrid[index]? = grid[index]? := by decide

theorem ksigns_eq : ∀ index < 128, ksignsIq2xs[index]? = some (signMask (BitVec.ofNat 8 index)) := by
  decide +kernel

theorem signIndex_lt (packed : ℕ → BitVec 8) (group : ℕ) : (signIndex packed group).toNat < 128 := by
  have low : (signsAndScale packed >>> (7 * group) &&& 0x7f).toNat ≤ 127 := by
    rw [BitVec.toNat_and]
    exact Nat.and_le_right
  rw [signIndex, BitVec.toNat_setWidth]
  omega

theorem decodeSubblock_eq {packed : ℕ → BitVec 8} {i : ℕ} (index : (packed (i / 8)).toNat < 32) :
    decodeSubblock packed i = some (decompressSubblock packed i) := by
  obtain ⟨magnitudes, entry⟩ : ∃ x, grid[(packed (i / 8)).toNat]? = some x :=
    ⟨_, List.getElem?_eq_getElem index⟩
  have same := (grid_leads _ index).trans entry
  have signs := ksigns_eq _ (signIndex_lt packed (i / 8))
  rw [BitVec.ofNat_toNat, BitVec.setWidth_eq] at signs
  simp only [decodeSubblock, decompressSubblock, List.getD_eq_getElem?_getD, entry, same, signs,
    Option.map_some, Option.getD_some]

/-- The magnitude of lane `lane` of a grid entry. -/
def magnitude (index lane : ℕ) : ℕ := (magnitudeByte (iq2xxsGrid.getD index 0) lane).toNat

theorem magnitude_le : ∀ index < 32, ∀ lane < 8, magnitude index lane ≤ 43 := by decide

theorem sum_magnitude_zero : ∑ lane ∈ range 8, magnitude 0 lane = 64 := by decide

theorem sum_magnitude_pos : ∀ index < 32, 0 < index → 98 ≤ ∑ lane ∈ range 8, magnitude index lane := by
  decide

theorem sum_magnitude_ge {index : ℕ} (h : index < 32) : 64 ≤ ∑ lane ∈ range 8, magnitude index lane := by
  rcases Nat.eq_zero_or_pos index with rfl | pos
  · exact Nat.le_of_eq sum_magnitude_zero.symm
  · exact Nat.le_trans (by decide) (sum_magnitude_pos index h pos)

theorem natAbs_byte : ∀ b : BitVec 8, b.toNat ≤ 43 →
    b.toInt.natAbs = b.toNat ∧ (-b).toInt.natAbs = b.toNat := by decide +kernel

theorem abs_decompressSubblock {packed : ℕ → BitVec 8} {i : ℕ}
    (index : (packed (i / 8)).toNat < 32) :
    (decompressSubblock packed i).toInt.natAbs = magnitude (packed (i / 8)).toNat (i % 8) := by
  obtain ⟨plain, negated⟩ := natAbs_byte _ (magnitude_le _ index (i % 8) (Nat.mod_lt _ (by decide)))
  simp only [decompressSubblock]
  split
  · exact negated
  · exact plain

end Pfng.Iq2
