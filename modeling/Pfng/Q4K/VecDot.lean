import Pfng.Q4K.Product
import Pfng.Quantizers
import Pfng.VecDot

/-! `ggml_vec_dot_q4_K_q8_K` on vectors of 256 bits: a sub-block is summed in 16 bits, and so it
leaves what both custom kernels leave. -/
namespace Pfng.Q4K.VecDot
open Checked Register Finset Words Function Quantizers Pfng.VecDot

/-- What happens to `utmp` after `memcpy`. -/
def unscramble (utmp : ℕ → BitVec 32) : ℕ → BitVec 32 :=
  let utmp := update utmp 3 (utmp 2 >>> 4 &&& kmask2 ||| (utmp 1 >>> 6 &&& kmask3) <<< 4)
  let uaux := utmp 1 &&& kmask1
  let utmp := update utmp 1 (utmp 2 &&& kmask2 ||| (utmp 0 >>> 6 &&& kmask3) <<< 4)
  let utmp := update utmp 2 uaux
  update utmp 0 (utmp 0 &&& kmask1)

/-- The bytes of `utmp` from word `first` on: `scales` at 0 and `mins` at 2. -/
def utmpByte (scales : ℕ → BitVec 8) (first i : ℕ) : BitVec 8 :=
  byteOf (unscramble (fun word => ofBytes fun j => scales (4 * word + j)) (first + i / 4)) (i % 4)

variable {F : Type}

/-- `sumi`: the minimums times the sums of the sub-blocks. -/
def sumi (x : BlockQ4K F) (y : SummedQ8K F) : ℤ :=
  let vl := 8
  let q8sums_0 := fun lane => (y.bsums (2 * lane)).toInt
  let q8sums_1 := fun lane => (y.bsums (1 + 2 * lane)).toInt
  let q8sums := fun lane => wrap 16 (q8sums_0 lane + q8sums_1 lane)
  let v_mins := fun lane => ((utmpByte x.scales 2 lane).toNat : ℤ)
  let prod := fun lane => wrap 32 (q8sums lane * v_mins lane)
  accumulate 32 prod vl

/-- `sum_1` and `sum_2`. -/
def sums (x : BlockQ4K F) (y : SummedQ8K F) : ℤ × ℤ :=
  let vl := 32
  let scales := fun i => ((utmpByte x.scales 0 i).toNat : ℤ)
  (List.range 4).foldl (fun (sum_1, sum_2) j =>
    let q4_x := fun lane => x.qs (j * 32 + lane)
    let q8_0 := fun lane => y.qs (j * 64 + lane)
    let q4_0 := fun lane => q4_x lane &&& 0x0F
    let vs_0 := vredsum (vwmul q4_0 q8_0) vl
    let sum_1 := wrap 32 (sum_1 + vs_0 * scales (2 * j))
    let q8_1 := fun lane => y.qs (j * 64 + (32 + lane))
    let q4_1 := fun lane => q4_x lane >>> 0x04
    let vs_1 := vredsum (vwmul q4_1 q8_1) vl
    let sum_2 := wrap 32 (sum_2 + vs_1 * scales (2 * j + 1))
    (sum_1, sum_2)) (0, 0)

variable [Field F]

/-- One round of the block loop. -/
def vecDotBlock (sumf : F) (x : BlockQ4K F) (y : SummedQ8K F) : Option F :=
  let d := y.d * x.d
  let dmin := y.d * x.dmin
  let sumf := sumf - dmin * (sumi x y : F)
  some (sumf + d * (wrap 32 ((sums x y).1 + (sums x y).2) : ℤ))

/-- `ggml_vec_dot_q4_K_q8_K`. -/
def vecDot (nb vx vy : ℕ) (memory : DotMemory (BlockQ4K F) (SummedQ8K F) F) : Option F :=
  overBlocks vecDotBlock 0 nb vx vy memory

section Fields

theorem unscramble_eq (utmp : ℕ → BitVec 32) :
    unscramble utmp 0 = utmp 0 &&& kmask1 ∧
    unscramble utmp 1 = utmp 2 &&& kmask2 ||| (utmp 0 >>> 6 &&& kmask3) <<< 4 ∧
    unscramble utmp 2 = utmp 1 &&& kmask1 ∧
    unscramble utmp 3 = utmp 2 >>> 4 &&& kmask2 ||| (utmp 1 >>> 6 &&& kmask3) <<< 4 :=
  ⟨rfl, rfl, rfl, rfl⟩

theorem utmpByte_eq (scales : ℕ → BitVec 8) {i : ℕ} (hi : i < 8) :
    utmpByte scales 0 i = (unpackScales scales).scales i ∧
    utmpByte scales 2 i = (unpackScales scales).mins i := by
  obtain ⟨first, second, third, fourth⟩ :=
    unscramble_eq fun word => ofBytes fun j => scales (4 * word + j)
  rw [unpackScales_scales _ hi, unpackScales_mins _ hi, q4Scale, q4Min]
  by_cases low : i < 4
  · have word : i / 4 = 0 ∧ i % 4 = i := by omega
    simp only [utmpByte, word, Nat.zero_add, Nat.add_zero, first, third, byteOf_kmask1 low,
      byteOf_ofBytes low, if_pos low, Nat.mul_zero, Nat.mul_one, Nat.add_comm 4, and_self]
  · have byte : i - 4 < 4 := by omega
    have word : i / 4 = 1 ∧ i % 4 = i - 4 := by omega
    have places : 4 * 2 + (i - 4) = i + 4 ∧ 4 + (i - 4) = i := by omega
    constructor
    · simp only [utmpByte, word, Nat.zero_add, second, byteOf_or, byteOf_kmask2 byte,
        byteOf_kmask3 byte, byteOf_ofBytes byte, if_neg low, Nat.mul_zero, places]
      rfl
    · simp only [utmpByte, word, Nat.reduceAdd, fourth, byteOf_or, byteOf_shift_kmask2 byte,
        byteOf_kmask3 byte, byteOf_ofBytes byte, if_neg low, Nat.mul_one, places]

end Fields

section Sums

variable {x : BlockQ4K F} {y : SummedQ8K F}

/-- Each member of `bsums` is the sum of its sixteen quants. -/
def Summed (y : SummedQ8K F) : Prop :=
  ∀ i < 16, (y.bsums i).toInt = ∑ j ∈ range 16, (y.qs (i * 16 + j)).toInt

omit [Field F] in
theorem q8sums_eq (summed : Summed y) {lane : ℕ} (hl : lane < 8) :
    (y.bsums (2 * lane)).toInt + (y.bsums (1 + 2 * lane)).toInt =
      ∑ j ∈ range 32, (y.qs (lane * 32 + j)).toInt := by
  have places : ∀ j, 2 * lane * 16 + j = lane * 32 + j ∧
      (1 + 2 * lane) * 16 + j = lane * 32 + (16 + j) := fun j => by omega
  rw [summed _ (by omega), summed _ (by omega), sum_range_add _ 16 16]
  simp only [places]

omit [Field F] in
theorem mins_lt (x : BlockQ4K F) {i : ℕ} (hi : i < 8) :
    ((unpackScales x.scales).mins i).toNat < 64 ∧ ((unpackScales x.scales).scales i).toNat < 64 := by
  rw [unpackScales_scales _ hi, unpackScales_mins _ hi]
  exact ⟨q4Min_lt _ _, q4Scale_lt _ _⟩

omit [Field F] in
theorem sumi_eq (summed : Summed y) : sumi x y = heldSum x y.toBlockQ8K .sumMin := by
  let total := fun lane => ∑ j ∈ range 32, (y.qs (lane * 32 + j)).toInt
  have small : ∀ lane, |total lane| ≤ 4096 := fun lane =>
    abs_sum_le (n := 32) fun j _ => abs_toInt_le (y.qs (lane * 32 + j))
  have bound : ∀ lane < 8, |total lane * ((utmpByte x.scales 2 lane).toNat : ℤ)| ≤ 4096 * 63 := by
    intro lane hl
    have field : ((utmpByte x.scales 2 lane).toNat : ℤ) ≤ 63 := by
      have := (mins_lt x hl).1
      rw [(utmpByte_eq x.scales hl).2]
      omega
    rw [abs_mul, abs_of_nonneg (Int.natCast_nonneg _)]
    exact mul_le_mul (small lane) field (Int.natCast_nonneg _) (by decide)
  have lane_eq : ∀ lane < 8, wrap 32 (wrap 16 ((y.bsums (2 * lane)).toInt +
      (y.bsums (1 + 2 * lane)).toInt) * (utmpByte x.scales 2 lane).toNat) =
      total lane * (utmpByte x.scales 2 lane).toNat := by
    intro lane hl
    have pair : wrap 16 (total lane) = total lane :=
      (wrap_eq_self_iff (by decide) _).mpr (fits_of_abs_lt ((small lane).trans_lt (by decide)))
    rw [q8sums_eq summed hl, pair]
    exact (wrap_eq_self_iff (by decide) _).mpr (fits_of_abs_lt ((bound lane hl).trans_lt (by decide)))
  rw [sumi, accumulate_eq, sum_congr rfl fun lane hl => lane_eq lane (mem_range.mp hl),
    (wrap_eq_self_iff (by decide) _).mpr, heldSum]
  · refine sum_congr rfl fun lane hl => ?_
    rw [(utmpByte_eq x.scales (mem_range.mp hl)).2, mul_comm]
  · exact fits_of_abs_lt ((abs_sum_le bound).trans_lt (by decide))

def subTerm (x : BlockQ4K F) (y : SummedQ8K F) (sb : ℕ) : ℤ :=
  vredsum (vwmul (dotQuant x sb) fun lane => y.qs (sb * 32 + lane)) 32 * (utmpByte x.scales 0 sb).toNat

omit [Field F] in
theorem dotQuant_lt (x : BlockQ4K F) (sb j : ℕ) : (dotQuant x sb j).toNat < 16 := by
  rw [dotQuant]
  split
  · exact (nibble_lt _).1
  · exact (nibble_lt _).2

omit [Field F] in
theorem subTerm_eq (x : BlockQ4K F) (y : SummedQ8K F) {sb : ℕ} (h : sb < 8) :
    subTerm x y sb = ((unpackScales x.scales).scales sb).toNat *
      wrap 16 (∑ j ∈ range 32, (dotQuant x sb j).toNat * (y.qs (sb * 32 + j)).toInt) := by
  have products : ∀ j ∈ range 32, vwmul (dotQuant x sb) (fun lane => y.qs (sb * 32 + lane)) j =
      (dotQuant x sb j).toNat * (y.qs (sb * 32 + j)).toInt := fun j _ => by
    rw [vwmul_eq, toInt_nibble (dotQuant_lt x sb j)]
  rw [subTerm, vredsum, accumulate_eq, sum_congr rfl products, (utmpByte_eq x.scales h).1, mul_comm]

omit [Field F] in
/-- The two halves of a byte make two neighbouring sub-blocks. -/
theorem sums_eq (x : BlockQ4K F) (y : SummedQ8K F) :
    wrap 32 ((sums x y).1 + (sums x y).2) = heldSum x y.toBlockQ8K .sum := by
  have halves : sums x y = ((List.range 4).foldl (fun sum j => wrap 32 (sum + subTerm x y (2 * j))) 0,
      (List.range 4).foldl (fun sum j => wrap 32 (sum + subTerm x y (2 * j + 1))) 0) := by
    rw [← Folds.foldl_pair, sums]
    refine List.foldl_ext _ _ _ fun s j _ => ?_
    have first : dotQuant x (2 * j) = fun lane => x.qs (j * 32 + lane) &&& 0x0F := by
      funext lane
      rw [dotQuant, Nat.mul_div_cancel_left _ (by decide), if_pos (Nat.mul_mod_right 2 j)]
    have second : dotQuant x (2 * j + 1) = fun lane => x.qs (j * 32 + lane) >>> 0x04 := by
      funext lane
      have place : (2 * j + 1) / 2 = j ∧ (2 * j + 1) % 2 ≠ 0 := by omega
      rw [dotQuant, place.1, if_neg place.2]
    have quants : ∀ lane, 2 * j * 32 + lane = j * 64 + lane ∧
        (2 * j + 1) * 32 + lane = j * 64 + (32 + lane) := fun lane => by omega
    simp only [subTerm, first, second, quants]
  have rows : ∑ sb ∈ range (4 * 2), subTerm x y sb =
      ∑ j ∈ range 4, subTerm x y (2 * j) + ∑ j ∈ range 4, subTerm x y (2 * j + 1) := by
    rw [Layout.sum_rows, ← sum_add_distrib]
    refine sum_congr rfl fun j _ => ?_
    rw [sum_range_succ, sum_range_one, Nat.mul_comm]
    rfl
  have fits : Fits 32 (∑ sb ∈ range 8, subTerm x y sb) := by
    refine sum_fits (b := 63 * 32768) (fun sb h => ?_) (by decide)
    have field : (((unpackScales x.scales).scales sb).toNat : ℤ) ≤ 63 := by
      have := (mins_lt x h).2
      omega
    rw [subTerm_eq x y h, abs_mul, abs_of_nonneg (Int.natCast_nonneg _)]
    exact mul_le_mul field (abs_wrap_le (by decide) _) (abs_nonneg _) (by decide)
  rw [halves, foldl_accumulate, foldl_accumulate, accumulate_eq, accumulate_eq, wrap_wrap_add,
    wrap_add_wrap, ← rows, (wrap_eq_self_iff (by decide) _).mpr fits, heldSum]
  exact sum_congr rfl fun sb h => subTerm_eq x y (mem_range.mp h)

theorem vecDotBlock_eq (summed : Summed y) (sumf : F) :
    vecDotBlock sumf x y = some (sumf + heldDot x y.toBlockQ8K) := by
  rw [vecDotBlock, sums_eq, sumi_eq summed, heldDot, Option.some_inj]
  ring

end Sums

section Product

variable {request : Bench.BenchmarkRequest} {weight : ℕ → BlockQ4K F} {activation : ℕ → SummedQ8K F}
variable {iterations : ℕ}

def quants (activation : ℕ → SummedQ8K F) (x : ℕ) : BlockQ8K F := (activation x).toBlockQ8K

def AllSummed (request : Bench.BenchmarkRequest) (activation : ℕ → SummedQ8K F) : Prop :=
  ∀ m < request.m, ∀ b < request.k / 256, Summed (activation (m * (request.k / 256) + b))

theorem vecDot_computes (summed : AllSummed request activation) :
    Computes request (request.k / 256) weight (fun m b => activation (m * (request.k / 256) + b))
      (heldElement weight (quants activation) (request.k / 256)) (vecDot (request.k / 256)) := by
  intro memory sizes holds m hm n hn
  have folded := overBlocks_eq (fun sumf x y => sumf + heldDot x y.toBlockQ8K) 0 sizes holds hm hn
    fun i hi sumf => vecDotBlock_eq (summed m hm i hi) sumf
  rw [vecDot, folded, Folds.foldl_add_eq]
  rfl

end Product

def sampleSummed : ℕ → SummedQ8K ℚ := fun x => ⟨sampleActivation x, fun _ => -1600⟩

end Pfng.Q4K.VecDot
