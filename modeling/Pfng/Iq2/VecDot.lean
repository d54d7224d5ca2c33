import Pfng.Iq2.Exactness
import Pfng.Lib.Folds
import Pfng.Lib.Rounding
import Pfng.VecDot

/-! `ggml_vec_dot_iq2_xxs_q8_K` on vectors of 256 bits, against the reference: the sum of a sub-block
is taken in 32 bits, and nothing wraps. -/
namespace Pfng.Iq2.VecDot
open Checked Register Pfng.VecDot Finset

/-- The word of `iq2xxs_grid` at a byte offset, as eight bytes. -/
def grid64 (offset : ℕ) : Option (ℕ → BitVec 8) :=
  if offset % 8 = 0 then iq2xxsGrid[offset / 8]?.map magnitudeByte else none

/-- The word of `keven_signs_q2xs` at a byte offset, as eight bytes. -/
def signs64 (offset : ℕ) : Option (ℕ → BitVec 8) :=
  if offset + 8 ≤ kevenSignsQ2xs.length then
    some fun lane => kevenSignsQ2xs.getD (offset + lane) 0
  else none

/-- `__riscv_vluxei16_v_u64m1` of four words, reread as bytes. -/
def vluxei16 (table : ℕ → Option (ℕ → BitVec 8)) (vidx : ℕ → BitVec 16) : Option (ℕ → BitVec 8) :=
  (gather fun group : Fin 4 => table (vidx group).toNat).map fun words lane =>
    words (Fin.ofNat 4 (lane / 8)) (lane % 8)

/-- `scalar_sum1 * scale1`, from the eight bytes and the quants of a sub-block. -/
def scaledSum (q2_ptr q8 : ℕ → BitVec 8) : Option ℤ :=
  let vidx_q2 := fun group => (q2_ptr group).setWidth 16 <<< 3
  let s_packed := signsAndScale q2_ptr
  let v_s := fun group => (s_packed >>> (7 * group)) &&& 127
  let vidx_s2 := fun group => (v_s group).setWidth 16 <<< 3
  (vluxei16 grid64 vidx_q2).bind fun q2 =>
  (vluxei16 signs64 vidx_s2).map fun s2 =>
  let q8s := fun lane => q8 lane * s2 lane
  let dot := vwmul q8s q2
  let scalar_sum := vwredsum dot 32
  let scale := wrap 16 (2 * (((s_packed >>> 28) &&& 0xF).toNat : ℤ) + 1)
  wrap 32 (scalar_sum * scale)

variable {F : Type} [Field F]

/-- `sum` of a block; each round takes two sub-blocks. -/
def blockSum (x : BlockIq2xxs F) (y : BlockQ8K F) : Option F :=
  forUp (fun pair sum =>
    (scaledSum (fun j => x.qs (pair * 16 + j)) fun j => y.qs (pair * 64 + j)).bind fun first =>
    (scaledSum (fun j => x.qs (pair * 16 + (8 + j))) fun j => y.qs (pair * 64 + (32 + j))).map
      fun second => sum + (wrap 32 (first + second) : ℤ)) 0 4 0

def vecDotBlock (sumf : F) (x : BlockIq2xxs F) (y : BlockQ8K F) : Option F :=
  (blockSum x y).map fun sum => sumf + sum * (x.d * y.d)

/-- `ggml_vec_dot_iq2_xxs_q8_K_vl256`. -/
def vecDot (nb vx vy : ℕ) (memory : DotMemory (BlockIq2xxs F) (BlockQ8K F) F) : Option F :=
  (overBlocks vecDotBlock 0 nb vx vy memory).map fun sumf => 8⁻¹ * sumf

def dotIq2xxsQ8K (weight : BlockIq2xxs F) (activation : BlockQ8K F) : Option F :=
  (forUp (fun subblock sum => (subblockSum weight activation subblock 32).map fun subblock_sum =>
    wrap 32 (sum + wrap 32 (decodeScale (fun j => weight.qs (subblock * 8 + j)) * subblock_sum)))
    0 8 (0 : ℤ)).map fun sum => 8⁻¹ * weight.d * activation.d * sum

/-- One element of `compute_iq2_xxs`. -/
def computeElement (weight : ℕ → BlockIq2xxs F) (activation : ℕ → BlockQ8K F) (blocks : ℕ) : Option F :=
  forUp (fun b output => (dotIq2xxsQ8K (weight b) (activation b)).map fun dot => output + dot) 0 blocks 0

section Tables

theorem gridWord {index : BitVec 8} :
    grid64 (index.setWidth 16 <<< 3).toNat = some (magnitudeByte (iq2xxsGrid.getD index.toNat 0)) := by
  have all : iq2xxsGrid.length = 256 := by decide +kernel
  have offset : (index.setWidth 16 <<< 3 : BitVec 16).toNat = index.toNat * 8 := by
    have small := index.isLt
    simp only [BitVec.toNat_shiftLeft, BitVec.toNat_setWidth, Nat.shiftLeft_eq]
    omega
  rw [offset, grid64, if_pos (Nat.mul_mod_left _ _), Nat.mul_div_cancel _ (by decide),
    List.getD_eq_getElem?_getD, List.getElem?_eq_getElem (by rw [all]; exact index.isLt)]
  rfl

theorem kevenSigns_eq : kevenSignsQ2xs = (List.range 1024).map fun x =>
    if (ksignsIq2xs.getD (x / 8) 0).getLsbD (x % 8) then -1 else 1 := by
  decide +kernel

theorem kevenSigns_at {index lane : ℕ} (h : index < 128) (hl : lane < 8) :
    kevenSignsQ2xs.getD (index * 8 + lane) 0 =
      if (ksignsIq2xs.getD index 0).getLsbD lane then -1 else 1 := by
  have inside : index * 8 + lane < 1024 := by omega
  rw [kevenSigns_eq, List.getD_eq_getElem?_getD, List.getElem?_map, List.getElem?_range inside,
    Option.map_some, Option.getD_some, Layout.row hl, Layout.column hl]

theorem signWord (q2 : ℕ → BitVec 8) (group : ℕ) :
    signs64 (((signsAndScale q2 >>> (7 * group)) &&& 127).setWidth 16 <<< 3 : BitVec 16).toNat =
      some fun lane => kevenSignsQ2xs.getD ((signIndex q2 group).toNat * 8 + lane) 0 := by
  have all : kevenSignsQ2xs.length = 1024 := by decide +kernel
  have small := signIndex_lt q2 group
  have offset : (((signsAndScale q2 >>> (7 * group)) &&& 127).setWidth 16 <<< 3 : BitVec 16).toNat =
      (signIndex q2 group).toNat * 8 := by
    have word : (signsAndScale q2 >>> (7 * group) &&& 127).toNat ≤ 127 := by
      rw [BitVec.toNat_and]
      exact Nat.and_le_right
    simp only [signIndex, BitVec.toNat_shiftLeft, BitVec.toNat_setWidth, Nat.shiftLeft_eq]
    omega
  rw [offset, signs64, all, if_pos (by omega)]

theorem vluxei16_eq {table : ℕ → Option (ℕ → BitVec 8)} {vidx : ℕ → BitVec 16}
    {word : ℕ → ℕ → BitVec 8} (each : ∀ group < 4, table (vidx group).toNat = some (word group)) :
    vluxei16 table vidx = some fun lane => word (lane / 8 % 4) (lane % 8) := by
  have loaded : Ends (gather fun group : Fin 4 => table (vidx group).toNat) fun words =>
      ∀ group : Fin 4, word group = words group :=
    gather_ends fun group => ⟨word group, each group group.isLt, rfl⟩
  obtain ⟨words, run, same⟩ := loaded
  rw [vluxei16, run, Option.map_some, Option.some_inj]
  funext lane
  exact (congrFun (same (Fin.ofNat 4 (lane / 8))) (lane % 8)).symm

end Tables

section Subblock

theorem signed_product : ∀ b : BitVec 8, b.toNat ≤ 43 → (-b).toInt = -b.toInt := by decide +kernel

theorem negated_quant : ∀ q : BitVec 8, |q.toInt| ≤ 127 → (q * -1).toInt = -q.toInt := by decide +kernel

theorem lane_eq {packed q8 : ℕ → BitVec 8} {i : ℕ} (index : (packed (i / 8)).toNat < 32)
    (quant : |(q8 i).toInt| ≤ 127) :
    (q8 i * kevenSignsQ2xs.getD ((signIndex packed (i / 8)).toNat * 8 + i % 8) 0).toInt *
        (magnitudeByte (iq2xxsGrid.getD (packed (i / 8)).toNat 0) (i % 8)).toInt =
      (decompressSubblock packed i).toInt * (q8 i).toInt := by
  have lane : i % 8 < 8 := Nat.mod_lt _ (by decide)
  have small : (magnitudeByte (iq2xxsGrid.getD (packed (i / 8)).toNat 0) (i % 8)).toNat ≤ 43 :=
    magnitude_le _ index _ lane
  rw [kevenSigns_at (signIndex_lt packed _) lane, decompressSubblock]
  split
  · rw [negated_quant _ quant, signed_product _ small]
    ring
  · have plain : q8 i * 1 = q8 i := BitVec.mul_one _
    rw [plain, mul_comm]

def term (q2 q8 : ℕ → BitVec 8) : ℤ :=
  decodeScale q2 * ∑ k ∈ range 32, (decompressSubblock q2 k).toInt * (q8 k).toInt

theorem decodeScale_le (q2 : ℕ → BitVec 8) : 0 ≤ decodeScale q2 ∧ decodeScale q2 ≤ 31 := by
  have low : (signsAndScale q2 >>> 28 &&& 0x0f).toNat ≤ 15 := by
    rw [BitVec.toNat_and]
    exact Nat.and_le_right
  rw [decodeScale]
  omega

theorem abs_term_le (q2 q8 : ℕ → BitVec 8) : |term q2 q8| ≤ 31 * 524288 := by
  have sum := abs_sum_le (n := 32) fun k _ =>
    abs_toInt_mul_toInt_le (decompressSubblock q2 k) (q8 k)
  obtain ⟨low, high⟩ := decodeScale_le q2
  rw [term, abs_mul, abs_of_nonneg low]
  exact mul_le_mul high sum (abs_nonneg _) (by decide)

theorem scaledSum_eq {q2 q8 : ℕ → BitVec 8} (grid : ∀ group < 4, (q2 group).toNat < 32)
    (quants : ∀ k < 32, |(q8 k).toInt| ≤ 127) : scaledSum q2 q8 = some (term q2 q8) := by
  have values : vluxei16 grid64 (fun group => (q2 group).setWidth 16 <<< 3) = some _ :=
    vluxei16_eq fun _ _ => gridWord
  have signs : vluxei16 signs64
      (fun group => ((signsAndScale q2 >>> (7 * group)) &&& 127).setWidth 16 <<< 3) = some _ :=
    vluxei16_eq fun group _ => signWord q2 group
  have sums : vwredsum (vwmul (fun lane => q8 lane * kevenSignsQ2xs.getD
      ((signIndex q2 (lane / 8 % 4)).toNat * 8 + lane % 8) 0) fun lane => magnitudeByte
        (iq2xxsGrid.getD (q2 (lane / 8 % 4)).toNat 0) (lane % 8)) 32 =
      ∑ k ∈ range 32, (decompressSubblock q2 k).toInt * (q8 k).toInt := by
    rw [vwredsum, (accumulate_exact_iff (by decide) _ _).mpr]
    · refine sum_congr rfl fun k hk => ?_
      have group : k / 8 < 4 := by
        have := mem_range.mp hk
        omega
      rw [vwmul_eq, Nat.mod_eq_of_lt group]
      exact lane_eq (grid _ group) (quants k (mem_range.mp hk))
    · refine sum_fits (b := 16384) (fun k _ => ?_) (by decide)
      rw [vwmul_eq]
      exact abs_toInt_mul_toInt_le _ _
  have scale : wrap 16 (2 * (((signsAndScale q2 >>> 28) &&& 0xF).toNat : ℤ) + 1) = decodeScale q2 := by
    obtain ⟨low, high⟩ := decodeScale_le q2
    refine (wrap_eq_self_iff (by decide) _).mpr (fits_of_abs_lt ?_)
    exact (abs_of_nonneg low).trans_lt (high.trans_lt (by decide))
  have fits : wrap 32 (term q2 q8) = term q2 q8 :=
    (wrap_eq_self_iff (by decide) _).mpr
      (fits_of_abs_lt ((abs_term_le q2 q8).trans_lt (by decide)))
  simp only [scaledSum, values, signs, Option.bind_some, Option.map_some, sums, scale]
  rw [mul_comm]
  exact congrArg some fits

end Subblock

section Block

def GeneratedBlock (x : BlockIq2xxs F) : Prop :=
  ∀ subblock < 8, ∀ group < 4, (x.qs (subblock * 8 + group)).toNat < 32

/-- The quants of one block that `quantize_row_q8_K` writes. -/
def QuantisedBlock (y : BlockQ8K F) : Prop := ∀ k < 256, |(y.qs k).toInt| ≤ 127

def termAt (x : BlockIq2xxs F) (y : BlockQ8K F) (subblock : ℕ) : ℤ :=
  term (fun j => x.qs (subblock * 8 + j)) fun j => y.qs (subblock * 32 + j)

def blockProduct (x : BlockIq2xxs F) (y : BlockQ8K F) : F :=
  8⁻¹ * x.d * y.d * ((∑ subblock ∈ range 8, termAt x y subblock : ℤ) : F)

variable {x : BlockIq2xxs F} {y : BlockQ8K F}

omit [Field F] in
theorem abs_termAt_le (x : BlockIq2xxs F) (y : BlockQ8K F) (subblock : ℕ) :
    |termAt x y subblock| ≤ 31 * 524288 := abs_term_le _ _

omit [Field F] in
theorem scaledSum_at (grid : GeneratedBlock x) (quants : QuantisedBlock y) {subblock : ℕ}
    (h : subblock < 8) :
    scaledSum (fun j => x.qs (subblock * 8 + j)) (fun j => y.qs (subblock * 32 + j)) =
      some (termAt x y subblock) :=
  scaledSum_eq (grid subblock h) fun k hk => quants _ (by omega)

theorem blockSum_eq (grid : GeneratedBlock x) (quants : QuantisedBlock y) :
    blockSum x y = some ((∑ subblock ∈ range 8, termAt x y subblock : ℤ) : F) := by
  have pairs : Ends (blockSum x y) fun sum =>
      sum = ((∑ subblock ∈ range (4 * 2), termAt x y subblock : ℤ) : F) := by
    refine loop_ends (fun pair sum => sum = ((∑ subblock ∈ range (pair * 2),
      termAt x y subblock : ℤ) : F)) (by simp) fun pair hp sum known => ?_
    have first := scaledSum_at grid quants (show pair * 2 < 8 by omega)
    have second := scaledSum_at grid quants (show pair * 2 + 1 < 8 by omega)
    have weights : ∀ j, pair * 2 * 8 + j = pair * 16 + j ∧
        (pair * 2 + 1) * 8 + j = pair * 16 + (8 + j) := fun j => by omega
    have quant : ∀ j, pair * 2 * 32 + j = pair * 64 + j ∧
        (pair * 2 + 1) * 32 + j = pair * 64 + (32 + j) := fun j => by omega
    simp only [weights, quant] at first second
    have fits : wrap 32 (termAt x y (pair * 2) + termAt x y (pair * 2 + 1)) = _ :=
      (wrap_eq_self_iff (by decide) _).mpr (fits_of_abs_lt (((abs_add_le _ _).trans
        (add_le_add (abs_termAt_le x y _) (abs_termAt_le x y _))).trans_lt (by decide)))
    have next : (pair + 1) * 2 = pair * 2 + 1 + 1 := by omega
    rw [first, second, Option.bind_some, Option.map_some, known, fits, next, sum_range_succ,
      sum_range_succ]
    refine ⟨_, rfl, ?_⟩
    push_cast
    ring
  obtain ⟨sum, run, rfl⟩ := pairs
  exact run

theorem dotIq2xxsQ8K_eq (grid : GeneratedBlock x) : dotIq2xxsQ8K x y = some (blockProduct x y) := by
  have subblock_sum : ∀ subblock < 8, subblockSum x y subblock 32 =
      some (∑ k ∈ range 32, (decompressSubblock (fun j => x.qs (subblock * 8 + j)) k).toInt *
        (y.qs (subblock * 32 + k)).toInt) := fun subblock h =>
    @subblockSum_eq F ⟨1, 1, 1, fun _ => x, fun _ => y⟩ 0 0 0 subblock (grid subblock h) 32 (by decide)
  have total : Ends (forUp (fun subblock sum => (subblockSum x y subblock 32).map fun subblock_sum =>
      wrap 32 (sum + wrap 32 (decodeScale (fun j => x.qs (subblock * 8 + j)) * subblock_sum)))
      0 8 (0 : ℤ)) fun sum => sum = ∑ subblock ∈ range 8, termAt x y subblock := by
    refine loop_ends (fun n sum => sum = ∑ subblock ∈ range n, termAt x y subblock) rfl
      fun n hn sum known => ?_
    have one : wrap 32 (termAt x y n) = termAt x y n := (wrap_eq_self_iff (by decide) _).mpr
      (fits_of_abs_lt ((abs_termAt_le x y n).trans_lt (by decide)))
    have all : Fits 32 (∑ subblock ∈ range (n + 1), termAt x y subblock) := by
      refine sum_fits (fun subblock _ => abs_termAt_le x y subblock) ?_
      have : ((n + 1 : ℕ) : ℤ) * (31 * 524288) ≤ 8 * (31 * 524288) := by omega
      exact lt_of_le_of_lt this (by decide)
    rw [subblock_sum n hn, Option.map_some]
    refine ⟨_, rfl, ?_⟩
    rw [sum_range_succ] at all ⊢
    rw [← (wrap_eq_self_iff (by decide) _).mpr all, known]
    exact congrArg (fun next => wrap 32 (_ + next)) one
  obtain ⟨sum, run, rfl⟩ := total
  rw [dotIq2xxsQ8K, run]
  rfl

end Block

section Product

variable {request : Bench.BenchmarkRequest} {blocks : ℕ} {weight : ℕ → BlockIq2xxs F}
variable {activation : ℕ → ℕ → BlockQ8K F}

/-- Every block of the weights and of the quantised activation is as the harness makes them. -/
structure WellFormed (request : Bench.BenchmarkRequest) (blocks : ℕ) (weight : ℕ → BlockIq2xxs F)
    (activation : ℕ → ℕ → BlockQ8K F) : Prop where
  grid : ∀ n < request.n, ∀ b < blocks, GeneratedBlock (weight (n * blocks + b))
  quants : ∀ m < request.m, ∀ b < blocks, QuantisedBlock (activation m b)

def element (weight : ℕ → BlockIq2xxs F) (activation : ℕ → ℕ → BlockQ8K F) (blocks m n : ℕ) : F :=
  ∑ b ∈ range blocks, blockProduct (weight (n * blocks + b)) (activation m b)

theorem computeElement_eq (formed : WellFormed request blocks weight activation) {n : ℕ}
    (hn : n < request.n) (m : ℕ) :
    computeElement (fun b => weight (n * blocks + b)) (activation m) blocks =
      some (element weight activation blocks m n) := by
  have sum : Ends (computeElement (fun b => weight (n * blocks + b)) (activation m) blocks)
      fun output => output = element weight activation blocks m n := by
    refine loop_ends (fun b output => output = ∑ b ∈ range b,
      blockProduct (weight (n * blocks + b)) (activation m b)) rfl fun b hb output known => ?_
    rw [dotIq2xxsQ8K_eq (formed.grid n hn b hb), known, sum_range_succ]
    exact ⟨_, rfl, rfl⟩
  obtain ⟨output, run, rfl⟩ := sum
  exact run

theorem vecDot_computes (formed : WellFormed request blocks weight activation) :
    Computes request blocks weight activation (element weight activation blocks) (vecDot blocks) := by
  intro memory sizes holds m hm n hn
  have block : ∀ i < blocks, ∀ sumf, vecDotBlock sumf (weight (n * blocks + i)) (activation m i) =
      some (sumf + ((∑ subblock ∈ range 8, termAt (weight (n * blocks + i)) (activation m i)
        subblock : ℤ) : F) * ((weight (n * blocks + i)).d * (activation m i).d)) := by
    intro i hi sumf
    rw [vecDotBlock, blockSum_eq (formed.grid n hn i hi) (formed.quants m hm i hi)]
    rfl
  have folded := overBlocks_eq (fun sumf x y => sumf +
    ((∑ subblock ∈ range 8, termAt x y subblock : ℤ) : F) * (x.d * y.d)) 0 sizes holds hm hn block
  rw [vecDot, folded, Option.map_some, Folds.foldl_add_eq, mul_sum, element]
  refine congrArg some (sum_congr rfl fun b _ => ?_)
  rw [blockProduct]
  ring

end Product

end Pfng.Iq2.VecDot
