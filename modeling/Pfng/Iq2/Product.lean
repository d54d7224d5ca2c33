import Mathlib.Data.Rat.Floor
import Pfng.Iq2.Exactness
import Pfng.Iq2.Matrix
import Pfng.Q40.Adapter

/-! What the elements are: the same for both kernels when one chunk holds all blocks, and without
rounding the reference product with its sub-block sums held in 16 bits. -/
namespace Pfng.Iq2
open Checked Register Rvv Finset

variable {α : Type} {F : Type} [Field F]

/-- The shape that `validate_shape<12, 32, 256>` accepts, in tiles and blocks. -/
def Problem.ofRequest (request : Bench.BenchmarkRequest) (weight : ℕ → BlockIq2xxs α)
    (activation : ℕ → BlockQ8K α) : Problem α :=
  ⟨request.m / 12, request.n / 32, request.k / 256, weight, activation⟩

namespace Problem

variable {p : Problem α} {q : Problem F} {row column : ℕ}

theorem brElement_of_le (ops : FloatOps α α) (eighth : α) (pos : 0 < p.blocks)
    (small : p.blocks ≤ kcBlocks) :
    p.brElement ops eighth row column (p.chunks - 1) = p.irElement ops eighth row column := by
  have one : p.chunks - 1 = 0 := by
    rw [chunks_eq]
    rw [kcBlocks] at small
    omega
  have all : p.chunkBlocks 0 = p.blocks := by
    rw [chunkBlocks, Nat.zero_mul, Nat.sub_zero, Nat.min_eq_left small]
  rw [one, brElement, chunkSum, all, Nat.zero_mul, irElement]

def term (q : Problem F) (row column block : ℕ) : F :=
  (q.blockSum row column block 8 : F) * ((q.blockW column block).d * (q.blockA row block).d)

theorem panelSum_exact (start i_qk : ℕ) :
    q.panelSum (.exact F) row column start i_qk =
      ∑ i ∈ range (i_qk + 1), q.term row column (start + i) := by
  induction i_qk with
  | zero =>
      rw [sum_range_one]
      rfl
  | succ i_qk ih =>
      rw [sum_range_succ, ← ih]
      rfl

theorem irElement_exact (eighth : F) (pos : 0 < q.blocks) :
    q.irElement (.exact F) eighth row column =
      (∑ block ∈ range q.blocks, q.term row column block) * eighth := by
  have product : ∀ x : F, (FloatOps.exact F).mul x eighth = x * eighth := fun _ => rfl
  rw [irElement, product, panelSum_exact, Nat.sub_add_cancel pos]
  simp only [Nat.zero_add]

theorem sum_chunks (f : ℕ → F) (n : ℕ) :
    ∑ i_kc ∈ range n, ∑ i ∈ range (q.chunkBlocks i_kc), f (i_kc * kcBlocks + i) =
      ∑ block ∈ range (min q.blocks (n * kcBlocks)), f block := by
  induction n with
  | zero => rw [Nat.zero_mul, Nat.min_zero, sum_range_zero, sum_range_zero]
  | succ n ih =>
      have next : min q.blocks ((n + 1) * kcBlocks) =
          min q.blocks (n * kcBlocks) + q.chunkBlocks n := by
        simp only [chunkBlocks, kcBlocks]
        omega
      rw [sum_range_succ, ih, next, sum_range_add]
      congr 1
      apply sum_congr rfl
      intro i hi
      have begins : min q.blocks (n * kcBlocks) = n * kcBlocks := by
        have inside := mem_range.mp hi
        simp only [chunkBlocks, kcBlocks] at *
        omega
      rw [begins]

theorem brElement_exact (eighth : F) {n : ℕ} (hn : n < q.chunks) :
    q.brElement (.exact F) eighth row column n =
      (∑ i_kc ∈ range (n + 1), ∑ i ∈ range (q.chunkBlocks i_kc),
        q.term row column (i_kc * kcBlocks + i)) * eighth := by
  have chunk : ∀ i_kc < q.chunks, q.chunkSum (.exact F) row column i_kc =
      ∑ i ∈ range (q.chunkBlocks i_kc), q.term row column (i_kc * kcBlocks + i) := by
    intro i_kc hc
    rw [chunkSum, panelSum_exact, Nat.sub_add_cancel (chunkBlocks_pos hc)]
  induction n with
  | zero =>
      rw [sum_range_one, ← chunk 0 hn]
      rfl
  | succ n ih =>
      have step : q.brElement (.exact F) eighth row column (n + 1) =
          q.brElement (.exact F) eighth row column n +
            eighth * q.chunkSum (.exact F) row column (n + 1) := rfl
      rw [step, ih (Nat.lt_of_succ_lt hn), chunk (n + 1) hn, sum_range_succ _ (n + 1),
        add_mul _ _ eighth, mul_comm eighth]

theorem brElement_eq_irElement (eighth : F) (pos : 0 < q.blocks) :
    q.brElement (.exact F) eighth row column (q.chunks - 1) =
      q.irElement (.exact F) eighth row column := by
  have chunks : q.chunks - 1 + 1 = q.chunks ∧ q.blocks ≤ q.chunks * kcBlocks := by
    rw [chunks_eq, kcBlocks]
    omega
  rw [brElement_exact eighth (by omega), chunks.1, sum_chunks, Nat.min_eq_left chunks.2,
    irElement_exact eighth pos]

def Decodes (p : Problem α) (column : ℕ) (v : ℕ → ℕ → ℕ → BitVec 8) : Prop :=
  ∀ block < p.blocks, ∀ i_qsk < 8, ∀ k < 32,
    decodeSubblock (fun j => (p.blockW column block).qs (i_qsk * 8 + j)) k = some (v block i_qsk k)

def heldProduct (q : Problem F) (row column : ℕ) (v : ℕ → ℕ → ℕ → BitVec 8) : F :=
  (8 : F)⁻¹ * ∑ block ∈ range q.blocks, (q.blockW column block).d * (q.blockA row block).d *
    ((∑ i_qsk ∈ range 8, decodeScale (fun j => (q.blockW column block).qs (i_qsk * 8 + j)) *
      wrap 16 (∑ k ∈ range 32, (v block i_qsk k).toInt * q.quant row block i_qsk k) : ℤ) : F)

theorem scale_le (p : Problem α) (column block i_qsk : ℕ) :
    0 ≤ p.scale column block i_qsk ∧ p.scale column block i_qsk ≤ 31 := by
  have low : ∀ word : BitVec 32, ((word >>> 28) &&& 0xf).toNat ≤ 15 := fun word => by
    rw [BitVec.toNat_and]
    exact Nat.and_le_right
  have bound := low (signsAndScale fun j => (p.blockW column block).qs (i_qsk * 8 + j))
  rw [scale, decompressScale]
  omega

theorem blockSum_eq (p : Problem α) (row column block : ℕ) :
    p.blockSum row column block 8 =
      ∑ i_qsk ∈ range 8, p.subSum row column block i_qsk * p.scale column block i_qsk := by
  refine (accumulate_exact_iff (by decide) _ _).mpr (sum_fits (b := 32768 * 31) ?_ (by decide))
  intro i_qsk _
  have held : |p.subSum row column block i_qsk| ≤ 32768 := by
    rw [subSum, accumulate_eq]
    exact abs_wrap_le (by decide) _
  obtain ⟨low, high⟩ := p.scale_le column block i_qsk
  rw [abs_mul, abs_of_nonneg low]
  exact mul_le_mul held high low (by decide)

theorem subSum_decoded {v : ℕ → ℕ → ℕ → BitVec 8} {block i_qsk : ℕ} (grid : Generated p)
    (hc : column < p.n) (decodes : p.Decodes column v) (hb : block < p.blocks) (hq : i_qsk < 8) :
    p.subSum row column block i_qsk =
      wrap 16 (∑ k ∈ range 32, (v block i_qsk k).toInt * p.quant row block i_qsk k) := by
  rw [subSum, accumulate_eq]
  congr 1
  apply sum_congr rfl
  intro k hk
  have hk := mem_range.mp hk
  have decode : decodeSubblock (fun j => (p.blockW column block).qs (i_qsk * 8 + j)) k = _ :=
    decodeSubblock_eq (grid column hc block hb i_qsk hq (k / 8) (by omega))
  have same := Option.some.inj (decode.symm.trans (decodes block hb i_qsk hq k hk))
  rw [product, Problem.value, same]

theorem irElement_eq_heldProduct {v : ℕ → ℕ → ℕ → BitVec 8} (pos : 0 < q.blocks)
    (grid : Generated q) (hc : column < q.n) (decodes : q.Decodes column v) :
    q.irElement (.exact F) (8 : F)⁻¹ row column = q.heldProduct row column v := by
  have block_eq : ∀ block < q.blocks, q.blockSum row column block 8 =
      ∑ i_qsk ∈ range 8, decodeScale (fun j => (q.blockW column block).qs (i_qsk * 8 + j)) *
        wrap 16 (∑ k ∈ range 32, (v block i_qsk k).toInt * q.quant row block i_qsk k) := by
    intro block hb
    rw [blockSum_eq]
    apply sum_congr rfl
    intro i_qsk hq
    rw [subSum_decoded grid hc decodes hb (mem_range.mp hq), mul_comm]
    rfl
  have terms : ∑ block ∈ range q.blocks, q.term row column block = _ :=
    sum_congr rfl fun block hb => by rw [term, block_eq block (mem_range.mp hb), mul_comm]
  rw [irElement_exact _ pos, terms, mul_comm, heldProduct]

end Problem

section Runs

variable [Inhabited α] {request : Bench.BenchmarkRequest} {iterations : ℕ}

/-- Runs of both kernels, each from any memory with arrays of its sizes: both end, and each writes
every element, with one value where `agree` holds. -/
def RunsAgree (ops : FloatOps α α) (eighth : α) (p : Problem α) (iterations : ℕ) (agree : Prop) :
    Prop :=
  ∀ (packedBr packedIr : PackedMemory α) (scratchBr scratchIr : ScratchMemory α),
    packedBr.size = brSize p → packedIr.size = irSize p →
    scratchBr.size = scratchSize p → scratchIr.size = scratchSize p →
    Ends (runGemm p (gemmBr ops eighth p) iterations packedBr scratchBr) fun br =>
      Ends (runGemm p (gemmIr ops eighth p) iterations packedIr scratchIr) fun ir =>
        ∀ x < p.m * p.n, (br.cell .output x).isSome ∧ (ir.cell .output x).isSome ∧
          (agree → br.cell .output x = ir.cell .output x)

theorem run_br (ops : FloatOps α α) (eighth : α) {p : Problem α} {memory : PackedMemory α}
    {scratch : ScratchMemory α} (pos : 0 < p.blocks) (once : 1 ≤ iterations)
    (packedSizes : memory.size = brSize p) (sizes : scratch.size = scratchSize p) :
    Ends (runGemm p (gemmBr ops eighth p) iterations memory scratch)
      (Leaves p fun row column => p.brElement ops eighth row column (p.chunks - 1)) := by
  have chunks : 0 < p.chunks := by
    rw [Problem.chunks_eq]
    omega
  exact runGemm_ends once rfl rfl packedSizes sizes fun _ _ => gemmBr_ends chunks

theorem run_ir (ops : FloatOps α α) (eighth : α) {p : Problem α} {memory : PackedMemory α}
    {scratch : ScratchMemory α} (pos : 0 < p.blocks) (once : 1 ≤ iterations)
    (packedSizes : memory.size = irSize p) (sizes : scratch.size = scratchSize p) :
    Ends (runGemm p (gemmIr ops eighth p) iterations memory scratch)
      (Leaves p (p.irElement ops eighth)) :=
  runGemm_ends once rfl rfl packedSizes sizes fun _ _ => gemmIr_ends pos

theorem runsAgree {ops : FloatOps α α} {eighth : α} {p : Problem α} {agree : Prop}
    (pos : 0 < p.blocks) (once : 1 ≤ iterations)
    (same : agree → ∀ row column, p.brElement ops eighth row column (p.chunks - 1) =
      p.irElement ops eighth row column) : RunsAgree ops eighth p iterations agree := by
  intro packedBr packedIr scratchBr scratchIr sizeBr sizeIr sizeBr' sizeIr'
  refine (run_br ops eighth pos once sizeBr sizeBr').mono fun br left => ?_
  refine (run_ir ops eighth pos once sizeIr sizeIr').mono fun ir left' => ?_
  intro x hx
  obtain ⟨row, hr, column, hc, rfl⟩ := Layout.lt_iff.mp hx
  rw [left row hr column hc, left' row hr column hc]
  exact ⟨rfl, rfl, fun agree => congrArg some (same agree row column)⟩

end Runs

variable {request : Bench.BenchmarkRequest} {iterations : ℕ}

theorem ofRequest_blocks_pos (weight : ℕ → BlockIq2xxs α) (activation : ℕ → BlockQ8K α)
    (supported : (Q40.validateShape 12 32 256 request).supported = true) :
    0 < (Problem.ofRequest request weight activation).blocks := by
  obtain ⟨⟨_, _, depth⟩, _, _, wholeK⟩ := Q40.validateShape_supported supported
  simp only [Problem.ofRequest]
  omega

/-- The batch-reduce kernel stays inside its arrays and agrees with the immediate-reduce kernel: bit
for bit for any float steps when K is at most KC, and for every K without rounding. -/
theorem br_agrees_with_ir (supported : (Q40.validateShape 12 32 256 request).supported = true)
    (once : 1 ≤ iterations) :
    (∀ (α : Type) [Inhabited α] (ops : FloatOps α α) (eighth : α) (weight : ℕ → BlockIq2xxs α)
      (activation : ℕ → BlockQ8K α),
      RunsAgree ops eighth (.ofRequest request weight activation) iterations
        (request.k ≤ 16384)) ∧
    ∀ (F : Type) [Field F] [Inhabited F] (eighth : F) (weight : ℕ → BlockIq2xxs F)
      (activation : ℕ → BlockQ8K F),
      RunsAgree (.exact F) eighth (.ofRequest request weight activation) iterations True := by
  constructor
  · intro α _ ops eighth weight activation
    have pos := ofRequest_blocks_pos weight activation supported
    refine runsAgree pos once fun small row column => ?_
    refine Problem.brElement_of_le ops eighth pos ?_
    simp only [Problem.ofRequest, kcBlocks]
    omega
  · intro F _ _ eighth weight activation
    have pos := ofRequest_blocks_pos weight activation supported
    exact runsAgree pos once fun _ row column => Problem.brElement_eq_irElement eighth pos

def sampleColumns : Bench.BenchmarkRequest := ⟨12, 32, 16640, 0, 1, 1, 1, 0, 0, true, []⟩

def sampleProblem (request : Bench.BenchmarkRequest) : Problem ℚ :=
  .ofRequest request (constantInput 30).weight (constantInput 30).activation

/-- Arrays that hold `output` where a result goes. -/
def someScratch (p : Problem α) (output : Option α) : ScratchMemory α where
  size := scratchSize p
  cell
    | .sumSubblock, _ => none
    | .sumBlock, _ => none
    | .sum, _ => none
    | .output, _ => output

theorem sample_br_agrees_with_ir :
    Ends (runGemm (sampleProblem sampleColumns)
        (gemmBr (.exact ℚ) (1 / 8) (sampleProblem sampleColumns)) 2
        (someMemory (sampleProblem sampleColumns) (brSize (sampleProblem sampleColumns)))
        (someScratch (sampleProblem sampleColumns) (some 7))) fun br =>
      Ends (runGemm (sampleProblem sampleColumns)
          (gemmIr (.exact ℚ) (1 / 8) (sampleProblem sampleColumns)) 2
          (someMemory (sampleProblem sampleColumns) (irSize (sampleProblem sampleColumns)))
          (someScratch (sampleProblem sampleColumns) none)) fun ir =>
        br.cell .output 0 = ir.cell .output 0 := by
  have runs := (br_agrees_with_ir
    (by decide : (Q40.validateShape 12 32 256 sampleColumns).supported = true) (by decide : 1 ≤ 2)).2 ℚ
    (1 / 8) (constantInput 30).weight (constantInput 30).activation
  refine (runs (someMemory (sampleProblem sampleColumns) (brSize (sampleProblem sampleColumns)))
    (someMemory (sampleProblem sampleColumns) (irSize (sampleProblem sampleColumns)))
    (someScratch (sampleProblem sampleColumns) (some 7))
    (someScratch (sampleProblem sampleColumns) none) rfl rfl rfl rfl).mono fun br same => ?_
  exact same.mono fun ir same => (same 0 (by decide)).2.2 trivial

/-- The immediate-reduce kernel leaves the reference product, with its sub-block sums in 16 bits. -/
theorem ir_reference_product [Inhabited F]
    (supported : (Q40.validateShape 12 32 256 request).supported = true) (once : 1 ≤ iterations)
    (weight : ℕ → BlockIq2xxs F) (activation : ℕ → BlockQ8K F)
    (grid : Generated (.ofRequest request weight activation)) (packed : PackedMemory F)
    (scratch : ScratchMemory F) (sizes : packed.size = irSize (.ofRequest request weight activation))
    (scratchSizes : scratch.size = scratchSize (.ofRequest request weight activation)) :
    Ends (runGemm (.ofRequest request weight activation)
        (gemmIr (.exact F) (8 : F)⁻¹ (.ofRequest request weight activation)) iterations packed scratch)
      fun left => ∀ row < request.m, ∀ column < request.n, ∃ v,
        Problem.Decodes (.ofRequest request weight activation) column v ∧
        left.cell .output (row * request.n + column) =
          some (Problem.heldProduct (.ofRequest request weight activation) row column v) := by
  obtain ⟨_, wholeM, wholeN, _⟩ := Q40.validateShape_supported supported
  have pos := ofRequest_blocks_pos weight activation supported
  have m : (Problem.ofRequest request weight activation).m = request.m := wholeM
  have n : (Problem.ofRequest request weight activation).n = request.n := wholeN
  refine (run_ir (.exact F) (8 : F)⁻¹ pos once sizes scratchSizes).mono fun left known => ?_
  rw [← m, ← n]
  intro row hr column hc
  have decodes : Problem.Decodes (.ofRequest request weight activation) column
      fun block i_qsk => decompressSubblock fun j =>
        ((Problem.ofRequest request weight activation).blockW column block).qs (i_qsk * 8 + j) :=
    fun block hb i_qsk hq k hk =>
      decodeSubblock_eq (grid column hc block hb i_qsk hq (k / 8) (by omega))
  refine ⟨_, decodes, ?_⟩
  rw [known row hr column hc, Problem.irElement_eq_heldProduct pos grid hc decodes]

def sampleBlock : Bench.BenchmarkRequest := ⟨12, 32, 256, 0, 1, 1, 1, 0, 0, true, []⟩

theorem sample_ir_reference_product :
    Ends (runGemm (sampleProblem sampleBlock)
        (gemmIr (.exact ℚ) (8 : ℚ)⁻¹ (sampleProblem sampleBlock)) 1
        (someMemory (sampleProblem sampleBlock) (irSize (sampleProblem sampleBlock)))
        (someScratch (sampleProblem sampleBlock) none)) fun left => ∃ v,
      (sampleProblem sampleBlock).Decodes 0 v ∧
        left.cell .output 0 = some ((sampleProblem sampleBlock).heldProduct 0 0 v) := by
  have grid : Generated (sampleProblem sampleBlock) := fun column _ block _ i_qsk _ group hg => by
    have index : (sampleProblem sampleBlock).gridIndex column block i_qsk group = 30 :=
      gridIndex_constant hg
    rw [index]
    decide
  refine (ir_reference_product
    (by decide : (Q40.validateShape 12 32 256 sampleBlock).supported = true) (by decide : 1 ≤ 1)
    (constantInput 30).weight (constantInput 30).activation grid
    (someMemory (sampleProblem sampleBlock) (irSize (sampleProblem sampleBlock)))
    (someScratch (sampleProblem sampleBlock) none)
    rfl rfl).mono fun left known => ?_
  exact known 0 (by decide) 0 (by decide)

end Pfng.Iq2
