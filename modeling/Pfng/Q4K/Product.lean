import Mathlib.Data.Rat.Floor
import Pfng.Q40.Adapter
import Pfng.Q4K.Group

/-! Without rounding both kernels leave the product that the reference decodes, but for the 16 bits
that hold the sum of a sub-block. -/
namespace Pfng.Q4K
open Checked Register Rvv Finset

variable {α : Type} {F : Type} [Field F]

/-- The quant `q` that `dot_q4_K_q8_K` reads. -/
def dotQuant (w : BlockQ4K α) (sb j : ℕ) : BitVec 8 :=
  let packed := w.qs (sb / 2 * 32 + j)
  if sb % 2 = 0 then packed &&& 15 else packed >>> 4

/-- The integers that multiply `d` and `dmin`; the sum of a sub-block lies in 16 bits. -/
def heldSum (w : BlockQ4K α) (a : BlockQ8K α) : Sums → ℤ
  | .sum => ∑ sb ∈ range 8, ((unpackScales w.scales).scales sb).toNat *
      wrap 16 (∑ j ∈ range 32, (dotQuant w sb j).toNat * (a.qs (sb * 32 + j)).toInt)
  | .sumMin => ∑ sb ∈ range 8, ((unpackScales w.scales).mins sb).toNat *
      ∑ j ∈ range 32, (a.qs (sb * 32 + j)).toInt

/-- `dot_q4_K_q8_K` on these integers. -/
def heldDot (w : BlockQ4K F) (a : BlockQ8K F) : F :=
  a.d * (w.d * (heldSum w a .sum : F) - w.dmin * (heldSum w a .sumMin : F))

/-- An element of the output: `compute_q4_K` on these integers. -/
def heldElement (weight : ℕ → BlockQ4K F) (activation : ℕ → BlockQ8K F) (blocks row column : ℕ) : F :=
  ∑ b ∈ range blocks, heldDot (weight (column * blocks + b)) (activation (row * blocks + b))

namespace Problem

variable {p : Problem α} {q : Problem F} {row column block : ℕ}

theorem dotQuant_eq (w : BlockQ4K α) {sb j : ℕ} (hj : j < 32) :
    q4Value w (sb * 32 + j) = dotQuant w sb j := by
  have place : (sb * 32 + j) / 64 = sb / 2 ∧ (sb * 32 + j) % 32 = j := by omega
  have half : (sb * 32 + j) % 64 < 32 ↔ sb % 2 = 0 := by omega
  simp only [q4Value, dotQuant, place, half]

/-- Eight held sums with their scales, or eight sums with their minimums, fit into 32 bits. -/
theorem blockSum_eq (p : Problem α) (s : Sums) (row column block : ℕ) :
    p.blockSum s row column block 8 = heldSum (p.blockW column block) (p.blockA row block) s := by
  have field : ∀ w : BitVec 8, w.toNat < 64 → (w.toNat : ℤ) ≤ 63 := by omega
  cases s with
  | sum =>
      have exact := (accumulate_exact_iff (w := 32) (by decide)
        (fun sb => p.term row column block sb .sum) 8).mpr
        (sum_fits (b := 32768 * 63) (fun sb _ => ?_) (by decide))
      · rw [blockSum, exact, heldSum]
        refine sum_congr rfl fun sb hsb => ?_
        have inside := mem_range.mp hsb
        rw [term, scale, subSum, accumulate_eq, unpackScales_scales _ inside, Int.mul_comm]
        have products : ∑ j ∈ range 32, p.product row column block sb j = _ :=
          sum_congr rfl fun j hj => by rw [product, nibble, dotQuant_eq _ (mem_range.mp hj)]
        rw [products]
      · have held : |p.subSum row column block sb| ≤ 32768 := by
          rw [subSum, accumulate_eq]
          exact abs_wrap_le (by decide) _
        rw [term, abs_mul, Nat.abs_cast]
        exact mul_le_mul held (field _ (q4Scale_lt _ _)) (Int.natCast_nonneg _) (by decide)
  | sumMin =>
      have exact := (accumulate_exact_iff (w := 32) (by decide)
        (fun sb => p.term row column block sb .sumMin) 8).mpr
        (sum_fits (b := 63 * 4096) (fun sb _ => ?_) (by decide))
      · rw [blockSum, exact, heldSum]
        refine sum_congr rfl fun sb hsb => ?_
        rw [term, min, bsum, unpackScales_mins _ (mem_range.mp hsb)]
      · have total : |p.bsum row block sb| ≤ 4096 := by
          refine (abs_sum_le_sum_abs _ _).trans ?_
          exact sum_le_card_nsmul (range 32) _ 128 fun k _ => abs_toInt_le _
        rw [term, abs_mul, Nat.abs_cast]
        exact mul_le_mul (field _ (q4Min_lt _ _)) total (abs_nonneg _) (by decide)

/-- What a block adds to either float sum. -/
def floatTerm (q : Problem F) (s : Sums) (row column block : ℕ) : F :=
  (heldSum (q.blockW column block) (q.blockA row block) s : F) *
    (s.scaleOf (q.blockW column block) * (q.blockA row block).d)

theorem mySum_exact (s : Sums) (i_qk : ℕ) :
    q.mySum (.exact F) s row column i_qk = ∑ b ∈ range (i_qk + 1), q.floatTerm s row column b := by
  induction i_qk with
  | zero =>
      rw [sum_range_one, mySum, blockSum_eq]
      rfl
  | succ i_qk ih =>
      rw [sum_range_succ, ← ih, mySum, blockSum_eq]
      rfl

theorem groupSum_exact (s : Sums) (n : ℕ) :
    q.groupSum (.exact F) s row column n = ∑ b ∈ range n, q.floatTerm s row column b := by
  induction n with
  | zero =>
      rw [sum_range_zero]
      rfl
  | succ n ih =>
      rw [sum_range_succ, ← ih, groupSum, blockSum_eq]
      rfl

theorem groupElement_exact : q.groupElement (.exact F) row column =
    heldElement q.weight q.activation q.blocks row column := by
  have difference : q.groupElement (.exact F) row column =
      q.groupSum (.exact F) .sum row column q.blocks -
        q.groupSum (.exact F) .sumMin row column q.blocks := rfl
  rw [difference, groupSum_exact, groupSum_exact, ← sum_sub_distrib, heldElement]
  refine sum_congr rfl fun b _ => ?_
  rw [floatTerm, floatTerm, heldDot]
  simp only [Sums.scaleOf, blockW, blockA]
  ring

theorem myElement_exact (pos : 0 < q.blocks) : q.myElement (.exact F) row column =
    heldElement q.weight q.activation q.blocks row column := by
  rw [← groupElement_exact, myElement, groupElement, mySum_exact, mySum_exact, groupSum_exact,
    groupSum_exact, Nat.sub_add_cancel pos]

/-- The shape that `validate_shape<mr, 32, 256>` accepts, in tiles and blocks. -/
def ofRequest (mr : ℕ) (request : Bench.BenchmarkRequest) (weight : ℕ → BlockQ4K α)
    (activation : ℕ → BlockQ8K α) : Problem α :=
  ⟨request.m / mr, request.n / 32, request.k / 256, weight, activation⟩

end Problem

section Runs

variable {request : Bench.BenchmarkRequest} {weight : ℕ → BlockQ4K F} {activation : ℕ → BlockQ8K F}
variable {iterations mr : ℕ}

/-- Read as int16, every packed member of `bsums` is the sum of its sub-block. -/
def BsumsExact (mr : ℕ) (p : Problem α) (parts : Parts α) : Prop :=
  ∀ tile < p.tilesM, ∀ b < p.blocks, ∀ x < mr, ∀ i < 8,
    Ends (parts.load .bsums ((tile * p.blocks + b) * (8 * mr) + (i * mr + x))) fun bits =>
      bits.toInt = ∑ k ∈ range 32, ((p.blockA (tile * mr + x) b).qs (i * 32 + k)).toInt

/-- Every element of the output is the held product. -/
def LeavesHeld (request : Bench.BenchmarkRequest) (weight : ℕ → BlockQ4K F)
    (activation : ℕ → BlockQ8K F) (scratch : ScratchMemory F) : Prop :=
  ∀ row < request.m, ∀ column < request.n, scratch.cell .output (row * request.n + column) =
    some (heldElement weight activation (request.k / 256) row column)

/-- `prepare` and `run`, from any memory with arrays of their sizes. -/
def Serves (mr : ℕ) (p : Problem α) (prepare : Bytes × Parts α → Option (Bytes × Parts α))
    (run : Bytes → Parts α → ScratchMemory α → Option (ScratchMemory α))
    (left : ScratchMemory α → Prop) : Prop :=
  ∀ bytes parts scratch, bytes.size = bufferSize mr p → parts.size = partSize mr p →
    scratch.size = scratchSize mr p → Ends (prepare (bytes, parts)) fun s =>
      BsumsExact mr p s.2 ∧ Ends (run s.1 s.2 scratch) left

theorem bsumsExact {p : Problem α} {live : ℕ} {scaleByte : ℕ → ℕ → BitVec 8} {parts : Parts α}
    (prepared : Prepared mr live p scaleByte parts) : BsumsExact mr p parts :=
  fun _ ht _ hb _ hx _ hi => ⟨_, prepared.bsums ht hb hx hi, toInt_bsum _ _⟩

theorem leavesHeld {element : ℕ → ℕ → F} {scratch : ScratchMemory F}
    (supported : (Q40.validateShape mr 32 256 request).supported = true)
    (left : Leaves mr (.ofRequest mr request weight activation) element scratch)
    (value : ∀ row column, element row column =
      heldElement weight activation (request.k / 256) row column) :
    LeavesHeld request weight activation scratch := by
  obtain ⟨_, wholeM, wholeN, _⟩ := Q40.validateShape_supported supported
  intro row hr column hc
  have cell := left row (Nat.lt_of_lt_of_eq hr wholeM.symm) column (Nat.lt_of_lt_of_eq hc wholeN.symm)
  rw [← value, ← cell]
  exact congrArg (fun n => scratch.cell .output (row * n + column)) wholeN.symm

variable [Inhabited F]

theorem my_serves (supported : (Q40.validateShape 12 32 256 request).supported = true)
    (once : 1 ≤ iterations) :
    Serves 12 (.ofRequest 12 request weight activation)
      (prepareMy (.ofRequest 12 request weight activation))
      (fun bytes parts => runMy (.exact F) bytes parts (.ofRequest 12 request weight activation)
        iterations) (LeavesHeld request weight activation) := by
  obtain ⟨⟨_, _, depth⟩, _, _, wholeK⟩ := Q40.validateShape_supported supported
  have pos : 0 < (Problem.ofRequest 12 request weight activation).blocks := by
    simp only [Problem.ofRequest]
    omega
  intro bytes parts scratch sizes partSizes scratchSizes
  refine (prepareMy_ends sizes partSizes).mono fun s ⟨ready, prepared⟩ => ⟨bsumsExact prepared, ?_⟩
  refine (runMy_ends pos once ready prepared scratchSizes).mono fun scratch' left => ?_
  exact leavesHeld supported left fun _ _ => Problem.myElement_exact pos

theorem group_serves (supported : (Q40.validateShape 4 32 256 request).supported = true)
    (once : 1 ≤ iterations) :
    Serves 4 (.ofRequest 4 request weight activation)
      (prepareGroup (.ofRequest 4 request weight activation))
      (fun bytes parts => runGroup (.exact F) bytes parts (.ofRequest 4 request weight activation)
        iterations) (LeavesHeld request weight activation) := by
  intro bytes parts scratch sizes partSizes scratchSizes
  refine (prepareGroup_ends sizes partSizes).mono fun s ⟨ready, prepared⟩ => ⟨bsumsExact prepared, ?_⟩
  refine (runGroup_ends once ready prepared scratchSizes).mono fun scratch' left => ?_
  exact leavesHeld supported left fun _ _ => Problem.groupElement_exact

/-- Either kernel leaves the held product on every shape it accepts, and so they agree where both
accept; `bsums` keeps every sum of a sub-block. -/
theorem kernels_leave_held_product (once : 1 ≤ iterations) :
    ((Q40.validateShape 12 32 256 request).supported = true →
      Serves 12 (.ofRequest 12 request weight activation)
        (prepareMy (.ofRequest 12 request weight activation))
        (fun bytes parts => runMy (.exact F) bytes parts (.ofRequest 12 request weight activation)
          iterations) (LeavesHeld request weight activation)) ∧
    ((Q40.validateShape 4 32 256 request).supported = true →
      Serves 4 (.ofRequest 4 request weight activation)
        (prepareGroup (.ofRequest 4 request weight activation))
        (fun bytes parts => runGroup (.exact F) bytes parts (.ofRequest 4 request weight activation)
          iterations) (LeavesHeld request weight activation)) ∧
    ((Q40.validateShape 12 32 256 request).supported = true →
      (Q40.validateShape 4 32 256 request).supported = true →
      Serves 12 (.ofRequest 12 request weight activation)
        (prepareMy (.ofRequest 12 request weight activation))
        (fun bytes parts => runMy (.exact F) bytes parts (.ofRequest 12 request weight activation)
          iterations) fun my =>
        Serves 4 (.ofRequest 4 request weight activation)
          (prepareGroup (.ofRequest 4 request weight activation))
          (fun bytes parts => runGroup (.exact F) bytes parts (.ofRequest 4 request weight activation)
            iterations) fun group =>
          ∀ x < request.m * request.n, my.cell .output x = group.cell .output x) := by
  refine ⟨fun my => my_serves my once, fun group => group_serves group once, fun my group => ?_⟩
  intro bytes parts scratch sizes partSizes scratchSizes
  refine (my_serves my once bytes parts scratch sizes partSizes scratchSizes).mono fun s ⟨sums, run⟩ =>
    ⟨sums, run.mono fun left held => ?_⟩
  intro bytes parts scratch sizes partSizes scratchSizes
  refine (group_serves group once bytes parts scratch sizes partSizes scratchSizes).mono
    fun s ⟨sums, run⟩ => ⟨sums, run.mono fun left' held' => ?_⟩
  intro x hx
  obtain ⟨row, hr, column, hc, rfl⟩ := Layout.lt_iff.mp hx
  rw [held row hr column hc, held' row hr column hc]

end Runs

def sampleRequest : Bench.BenchmarkRequest := ⟨12, 64, 512, 0, 1, 1, 1, 0, 0, true, []⟩

def sampleWeight : ℕ → BlockQ4K ℚ := fun x =>
  ⟨(x % 7 + 1 : ℕ) / 2, 1 / 4, fun j => BitVec.ofNat 8 (x * 5 + j * 23), fun j => BitVec.ofNat 8 (x * 37 + j * 11)⟩

def sampleActivation : ℕ → BlockQ8K ℚ := fun _ => ⟨1 / 8, fun _ => -100⟩

def sampleBytes (p : Problem α) (mr : ℕ) : Bytes := ⟨bufferSize mr p, fun _ _ => 0x5a⟩

def sampleParts (p : Problem ℚ) (mr : ℕ) : Parts ℚ where
  size := partSize mr p
  cell
    | .activationD, _ => 3
    | .bsums, _ => 0xffff
    | .weightD _, _ => 4
    | .scales, _ => 0x77

def sampleScratch (p : Problem ℚ) (mr : ℕ) : ScratchMemory ℚ where
  size := scratchSize mr p
  cell
    | .sumBlock, _ => 9
    | .rows _, _ => none
    | .output, _ => some 7

def sampleProblem (mr : ℕ) : Problem ℚ := .ofRequest mr sampleRequest sampleWeight sampleActivation

/-- Both kernels, each prepared and run in a memory with old contents. -/
theorem sample_kernels_leave_held_product :
    Ends (prepareMy (sampleProblem 12) (sampleBytes (sampleProblem 12) 12, sampleParts (sampleProblem 12) 12))
      (fun s => Ends (runMy (.exact ℚ) s.1 s.2 (sampleProblem 12) 3 (sampleScratch (sampleProblem 12) 12))
        fun my => my.cell .output (11 * 64 + 63) =
            some (heldElement sampleWeight sampleActivation 2 11 63) ∧
          Ends (prepareGroup (sampleProblem 4)
            (sampleBytes (sampleProblem 4) 4, sampleParts (sampleProblem 4) 4)) fun s =>
          Ends (runGroup (.exact ℚ) s.1 s.2 (sampleProblem 4) 3 (sampleScratch (sampleProblem 4) 4))
            fun group => group.cell .output (11 * 64 + 63) =
              some (heldElement sampleWeight sampleActivation 2 11 63)) ∧
    Ends (prepareMy (sampleProblem 12) (sampleBytes (sampleProblem 12) 12, sampleParts (sampleProblem 12) 12))
      (fun s => Ends (runMy (.exact ℚ) s.1 s.2 (sampleProblem 12) 3 (sampleScratch (sampleProblem 12) 12))
        fun my => Ends (prepareGroup (sampleProblem 4)
            (sampleBytes (sampleProblem 4) 4, sampleParts (sampleProblem 4) 4)) fun s =>
          Ends (runGroup (.exact ℚ) s.1 s.2 (sampleProblem 4) 3 (sampleScratch (sampleProblem 4) 4))
            fun group => ∀ x < 12 * 64, my.cell .output x = group.cell .output x) := by
  have my : Serves 12 (sampleProblem 12) (prepareMy (sampleProblem 12))
      (fun bytes parts => runMy (.exact ℚ) bytes parts (sampleProblem 12) 3)
      (LeavesHeld sampleRequest sampleWeight sampleActivation) :=
    (kernels_leave_held_product (by decide)).1 (by decide)
  have group : Serves 4 (sampleProblem 4) (prepareGroup (sampleProblem 4))
      (fun bytes parts => runGroup (.exact ℚ) bytes parts (sampleProblem 4) 3)
      (LeavesHeld sampleRequest sampleWeight sampleActivation) :=
    (kernels_leave_held_product (by decide)).2.1 (by decide)
  have agree : Serves 12 (sampleProblem 12) (prepareMy (sampleProblem 12))
      (fun bytes parts => runMy (.exact ℚ) bytes parts (sampleProblem 12) 3) fun my =>
        Serves 4 (sampleProblem 4) (prepareGroup (sampleProblem 4))
          (fun bytes parts => runGroup (.exact ℚ) bytes parts (sampleProblem 4) 3) fun group =>
            ∀ x < 12 * 64, my.cell .output x = group.cell .output x :=
    (kernels_leave_held_product (by decide)).2.2 (by decide) (by decide)
  have first := my (sampleBytes (sampleProblem 12) 12) (sampleParts (sampleProblem 12) 12)
    (sampleScratch (sampleProblem 12) 12) rfl rfl rfl
  have second := group (sampleBytes (sampleProblem 4) 4) (sampleParts (sampleProblem 4) 4)
    (sampleScratch (sampleProblem 4) 4) rfl rfl rfl
  have both := agree (sampleBytes (sampleProblem 12) 12) (sampleParts (sampleProblem 12) 12)
    (sampleScratch (sampleProblem 12) 12) rfl rfl rfl
  constructor
  · refine first.mono fun s ⟨_, run⟩ => run.mono fun my held => ⟨held 11 (by decide) 63 (by decide), ?_⟩
    exact second.mono fun s ⟨_, run⟩ => run.mono fun group held => held 11 (by decide) 63 (by decide)
  · refine both.mono fun s ⟨_, run⟩ => run.mono fun my agree => ?_
    exact (agree (sampleBytes (sampleProblem 4) 4) (sampleParts (sampleProblem 4) 4)
      (sampleScratch (sampleProblem 4) 4) rfl rfl rfl).mono fun s ⟨_, run⟩ => run

end Pfng.Q4K
