import Pfng.Bench.Reference
import Pfng.Iq2.Product
import Pfng.Iq2.VecDot

/-! The adapters of the three kernels for IQ2_XXS, and what `run_benchmark` reports of them. The two
custom kernels hold the sum of a sub-block in 16 bits; the upstream kernel does not. -/
namespace Pfng.Iq2
open Checked Register Rvv Finset Quantizers
open Bench hiding Counted elements
open Pfng.Iq2.VecDot (GeneratedBlock QuantisedBlock WellFormed element)

variable {α : Type} [Field α] [LinearOrder α] [FloorRing α]

def quants (aq : ℕ → SummedQ8K α) (x : ℕ) : BlockQ8K α := (aq x).toBlockQ8K

section Adapters

/-- `quantize_row_q8_K` on every row, and then the packing. -/
def packQuantised {M : Type} (pack : BenchmarkRequest → (ℕ → BlockIq2xxs α) → (ℕ → BlockQ8K α) → M → Option M)
    (request : BenchmarkRequest) (input : Data α (BlockIq2xxs α)) (memory : M) : Option M :=
  (quantizeQ8KRows request.m request.k (request.k / 256) input.1).bind fun aq =>
    pack request input.2 (quants aq) memory

/-- `iq2_xxs-q8_K-RVV-upstream`; `packed_activation`, which its run does not read, is left out. -/
def rvvUpstream : Adapter α (BenchmarkInput α) (Data α (BlockIq2xxs α))
    (Pfng.VecDot.DotMemory (BlockIq2xxs α) (BlockQ8K α) α) where
  quantization := .weightIQ2_XXSActivationQ8_K
  peakPerformance := peakRvvI8I16Mac
  validate := Q40.validateShape 1 1 256
  getIf := BenchmarkInput.iq2xxs?
  expected := "expected IQ2_XXS/Q8_K input"
  fresh request := Pfng.VecDot.uniformMemory request (request.k / 256) ⟨0, fun _ => 0⟩ ⟨0, fun _ => 0⟩ 0
  pack := packQuantised fun request weight activation =>
    Pfng.VecDot.prepare request (request.k / 256) weight fun m b => activation (m * (request.k / 256) + b)
  run _ request := Pfng.VecDot.run request (request.k / 256) (VecDot.vecDot (request.k / 256))
  output memory x := some (memory.cell .output x)
  fill x memory := memory.renew .output fun _ => x

/-- `State`: `packed` also holds the arrays that a kernel decompresses into, `scratch` the output. -/
structure TileMemory (α : Type) where
  weight : ℕ → BlockIq2xxs α
  activation : ℕ → BlockQ8K α
  packed : PackedMemory α
  scratch : ScratchMemory α

/-- The arrays of a custom kernel, with zeros in them. -/
def freshTiles (size : Problem α → Buffer → ℕ) (request : BenchmarkRequest) : TileMemory α :=
  let p := Problem.ofRequest request (fun _ => (⟨0, fun _ => 0⟩ : BlockIq2xxs α)) fun _ => ⟨0, fun _ => 0⟩
  { weight := p.weight
    activation := p.activation
    packed := ⟨size p, fun k _ => match k with
      | .activationD => 0
      | .activationQs => 0
      | .weightQs => 0
      | .weightScale => 0
      | .weightD => 0⟩
    scratch := ⟨scratchSize p, fun k _ => match k with
      | .sumSubblock => none
      | .sumBlock => none
      | .sum => none
      | .output => some 0⟩ }

/-- A custom kernel. -/
def rvvTiles (size : Problem α → Buffer → ℕ)
    (kernel : Problem α → PackedMemory α × ScratchMemory α → Option (PackedMemory α × ScratchMemory α)) :
    Adapter α (BenchmarkInput α) (Data α (BlockIq2xxs α)) (TileMemory α) where
  quantization := .weightIQ2_XXSActivationQ8_K
  peakPerformance := peakRvvI8I16Mac
  validate := Q40.validateShape 12 32 256
  getIf := BenchmarkInput.iq2xxs?
  expected := "expected IQ2_XXS/Q8_K input"
  fresh := freshTiles size
  pack := packQuantised fun request weight activation memory =>
    (packActivation activation (request.m / 12) (request.k / 256) memory.packed).map fun packed =>
      ⟨weight, activation, packed, memory.scratch⟩
  run _ request iterations memory :=
    (forUp (fun _ => kernel (.ofRequest request memory.weight memory.activation)) 0 iterations
      (memory.packed, memory.scratch)).map fun (packed, scratch) => { memory with packed, scratch }
  output memory x := memory.scratch.cell .output x
  fill x memory := { memory with scratch := memory.scratch.renew .output fun _ => some x }

variable [Inhabited α]

/-- `iq2_xxs-q8_K-RVV-my-br`. -/
def rvvMyBr : Adapter α (BenchmarkInput α) (Data α (BlockIq2xxs α)) (TileMemory α) :=
  rvvTiles brSize (gemmBr (.exact α) (8 : α)⁻¹)

/-- `iq2_xxs-q8_K-RVV-my-ir`. -/
def rvvMyIr : Adapter α (BenchmarkInput α) (Data α (BlockIq2xxs α)) (TileMemory α) :=
  rvvTiles irSize (gemmIr (.exact α) (8 : α)⁻¹)

end Adapters

section Reference

variable {request : BenchmarkRequest} {activation : ℕ → α} {weight : ℕ → BlockIq2xxs α}
variable {aq : ℕ → SummedQ8K α}

def rows (request : BenchmarkRequest) (aq : ℕ → SummedQ8K α) (m b : ℕ) : BlockQ8K α :=
  quants aq (m * (request.k / 256) + b)

/-- The blocks that a pass of `quantize_row_q8_K` over the rows leaves. -/
structure QuantisedRows (request : BenchmarkRequest) (activation : ℕ → α) (aq : ℕ → SummedQ8K α) : Prop where
  run : quantizeQ8KRows request.m request.k (request.k / 256) activation = some aq
  bounded : ∀ m < request.m, ∀ b < request.k / 256, QuantisedBlock (rows request aq m b)

def GeneratedWeights (request : BenchmarkRequest) (weight : ℕ → BlockIq2xxs α) : Prop :=
  ∀ n < request.n, ∀ b < request.k / 256, GeneratedBlock (weight (n * (request.k / 256) + b))

/-- What the reference computes for element `i`. -/
def referenceAt (request : BenchmarkRequest) (weight : ℕ → BlockIq2xxs α) (aq : ℕ → SummedQ8K α)
    (i : ℕ) : α :=
  element weight (rows request aq) (request.k / 256) (i / request.n) (i % request.n)

def SubblocksFit (request : BenchmarkRequest) (weight : ℕ → BlockIq2xxs α) (aq : ℕ → SummedQ8K α) : Prop :=
  ∀ row < request.m, ∀ column < request.n, ∀ b < request.k / 256, ∀ i_qsk < 8, Fits 16
    (∑ k ∈ range 32, Problem.product (.ofRequest request weight (quants aq)) row column b i_qsk k)

theorem compute_eq (half : α → α) (quantised : QuantisedRows request activation aq)
    (grid : GeneratedWeights request weight) {i : ℕ} (hi : i < request.m * request.n) :
    compute half .weightIQ2_XXSActivationQ8_K
      (.iq2xxsQ8K request.m request.n request.k activation weight) i =
      .finite (referenceAt request weight aq i) := by
  obtain ⟨row, hr, column, hc, rfl⟩ := Layout.lt_iff.mp hi
  have formed : WellFormed request (request.k / 256) weight (rows request aq) :=
    ⟨grid, quantised.bounded⟩
  have one : VecDot.computeElement (fun b => weight (column * (request.k / 256) + b))
      (fun b => (aq (row * (request.k / 256) + b)).toBlockQ8K) (request.k / 256) = _ :=
    VecDot.computeElement_eq formed hc row
  simp only [compute, computeIq2xxs, quantised.run, Option.bind_some, Layout.row hc, Layout.column hc, one,
    Option.elim_some, referenceAt]

/-- Where the sums fit, a custom kernel leaves the same element. -/
theorem irElement_eq_element {row column : ℕ} (pos : 0 < request.k / 256)
    (fits : ∀ b < request.k / 256, ∀ i_qsk < 8, Fits 16
      (∑ k ∈ range 32, Problem.product (.ofRequest request weight (quants aq)) row column b i_qsk k)) :
    Problem.irElement (.exact α) (8 : α)⁻¹ (.ofRequest request weight (quants aq)) row column =
      element weight (rows request aq) (request.k / 256) row column := by
  let q := Problem.ofRequest request weight (quants aq)
  have blocks : q.blocks = request.k / 256 := rfl
  rw [Problem.irElement_exact _ pos, element, sum_mul, blocks]
  refine sum_congr rfl fun b hb => ?_
  have hb := mem_range.mp hb
  have sums : q.blockSum row column b 8 =
      ∑ i_qsk ∈ range 8, VecDot.termAt (q.blockW column b) (q.blockA row b) i_qsk := by
    rw [Problem.blockSum_eq]
    refine sum_congr rfl fun i_qsk hq => ?_
    rw [Problem.subSum, accumulate_eq, (wrap_eq_self_iff (by decide) _).mpr
      (fits b hb i_qsk (mem_range.mp hq)), mul_comm]
    rfl
  rw [Problem.term, sums, VecDot.blockProduct]
  change _ * ((q.blockW column b).d * (q.blockA row b).d) * 8⁻¹ =
    8⁻¹ * (q.blockW column b).d * (q.blockA row b).d *
      ((∑ i_qsk ∈ range 8, VecDot.termAt (q.blockW column b) (q.blockA row b) i_qsk : ℤ) : α)
  ring

variable [IsStrictOrderedRing α]

theorem quantised (request : BenchmarkRequest) (activation : ℕ → α) :
    ∃ aq, QuantisedRows request activation aq := by
  have rows : Ends (quantizeQ8KRows request.m request.k (request.k / 256) activation) _ :=
    quantizeRows_ends quantizeQ8K_ends activation fun _ => ⟨⟨0, fun _ => 0⟩, fun _ => 0⟩
  obtain ⟨aq, run, known⟩ := rows
  exact ⟨aq, run, fun m hm b hb i hi => abs_le.mpr ((known m hm b hb).1.range i hi)⟩

end Reference

section Honours

variable {request : BenchmarkRequest} {activation : ℕ → α} {weight : ℕ → BlockIq2xxs α}
variable {aq : ℕ → SummedQ8K α}

theorem QuantisedRows.packs {M : Type} (quantised : QuantisedRows request activation aq)
    (pack : BenchmarkRequest → (ℕ → BlockIq2xxs α) → (ℕ → BlockQ8K α) → M → Option M) :
    packQuantised pack request (activation, weight) = pack request weight (quants aq) := by
  funext memory
  rw [packQuantised, quantised.run, Option.bind_some]

theorem rvvUpstream_honours (quantised : QuantisedRows request activation aq)
    (grid : GeneratedWeights request weight) :
    ∃ Ready, Honours rvvUpstream request
      (.iq2xxsQ8K request.m request.n request.k activation weight) (referenceAt request weight aq)
      Ready := by
  have formed : WellFormed request (request.k / 256) weight (rows request aq) :=
    ⟨grid, quantised.bounded⟩
  let value := element weight (rows request aq) (request.k / 256)
  let u := Pfng.VecDot.contents request (request.k / 256) weight (rows request aq) value
  have packs : Writes (Pfng.VecDot.bufferSize request (request.k / 256))
      (Pfng.VecDot.prepare request (request.k / 256) weight (rows request aq)) u
      (Pfng.VecDot.Operands request (request.k / 256)) := Pfng.VecDot.prepare_writes
  have runs := fun (_ iterations : ℕ) => Pfng.VecDot.run_effect (VecDot.vecDot_computes formed) iterations
  refine ⟨_, Honours.of_effects .output packs runs (fun _ known => known.1 rfl)
    (fun _ _ _ known written => known.1 written.1) rfl rfl
    (quantised.packs fun request weight activation => Pfng.VecDot.prepare request (request.k / 256)
      weight fun m b => activation (m * (request.k / 256) + b))
    (fun _ => rfl) (fun x => ⟨_, rfl⟩) fun memory x hx left => ?_⟩
  obtain ⟨row, hr, column, hc, rfl⟩ := Layout.lt_iff.mp hx
  rw [referenceAt, Layout.row hc, Layout.column hc]
  exact congrArg some (left.trans (Layout.matrix_at value hc))

theorem rvvTiles_honours {size : Problem α → Buffer → ℕ}
    {kernel : Problem α → PackedMemory α × ScratchMemory α → Option (PackedMemory α × ScratchMemory α)}
    (value : ℕ → ℕ → α) (quantised : QuantisedRows request activation aq)
    (supported : (Q40.validateShape 12 32 256 request).supported = true)
    (sizes : ∀ weight activation, size (.ofRequest request weight activation) =
      size (.ofRequest request (fun _ => ⟨0, fun _ => 0⟩) fun _ => ⟨0, fun _ => 0⟩))
    (sizeD : size (.ofRequest request weight (quants aq)) .activationD =
      request.m / 12 * (request.k / 256) * 12)
    (sizeQs : size (.ofRequest request weight (quants aq)) .activationQs =
      request.m / 12 * (request.k / 256) * 3072)
    (spec : ∀ packed scratch, Ready (.ofRequest request weight (quants aq))
        (size (.ofRequest request weight (quants aq))) packed →
      scratch.size = scratchSize (.ofRequest request weight (quants aq)) →
      Ends (kernel (.ofRequest request weight (quants aq)) (packed, scratch)) fun s =>
        Ready (.ofRequest request weight (quants aq)) (size (.ofRequest request weight (quants aq))) s.1 ∧
        s.2.size = scratchSize (.ofRequest request weight (quants aq)) ∧
        Leaves (.ofRequest request weight (quants aq)) value s.2)
    (same : ∀ row < request.m, ∀ column < request.n,
      value row column = element weight (rows request aq) (request.k / 256) row column) :
    ∃ Ready, Honours (rvvTiles size kernel) request
      (.iq2xxsQ8K request.m request.n request.k activation weight) (referenceAt request weight aq)
      Ready := by
  let p := Problem.ofRequest request weight (quants aq)
  obtain ⟨_, wholeM, wholeN, _⟩ := Q40.validateShape_supported supported
  refine ⟨fun memory => memory.weight = weight ∧ memory.activation = quants aq ∧
    Ready p (size p) memory.packed ∧ memory.scratch.size = scratchSize p,
    ⟨(activation, weight), rfl, ?_⟩, fun _ _ ready => ready, ?_⟩
  · have packed : Ends (packQuantised (fun request weight activation (memory : TileMemory α) =>
        (packActivation activation (request.m / 12) (request.k / 256) memory.packed).map fun packed =>
          ⟨weight, activation, packed, memory.scratch⟩) request (activation, weight)
        (freshTiles size request)) fun memory => memory.weight = weight ∧
        memory.activation = quants aq ∧ Ready p (size p) memory.packed ∧
        memory.scratch.size = scratchSize p := by
      rw [quantised.packs]
      have fresh : (freshTiles size request : TileMemory α).packed.size = size p := (sizes _ _).symm
      refine (packActivation_ends fresh sizeD sizeQs).map fun packed ⟨kept, held⟩ => ?_
      exact ⟨rfl, rfl, ⟨kept, held⟩, rfl⟩
    exact packed
  · rintro turn iterations ⟨_, _, packed, scratch⟩ ⟨rfl, rfl, ready, sizes⟩
    have run : Ends (forUp (fun _ => kernel p) 0 iterations (packed, scratch)) _ :=
      loop_ends (fun i s => Ready p (size p) s.1 ∧ s.2.size = scratchSize p ∧
          (0 < i → Leaves p value s.2)) ⟨ready, sizes, fun no => absurd no (Nat.lt_irrefl 0)⟩
        fun i _ s ⟨ready, sizes, _⟩ => (spec s.1 s.2 ready sizes).mono
          fun s' ⟨ready', sizes', left⟩ => ⟨ready', sizes', fun _ => left⟩
    refine run.map fun s ⟨ready, sizes, left⟩ => ⟨⟨rfl, rfl, ready, sizes⟩, fun once x hx => ?_⟩
    obtain ⟨row, hr, column, hc, rfl⟩ := Layout.lt_iff.mp hx
    have cell := left once row (Nat.lt_of_lt_of_eq hr wholeM.symm) column
      (Nat.lt_of_lt_of_eq hc wholeN.symm)
    have place : s.2.cell .output (row * request.n + column) = some (value row column) := by
      rw [← cell]
      exact congrArg (fun n => s.2.cell .output (row * n + column)) wholeN.symm
    rw [referenceAt, Layout.row hc, Layout.column hc, ← same row hr column hc]
    exact place

variable [Inhabited α]

theorem rvvMy_honours (quantised : QuantisedRows request activation aq)
    (supported : (Q40.validateShape 12 32 256 request).supported = true)
    (fits : SubblocksFit request weight aq) :
    (∃ Ready, Honours rvvMyBr request (.iq2xxsQ8K request.m request.n request.k activation weight)
      (referenceAt request weight aq) Ready) ∧
    ∃ Ready, Honours rvvMyIr request (.iq2xxsQ8K request.m request.n request.k activation weight)
      (referenceAt request weight aq) Ready := by
  let p := Problem.ofRequest request weight (quants aq)
  have pos : 0 < request.k / 256 := ofRequest_blocks_pos weight (quants aq) supported
  have chunks : 0 < p.chunks := by
    rw [Problem.chunks_eq]
    change 0 < (request.k / 256 + 63) / 64
    omega
  have same : ∀ row < request.m, ∀ column < request.n,
      p.irElement (.exact α) (8 : α)⁻¹ row column =
        element weight (rows request aq) (request.k / 256) row column :=
    fun row hr column hc => irElement_eq_element pos (fits row hr column hc)
  constructor
  · refine rvvTiles_honours (fun row column =>
      p.brElement (.exact α) (8 : α)⁻¹ row column (p.chunks - 1)) quantised supported
      (fun _ _ => rfl) rfl rfl (fun _ _ ready sizes => gemmBr_ends chunks ready sizes)
      fun row hr column hc => ?_
    rw [Problem.brElement_eq_irElement _ pos]
    exact same row hr column hc
  · exact rvvTiles_honours (p.irElement (.exact α) (8 : α)⁻¹) quantised supported (fun _ _ => rfl)
      rfl rfl (fun _ _ ready sizes => gemmIr_ends pos ready sizes) same

end Honours

section Reports

variable [IsStrictOrderedRing α]

end Reports

def zeroIndices (_ : ℕ) : BlockIq2xxs ℚ := ⟨1 / 2, fun j => if j % 8 < 4 then 0 else 0x81⟩

theorem zeroIndices_fit {request : BenchmarkRequest} {activation : ℕ → ℚ} {aq : ℕ → SummedQ8K ℚ}
    (quantised : QuantisedRows request activation aq) : SubblocksFit request zeroIndices aq := by
  intro row hr column _ b hb i_qsk _
  have index : ∀ group < 4,
      Problem.gridIndex (.ofRequest request zeroIndices (quants aq)) column b i_qsk group = 0 := by
    intro group hg
    have lane : group % 8 < 4 := by omega
    simp [Problem.gridIndex, Problem.blockW, Problem.ofRequest, zeroIndices, lane]
  have eight : ∀ lane < 8, magnitude 0 lane = 8 := by decide
  refine sum_fits (b := 8 * 127) (fun k hk => ?_) (by decide)
  have value := abs_value (.ofRequest request zeroIndices (quants aq)) column b i_qsk hk
    fun group hg => (index group hg).trans_lt (by decide)
  rw [index (k / 8) (by omega), eight (k % 8) (by omega)] at value
  rw [Problem.product, abs_mul, value]
  exact mul_le_mul_of_nonneg_left (quantised.bounded row hr b hb _ (by omega)) (by decide)

def sampleRun : BenchmarkRequest := ⟨12, 32, 16640, 3, 10, 0, 1, 5, 1, true, [cyclesEvent]⟩

end Pfng.Iq2
