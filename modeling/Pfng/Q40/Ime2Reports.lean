import Pfng.Q40.ImeRrProduct
import Pfng.Q40.RvvReports

/-! The two adapters of the second generation of the matrix unit. Their quantiser is the one of the
reference, so that `run_benchmark` confirms them for every input. -/
namespace Pfng.Q40
open Checked Quantizers
open Bench hiding Counted
open BatchReduction (BatchMemory freshMemory FloatOps)

variable {α : Type} [Field α] [LinearOrder α] [FloorRing α]

section Adapters

variable (half : α → α)

/-- What the two adapters share. -/
def ime2 {M : Type} (mr : ℕ) (fresh : BenchmarkRequest → M)
    (pack : BenchmarkRequest → Input α → M → Option M) (run : ℕ → BenchmarkRequest → ℕ → M → Option M)
    (output : M → ℕ → Option α) (fill : α → M → M) :
    Adapter α (BenchmarkInput α) (Data α (BlockQ40 α)) M where
  quantization := .weightQ4_0ActivationQ8_0
  peakPerformance := peakIme2I8I32Mac
  validate := validateShape mr 32 32
  getIf := BenchmarkInput.q40?
  expected := "expected Q4_0/Q8_0 input"
  fresh := fresh
  pack request input := pack request ⟨input.1, input.2⟩
  run := run
  output := output
  fill := fill

/-- Buffers of zeros. -/
def ime2Fresh (size : Buffer → ℕ) : Ime2Memory α α where
  size := size
  cell := fun k _ => match k with
    | .aQs => 0
    | .aScales => 0
    | .bQs => 0
    | .bScales => 0
    | .scratch _ => 0
    | .acc => 0
    | .output => 0

/-- `q4_0-q8_0-IME-RR`. -/
def ime2Rr (schedules : (_turn : ℕ) → (request : BenchmarkRequest) → Schedule (request.n / 32) α) :=
  ime2 8 (fun request => ime2Fresh (ImeRr.bufferSize request)) (ImeRr.prepare half)
    (fun turn request => ImeRr.run request (schedules turn request))
    (fun memory x => some (memory.cell .output x)) fun x memory => memory.renew .output fun _ => x

/-- `q4_0-q8_0-IME-m8b` of the second generation. -/
def ime2M8b [Inhabited α]
    (schedules : (_turn : ℕ) → (request : BenchmarkRequest) → Schedule (request.m / 16) (Option ℤ)) :=
  ime2 16 (fun request => freshMemory (BatchReduction.bufferSize request .ime2
      (request.m / 16 * (request.k / 32))))
    (fun request input => BatchReduction.prepareIme2 request
      (BatchReduction.quantisedOperands half request input))
    (fun turn request => BatchReduction.runIme2 (.exact α) request (schedules turn request))
    (fun memory x => memory.cell (.floats .output) x)
    fun x memory => memory.renew (.floats .output) fun _ => some x

end Adapters

section Reports

variable {half : α → α} {request : BenchmarkRequest} {activation : ℕ → α} {weight : ℕ → BlockQ40 α}
variable {aq : ℕ → BlockQ80 α}

theorem ime2Rr_honours (supported : (validateShape 8 32 32 request).supported = true)
    (quantised : QuantisedRows half request activation aq)
    (schedules : (_turn : ℕ) → (request : BenchmarkRequest) → Schedule (request.n / 32) α) :
    ∃ Ready, Honours (ime2Rr half schedules) request
      (.q40Q80 request.m request.n request.k activation weight) (referenceElement request weight aq)
      Ready := by
  obtain ⟨_, wholeM, wholeN, wholeK⟩ := validateShape_supported supported
  refine ⟨_, Honours.of_effects .output
    (ImeRr.prepare_effect request half ⟨activation, weight⟩ fun _ => 0)
    (fun turn iterations => ImeRr.run_effect request half ⟨activation, weight⟩ wholeM wholeN
      (schedules turn request) iterations)
    (fun _ known => ImeRr.operand_ne_output request known) ?_ rfl rfl rfl (fun _ => rfl)
    (fun x => ⟨_, rfl⟩) fun memory x hx left => ?_⟩
  · rintro turn k x known (rfl | rfl | rfl)
    · exact ImeRr.operand_ne_scratch request known
    · exact ImeRr.operand_ne_scratch request known
    · exact ImeRr.operand_ne_output request known
  · obtain ⟨row, hr, column, hc, rfl⟩ := Layout.lt_iff.mp hx
    refine congrArg some (left.trans ?_)
    rw [quantised.product wholeK hr hc, ImeRr.contents, Layout.row hc, Layout.column hc, product]
    apply Finset.sum_congr rfl
    intro b _
    rw [ImeRr.contribution, integerSum_eq, mul_comm]
    rfl

theorem ime2M8b_honours [Inhabited α] (supported : (validateShape 16 32 32 request).supported = true)
    (quantised : QuantisedRows half request activation aq)
    (schedules : (_turn : ℕ) → (request : BenchmarkRequest) → Schedule (request.m / 16) (Option ℤ)) :
    ∃ Ready, Honours (ime2M8b half schedules) request
      (.q40Q80 request.m request.n request.k activation weight) (referenceElement request weight aq)
      Ready := by
  obtain ⟨⟨_, _, depth⟩, wholeM, wholeN, wholeK⟩ := validateShape_supported supported
  have blocks : 0 < request.k / 32 := by omega
  refine ⟨_, Honours.of_effects (.floats .output)
    (BatchReduction.prepareIme2_effect (.exact α) request
      (BatchReduction.quantisedOperands half request ⟨activation, weight⟩) fun _ => none)
    (fun turn iterations => BatchReduction.runIme2_effect blocks wholeM wholeN (schedules turn request)
      iterations) (fun _ known => known) ?_ rfl rfl rfl (fun _ => rfl) (fun x => ⟨_, rfl⟩)
    fun memory x hx left => ?_⟩
  · rintro turn k x known (scratch | output)
    · exact (BatchReduction.operands_apart k x known).1 scratch
    · exact (BatchReduction.operands_apart k x known).2 output
  · obtain ⟨row, hr, column, hc, rfl⟩ := Layout.lt_iff.mp hx
    refine left.trans ((BatchReduction.contents_exact hc).trans (congrArg some ?_))
    exact (quantised.product wholeK hr hc).symm

variable [IsStrictOrderedRing α]

end Reports

end Pfng.Q40
