import Pfng.Bench.Reference
import Pfng.Q40.Rvv32Product
import Pfng.Q40.VecDot

/-! The adapters of the three vector kernels for Q4_0, and what `run_benchmark` reports of them. -/
namespace Pfng.Q40
open Checked Quantizers
open Bench hiding Counted
open BatchReduction (Operands Counted)

variable {α : Type} [Field α] [LinearOrder α] [FloorRing α]

section Adapters

/-- `quantize_row_q8_0` on every row, and then the packing. -/
def packQuantised {M : Type} (half : α → α) (pack : BenchmarkRequest → Operands α α → M → Option M)
    (request : BenchmarkRequest) (input : Data α (BlockQ40 α)) (memory : M) : Option M :=
  (quantizeQ80Rows half request.m request.k (request.k / 32) input.1).bind fun aq =>
    pack request ⟨fun row block => aq (row * (request.k / 32) + block), input.2⟩ memory

/-- `q4_0-q8_0-RVV-upstream`. -/
def rvvUpstream (half : α → α) :
    Adapter α (BenchmarkInput α) (Data α (BlockQ40 α)) (Pfng.VecDot.DotMemory (BlockQ40 α) (BlockQ80 α) α) where
  quantization := .weightQ4_0ActivationQ8_0
  peakPerformance := peakRvvI8I16Mac
  validate := validateShape 1 1 32
  getIf := BenchmarkInput.q40?
  expected := "expected Q4_0/Q8_0 input"
  fresh request := Pfng.VecDot.uniformMemory request (request.k / 32) ⟨0, fun _ => 0⟩ ⟨0, fun _ => 0⟩ 0
  pack := packQuantised half fun request operands =>
    Pfng.VecDot.prepare request (request.k / 32) operands.weight operands.activation
  run _ request := Pfng.VecDot.run request (request.k / 32)
    (VecDot.vecDot (fun (sum : α) i w a => sum + i * w * a) 0 (request.k / 32))
  output memory x := some (memory.cell .output x)
  fill x memory := memory.renew .output fun _ => x

variable [Inhabited α]

/-- The adapters of the kernels with 32 columns. -/
def rvv32 (half : α → α) (mr : ℕ)
    (prepare : BenchmarkRequest → Operands α α → Rvv32.RvvMemory α α → Option (Rvv32.RvvMemory α α))
    (run : BenchmarkRequest → ℕ → Rvv32.RvvMemory α α → Option (Rvv32.RvvMemory α α)) :
    Adapter α (BenchmarkInput α) (Data α (BlockQ40 α)) (Rvv32.RvvMemory α α) where
  quantization := .weightQ4_0ActivationQ8_0
  peakPerformance := peakRvvI8I16Mac
  validate := validateShape mr 32 32
  getIf := BenchmarkInput.q40?
  expected := "expected Q4_0/Q8_0 input"
  fresh request := Rvv32.rvvUnwritten (Rvv32.rvvSize request mr)
  pack := packQuantised half prepare
  run _ := run
  output memory x := (memory.cell .output x).value
  fill x memory := memory.renew .output fun _ => ⟨some x, 0⟩

/-- `q4_0-q8_0-RVV-group`. -/
def rvvGroup (half : α → α) :
    Adapter α (BenchmarkInput α) (Data α (BlockQ40 α)) (Rvv32.RvvMemory α α) :=
  rvv32 half 12 Rvv32.prepare12 (Rvv32.run12 (.exact α) .wraps)

/-- `q4_0-q8_0-RVV-my`. -/
def rvvMy (half : α → α) :
    Adapter α (BenchmarkInput α) (Data α (BlockQ40 α)) (Rvv32.RvvMemory α α) :=
  rvv32 half 8 Rvv32.prepare8 (Rvv32.run8 (.exact α) .wraps)

end Adapters

section Reference

variable {request : BenchmarkRequest} {half : α → α} {activation : ℕ → α} {weight : ℕ → BlockQ40 α}
variable {aq : ℕ → BlockQ80 α}

/-- The blocks that a pass of `quantize_row_q8_0` over the rows leaves. -/
structure QuantisedRows (half : α → α) (request : BenchmarkRequest) (activation : ℕ → α)
    (aq : ℕ → BlockQ80 α) : Prop where
  run : quantizeQ80Rows half request.m request.k (request.k / 32) activation = some aq
  scale : ∀ row < request.m, ∀ b < request.k / 32, (aq (row * (request.k / 32) + b)).d =
    (quantizeBlock half fun i => activation (row * request.k + (b * 32 + i))).d
  quant : ∀ row < request.m, ∀ b < request.k / 32, ∀ i < 32, (aq (row * (request.k / 32) + b)).qs i =
    (quantizeBlock half fun i => activation (row * request.k + (b * 32 + i))).qs i

/-- What the reference computes for element `i`. -/
def referenceElement (request : BenchmarkRequest) (weight : ℕ → BlockQ40 α) (aq : ℕ → BlockQ80 α)
    (i : ℕ) : α :=
  dotQ40Q80 (fun b => weight (i % request.n * (request.k / 32) + b))
    (fun b => aq (i / request.n * (request.k / 32) + b)) (request.k / 32)

theorem compute_eq (quantised : QuantisedRows half request activation aq) (i : ℕ) :
    compute half .weightQ4_0ActivationQ8_0 (.q40Q80 request.m request.n request.k activation weight) i =
      .finite (referenceElement request weight aq i) := by
  simp only [compute, computeQ40, quantised.run, Option.map_some, Option.elim_some]
  rfl

omit [LinearOrder α] [FloorRing α] in
theorem referenceElement_at {row column : ℕ} (hc : column < request.n) :
    referenceElement request weight aq (row * request.n + column) =
      dotQ40Q80 (fun b => weight (column * (request.k / 32) + b))
        (fun b => aq (row * (request.k / 32) + b)) (request.k / 32) := by
  rw [referenceElement, Layout.row hc, Layout.column hc]

omit [LinearOrder α] [FloorRing α] in
theorem product_congr {weight : ℕ → BlockQ40 α} {a a' : ℕ → BlockQ80 α} {blocks : ℕ}
    (scale : ∀ b < blocks, (a b).d = (a' b).d)
    (quant : ∀ b < blocks, ∀ i < 32, (a b).qs i = (a' b).qs i) :
    product weight a blocks = product weight a' blocks := by
  apply Finset.sum_congr rfl
  intro b member
  have hb := Finset.mem_range.mp member
  rw [scale b hb]
  congr 2
  apply Finset.sum_congr rfl
  intro i hi
  rw [quant b hb i (Finset.mem_range.mp hi)]

theorem QuantisedRows.product (quantised : QuantisedRows half request activation aq)
    (whole : request.k / 32 * 32 = request.k) {row column : ℕ} (hr : row < request.m)
    (hc : column < request.n) : referenceElement request weight aq (row * request.n + column) =
      Q40.product (fun b => weight (column * (request.k / 32) + b))
        (quantizedActivation half activation (request.k / 32) row) (request.k / 32) := by
  have block : ∀ b, quantizedActivation half activation (request.k / 32) row b =
      quantizeBlock half fun i => activation (row * request.k + (b * 32 + i)) := by
    intro b
    rw [quantizedActivation, quantizeRowQ80, whole]
  rw [referenceElement_at hc, dotQ40Q80_eq_product]
  refine product_congr (fun b hb => ?_) fun b hb i hi => ?_
  · rw [quantised.scale row hr b hb, block]
  · rw [quantised.quant row hr b hb i hi, block]

variable [IsStrictOrderedRing α]

theorem quantised (half : α → α) (request : BenchmarkRequest) (activation : ℕ → α) :
    ∃ aq, QuantisedRows half request activation aq := by
  have rows : Ends (quantizeQ80Rows half request.m request.k (request.k / 32) activation) _ :=
    quantizeRows_ends (fun x => quantizeQ80_eq x half) activation fun _ => ⟨0, fun _ => 0⟩
  obtain ⟨aq, run, known⟩ := rows
  exact ⟨aq, run, fun row hr b hb => (known row hr b hb).1, fun row hr b hb => (known row hr b hb).2⟩

theorem QuantisedRows.bounded (quantised : QuantisedRows half request activation aq) {row b : ℕ}
    (hr : row < request.m) (hb : b < request.k / 32) {i : ℕ} (hi : i < 32) :
    |((aq (row * (request.k / 32) + b)).qs i).toInt| ≤ 127 := by
  rw [quantised.quant row hr b hb i hi]
  have bound := abs_away_scaled_le (fun i => activation (row * request.k + (b * 32 + i))) hi
  have value : ((quantizeBlock half fun i => activation (row * request.k + (b * 32 + i))).qs i).toInt =
      _ := toInt_ofInt_of_abs_le bound
  rw [value]
  exact bound

end Reference

section Reports

variable [IsStrictOrderedRing α] {host : Host α} {request : BenchmarkRequest}
variable {activation : ℕ → α} {weight : ℕ → BlockQ40 α} {aq : ℕ → BlockQ80 α}

omit [IsStrictOrderedRing α] in
theorem QuantisedRows.packs {M : Type} (quantised : QuantisedRows host.half request activation aq)
    (pack : BenchmarkRequest → Operands α α → M → Option M) :
    packQuantised host.half pack request (activation, weight) =
      pack request ⟨fun row block => aq (row * (request.k / 32) + block), weight⟩ := by
  funext memory
  rw [packQuantised, quantised.run, Option.bind_some]

omit [IsStrictOrderedRing α] in
theorem rvvUpstream_honours (weight : ℕ → BlockQ40 α)
    (quantised : QuantisedRows host.half request activation aq) :
    ∃ Ready, Honours (rvvUpstream host.half) request
      (.q40Q80 request.m request.n request.k activation weight) (referenceElement request weight aq)
      Ready := by
  let add := fun (sum : α) (i : ℤ) (w a : α) => sum + i * w * a
  let value := fun m n => VecDot.referenceDot add 0 (fun b => weight (n * (request.k / 32) + b))
    (fun b => aq (m * (request.k / 32) + b)) (request.k / 32)
  let u := Pfng.VecDot.contents request (request.k / 32) weight
    (fun m b => aq (m * (request.k / 32) + b)) value
  have packs : Writes (Pfng.VecDot.bufferSize request (request.k / 32))
      (Pfng.VecDot.prepare request (request.k / 32) weight fun m b => aq (m * (request.k / 32) + b))
      u (Pfng.VecDot.Operands request (request.k / 32)) := Pfng.VecDot.prepare_writes
  have computes : Pfng.VecDot.Computes request (request.k / 32) weight
      (fun m b => aq (m * (request.k / 32) + b)) value
      (VecDot.vecDot add 0 (request.k / 32)) := VecDot.vecDot_computes
  have runs := fun (_ iterations : ℕ) => Pfng.VecDot.run_effect computes iterations
  refine ⟨_, Honours.of_effects .output packs runs (fun _ known => known.1 rfl)
    (fun _ _ _ known written => known.1 written.1) rfl rfl
    (quantised.packs fun request operands => Pfng.VecDot.prepare request (request.k / 32) operands.weight
      operands.activation) (fun _ => rfl)
    (fun x => ⟨_, rfl⟩) fun memory x hx left => ?_⟩
  obtain ⟨row, hr, column, hc, rfl⟩ := Layout.lt_iff.mp hx
  rw [referenceElement_at hc]
  exact congrArg some (left.trans (Layout.matrix_at value hc))

omit [Field α] [LinearOrder α] [FloorRing α] [IsStrictOrderedRing α] in
theorem packed_other {mr : ℕ} {operands : Operands α α} {out out' : ℕ → Counted α}
    {memory : Rvv32.RvvMemory α α}
    (holds : Holds (Rvv32.contents request operands mr out) (Rvv32.PackedOperands request mr) memory) :
    Holds (Rvv32.contents request operands mr out') (Rvv32.PackedOperands request mr) memory := by
  intro k x cell
  rw [holds k x cell]
  cases k with
  | scales operand => cases operand <;> rfl
  | quants operand => cases operand <;> rfl
  | output => exact absurd rfl (Rvv32.packedOperands_apart cell)

/-- The two kernels with 32 columns: each iteration writes the whole output once more. -/
theorem rvv32_honours [Inhabited α] {P : Type} {mr : ℕ} {pointer : ℕ → P}
    {quants : ℕ → Rvv32.RvvMemory α α → ℕ → P → Option (Rvv32.StepQuants × P)}
    {packA : BenchmarkRequest → Operands α α → Rvv32.RvvMemory α α → Option (Rvv32.RvvMemory α α)}
    (weight : ℕ → BlockQ40 α) (feeds : Rvv32.Feeds mr quants pointer) (pos : 0 < mr)
    (packs : ∀ operands out, Writes (Rvv32.rvvSize request mr) (packA request operands)
      (Rvv32.contents request operands mr out) (Rvv32.Packed request mr .activation))
    (wholeM : request.m / mr * mr = request.m) (wholeN : request.n / 32 * 32 = request.n)
    (quantised : QuantisedRows host.half request activation aq) :
    ∃ Ready, Honours (rvv32 host.half mr
        (fun request operands memory =>
          (packA request operands memory).bind (Rvv32.packWeights request operands))
        (Rvv32.runTiles mr (Rvv32.gemm (.exact α) .wraps mr quants (pointer 0)))) request
      (.q40Q80 request.m request.n request.k activation weight) (referenceElement request weight aq)
      Ready := by
  let operands : Operands α α := ⟨fun row block => aq (row * (request.k / 32) + block), weight⟩
  let u : Contents Rvv32.RvvBuffer (Rvv32.RvvCell α α) :=
    Rvv32.contents request operands mr fun _ => ⟨none, 0⟩
  refine ⟨Bench.Packed (Rvv32.rvvSize request mr) u (Rvv32.PackedOperands request mr), ?_, ?_, ?_⟩
  · have both : Writes (Rvv32.rvvSize request mr)
        (fun memory => (packA request operands memory).bind (Rvv32.packWeights request operands)) u
        (Rvv32.PackedOperands request mr) :=
      (packs operands _).seq (Rvv32.packWeights_writes wholeN)
    refine ⟨(activation, weight), rfl, ?_⟩
    have packed : Ends (packQuantised host.half (fun request operands memory =>
        (packA request operands memory).bind (Rvv32.packWeights request operands)) request
        (activation, weight) (Rvv32.rvvUnwritten (Rvv32.rvvSize request mr)))
        (Bench.Packed (Rvv32.rvvSize request mr) u (Rvv32.PackedOperands request mr)) := by
      rw [quantised.packs]
      exact (both _ rfl fun _ _ no => no.elim).mono fun _ ⟨change, left⟩ => ⟨change.size, left⟩
    exact packed
  · intro x memory ⟨sizes, holds⟩
    have renew : Effect (Rvv32.rvvSize request mr) u (Rvv32.PackedOperands request mr)
        (fun memory => some (memory.renew .output fun _ => ⟨some x, 0⟩)) u _ _ :=
      Effect.renew fun _ cell => Rvv32.packedOperands_apart cell rfl
    obtain ⟨after, filled, change, left⟩ := renew memory sizes holds
    cases filled
    exact ⟨change.size.trans sizes, left⟩
  · intro turn iterations memory ⟨sizes, holds⟩
    have bounded : ∀ row < request.m, ∀ block < request.k / 32,
        Rvv32.Bounded (operands.activation row block) :=
      fun row hr block hb i hi => quantised.bounded hr hb hi
    let out := Rvv32.outputs (.exact α) request operands (memory.cell .output)
    have run : Effect (Rvv32.rvvSize request mr) (Rvv32.contents request operands mr (out 0)) _
        (Rvv32.runTiles mr (Rvv32.gemm (.exact α) .wraps mr quants (pointer 0)) request iterations)
        (Rvv32.contents request operands mr (out iterations)) _ _ :=
      Rvv32.run_effect feeds pos bounded wholeM wholeN iterations
    refine (run memory sizes ?_).mono fun after ⟨change, left⟩ => ⟨⟨change.size.trans sizes, ?_⟩, ?_⟩
    · rintro k x (cell | ⟨rfl, _⟩)
      · exact packed_other holds k x cell
      · rfl
    · intro k x cell
      rw [change.frame k x (Rvv32.packedOperands_apart cell), holds k x cell]
    · intro once x hx
      obtain ⟨row, hr, column, hc, rfl⟩ := Layout.lt_iff.mp hx
      have value : (after.cell .output (row * request.n + column)).value = some _ :=
        (congrArg Counted.value (left .output _ ⟨rfl, hx⟩)).trans (Rvv32.outputs_value once hc)
      refine value.trans (congrArg some ?_)
      rw [referenceElement_at hc, Rvv32.elementSum_exact]
      rfl

variable [Inhabited α]

end Reports

def sampleWeights (_ : ℕ) : BlockQ40 ℚ := ⟨1 / 2, fun j => if j % 2 = 0 then 0xf0 else 0x0f⟩

end Pfng.Q40
