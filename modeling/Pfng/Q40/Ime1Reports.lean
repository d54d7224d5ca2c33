import Pfng.Q40.M32n4Product
import Pfng.Q40.M4bProduct
import Pfng.Q40.M4n32bProduct
import Pfng.Q40.M4Product
import Pfng.Q40.M8bCb
import Pfng.Q40.M8bDpuCb
import Pfng.Q40.RvvReports
import Pfng.Q40.Ties

/-! The nine adapters of the first generation of the matrix unit. All of them leave one product, that
of the quants of their own quantiser; `run_benchmark` confirms them where no element is at a tie. -/
namespace Pfng.Q40
open Checked Quantizers
open Bench hiding Counted
open BatchReduction (Operands Orders BlockedOrders FloatOps BatchMemory freshMemory)
open ImmediateReduction (Word OfWord M4Memory M4Buffer)
open HalfBlocks (HalfMemory halfUnwritten halfSize)

variable {α : Type} [Field α] [LinearOrder α] [FloorRing α]

section Operands

variable (half : α → α) (request : BenchmarkRequest) (input : Data α (BlockQ40 α))

/-- The block of `initialize_q4_0_ime`: the quants of the four-row quantiser, the scale of the
reference. -/
def ime1Block (activation : ℕ → α) (blocks row block : ℕ) : BlockQ80 α :=
  ⟨(quantizedActivation half activation blocks row block).d, rowQuants (blockOf activation blocks row block)⟩

def ime1Operands : Operands α α := ⟨ime1Block half input.1 (request.k / 32), input.2⟩

def ime1RowScale (row block : ℕ) : α := rowScale (blockOf input.1 (request.k / 32) row block)

/-- Element `i` of the product of these blocks. -/
def ime1Element (activation : ℕ → α) (weight : ℕ → BlockQ40 α) (i : ℕ) : α :=
  product (fun b => weight (i % request.n * (request.k / 32) + b))
    (ime1Block half activation (request.k / 32) (i / request.n)) (request.k / 32)

end Operands

section Adapters

/-- What the nine adapters share. -/
def ime1 {M : Type} (mr nr : ℕ) (fresh : BenchmarkRequest → M)
    (pack : BenchmarkRequest → Data α (BlockQ40 α) → M → Option M)
    (run : ℕ → BenchmarkRequest → ℕ → M → Option M) (output : M → ℕ → Option α) (fill : α → M → M) :
    Adapter α (BenchmarkInput α) (Data α (BlockQ40 α)) M where
  quantization := .weightQ4_0ActivationQ8_0
  peakPerformance := peakIme1I8I32Mac
  validate := validateShape mr nr 32
  getIf := BenchmarkInput.q40?
  expected := "expected Q4_0/Q8_0 input"
  fresh := fresh
  pack := pack
  run := run
  output := output
  fill := fill

variable [Inhabited α] (half : α → α)

section Eight

/-- The four with tiles of eight rows. -/
def ime1M8 (slots : BenchmarkRequest → ℕ)
    (prepare : BenchmarkRequest → Operands α α → (ℕ → ℕ → α) → BatchMemory α α → Option (BatchMemory α α))
    (run : ℕ → BenchmarkRequest → ℕ → BatchMemory α α → Option (BatchMemory α α)) :
    Adapter α (BenchmarkInput α) (Data α (BlockQ40 α)) (BatchMemory α α) :=
  ime1 8 16 (fun request => freshMemory (BatchReduction.bufferSize request .ime1 (slots request)))
    (fun request input => prepare request (ime1Operands half request input) (ime1RowScale request input))
    run (fun memory x => memory.cell (.floats .output) x)
    fun x memory => memory.renew (.floats .output) fun _ => some x

abbrev RowOrders (mr : ℕ) := (_turn : ℕ) → (request : BenchmarkRequest) → Orders ℕ (request.m / mr)

abbrev TileOrders (mr : ℕ) :=
  (_turn : ℕ) → (request : BenchmarkRequest) → BlockedOrders (request.m / mr) (request.n / 16)

/-- `q4_0-q8_0-IME-m8b` of the first generation. -/
def ime1M8b (orders : RowOrders 8) :=
  ime1M8 half (fun request => request.m / 8 * (request.k / 32)) BatchReduction.prepareIme1
    fun turn request => BatchReduction.runIme1 (.exact α) request (orders turn request)

/-- `q4_0-q8_0-IME-m8b-CB`. -/
def ime1M8bCb (orders : TileOrders 8) :=
  ime1M8 half BatchReduction.CacheBlocking.slots (fun request => BatchReduction.CacheBlocking.prepare request)
    fun turn request => BatchReduction.CacheBlocking.run (.exact α) request (orders turn request)

/-- `q4_0-q8_0-IME-m8b-DPU`. -/
def ime1M8bDpu (orders : RowOrders 8) :=
  ime1M8 half (fun request => request.m / 8 * (request.k / 32)) BatchReduction.DynPreUnpack.prepare
    fun turn request => BatchReduction.DynPreUnpack.run (.exact α) request (orders turn request)

/-- `q4_0-q8_0-IME-m8b-DPU-CB`. -/
def ime1M8bDpuCb (unpacks : (_turn : ℕ) → (request : BenchmarkRequest) → Orders ℕ (request.n / 16))
    (orders : TileOrders 8) :=
  ime1M8 half (fun request => request.m / 8 * (request.k / 32))
    (fun request => BatchReduction.DynPreUnpackCacheBlocking.prepare request)
    fun turn request => BatchReduction.DynPreUnpackCacheBlocking.run (.exact α) request
      (unpacks turn request) (orders turn request)

end Eight

section Four

variable [OfWord α] (word : α → Word)

/-- A memory that nothing was written to. -/
def m4Fresh (size : M4Buffer → ℕ) : M4Memory α α where
  size := size
  cell := fun k _ => match k with
    | .activation _ => none
    | .weights => none
    | .scales => none
    | .floats _ => none

/-- The operands with the bytes of their scales. -/
def ime1Words (request : BenchmarkRequest) (input : Data α (BlockQ40 α)) : Operands Word α where
  activation row block :=
    ⟨word (ime1Block half input.1 (request.k / 32) row block).d,
      (ime1Block half input.1 (request.k / 32) row block).qs⟩
  weight := input.2

/-- The three with tiles of four rows and 16 columns. -/
def ime1M4
    (prepare : BenchmarkRequest → Operands Word α → (ℕ → ℕ → Word) → M4Memory α α → Option (M4Memory α α))
    (run : ℕ → BenchmarkRequest → ℕ → M4Memory α α → Option (M4Memory α α)) :
    Adapter α (BenchmarkInput α) (Data α (BlockQ40 α)) (M4Memory α α) :=
  ime1 4 16 (fun request => m4Fresh (ImmediateReduction.m4Size request))
    (fun request input => prepare request (ime1Words half word request input) fun row block =>
      word (ime1RowScale request input row block))
    run (fun memory x => memory.cell (.floats .output) x)
    fun x memory => memory.renew (.floats .output) fun _ => some x

/-- `q4_0-q8_0-IME-m4i`. -/
def ime1M4i (orders : RowOrders 4) :=
  ime1M4 half word ImmediateReduction.prepare
    fun turn request => ImmediateReduction.run (.exact α) request (orders turn request)

/-- `q4_0-q8_0-IME-m4i-CB`. -/
def ime1M4iCb (orders : TileOrders 4) :=
  ime1M4 half word ImmediateReduction.CacheBlocking.prepare
    fun turn request => ImmediateReduction.CacheBlocking.run (.exact α) request (orders turn request)

/-- `q4_0-q8_0-IME-m4b`. -/
def ime1M4b :=
  ime1M4 half word ImmediateReduction.prepare
    fun _ request => ImmediateReduction.BatchRed.run (.exact α) request

end Four

section Half

variable (word : α → BitVec 32)

/-- The two whose blocks hold halves. -/
def ime1Half (groups mr nr : ℕ)
    (prepare : BenchmarkRequest → Operands α α → (ℕ → ℕ → BitVec 32) → HalfMemory α α →
      Option (HalfMemory α α))
    (run : BenchmarkRequest → ℕ → HalfMemory α α → Option (HalfMemory α α)) :
    Adapter α (BenchmarkInput α) (Data α (BlockQ40 α)) (HalfMemory α α) :=
  ime1 mr nr (fun request => halfUnwritten (halfSize request groups nr))
    (fun request input => prepare request (ime1Operands half request input) fun row block =>
      word (ime1RowScale request input row block))
    (fun _ => run) (fun memory x => memory.cell .output x)
    fun x memory => memory.renew .output fun _ => some x

/-- `q4_0-q8_0-IME-m4n32b`. -/
def ime1M4n32b :=
  ime1Half half word 1 4 32 (fun request => M4n32b.prepare (.exact α) request id)
    fun request => M4n32b.run (.exact α) request

/-- `q4_0-q8_0-IME-m32n4`. -/
def ime1M32n4 := ime1Half half word 8 32 4 M32n4.prepare fun request => M32n4.run (.exact α) request

end Half

end Adapters

section Honours

variable {half : α → α} {request : BenchmarkRequest} {activation : ℕ → α} {weight : ℕ → BlockQ40 α}
variable [Inhabited α]

omit [Inhabited α] in
/-- The promise of an adapter with tiles of eight rows, from the effects of its packing and its run. -/
theorem ime1M8_honours {slots : BenchmarkRequest → ℕ}
    {prepare : BenchmarkRequest → Operands α α → (ℕ → ℕ → α) → BatchMemory α α → Option (BatchMemory α α)}
    {run : ℕ → BenchmarkRequest → ℕ → BatchMemory α α → Option (BatchMemory α α)}
    {slot : ℕ → ℕ × ℕ} {live : ℕ → Prop} {S : Region BatchReduction.Buffer}
    (packs : ∀ operands scales, Effect (BatchReduction.bufferSize request .ime1 (slots request))
      (BatchReduction.contents (.exact α) request operands .ime1 slot fun _ => none) (fun _ _ => False)
      (prepare request operands scales)
      (BatchReduction.contents (.exact α) request operands .ime1 slot fun _ => none)
      (BatchReduction.operandCells request .ime1 live) fun _ _ => True)
    (runs : ∀ operands turn iterations,
      Effect (BatchReduction.bufferSize request .ime1 (slots request))
      (BatchReduction.contents (.exact α) request operands .ime1 slot fun _ => none)
      (BatchReduction.operandCells request .ime1 live) (run turn request iterations)
      (BatchReduction.contents (.exact α) request operands .ime1 slot fun _ => none)
      (fun k x => 0 < iterations ∧ k = .floats .output ∧ x < request.m * request.n) S)
    (spared : ∀ k x, BatchReduction.operandCells request .ime1 live k x → ¬S k x) :
    ∃ Ready, Honours (ime1M8 half slots prepare run) request
      (.q40Q80 request.m request.n request.k activation weight) (ime1Element half request activation weight)
      Ready := by
  let operands := ime1Operands half request (activation, weight)
  refine ⟨_, Honours.of_effects (.floats .output) (packs operands _) (runs operands) (fun _ known => known)
    (fun _ => spared) rfl rfl rfl (fun _ => rfl) (fun x => ⟨_, rfl⟩) fun memory x hx left => ?_⟩
  obtain ⟨row, hr, column, hc, rfl⟩ := Layout.lt_iff.mp hx
  refine left.trans ((BatchReduction.contents_exact hc).trans ?_)
  rw [ime1Element, Layout.row hc, Layout.column hc]
  rfl

variable (half activation weight) in
theorem ime1_m8_honours (supported : (validateShape 8 16 32 request).supported = true)
    (orders : RowOrders 8) (unpacks : (_turn : ℕ) → (request : BenchmarkRequest) → Orders ℕ (request.n / 16))
    (blocked : TileOrders 8) :
    (∃ Ready, Honours (ime1M8b half orders) request
      (.q40Q80 request.m request.n request.k activation weight) (ime1Element half request activation weight)
      Ready) ∧
    (∃ Ready, Honours (ime1M8bCb half blocked) request
      (.q40Q80 request.m request.n request.k activation weight) (ime1Element half request activation weight)
      Ready) ∧
    (∃ Ready, Honours (ime1M8bDpu half orders) request
      (.q40Q80 request.m request.n request.k activation weight) (ime1Element half request activation weight)
      Ready) ∧
    ∃ Ready, Honours (ime1M8bDpuCb half unpacks blocked) request
      (.q40Q80 request.m request.n request.k activation weight) (ime1Element half request activation weight)
      Ready := by
  obtain ⟨⟨_, _, depth⟩, wholeM, wholeN, wholeK⟩ := validateShape_supported supported
  have blocks : 0 < request.k / 32 := by omega
  refine ⟨?_, ?_, ?_, ?_⟩
  · refine ime1M8_honours (fun operands scales => BatchReduction.prepareIme1_effect (.exact α) request
      operands scales fun _ => none)
      (fun _ turn => BatchReduction.runIme1_effect blocks wholeM wholeN (orders turn request)) ?_
    rintro k x cell (scratch | output)
    · exact (BatchReduction.operands_apart k x cell).1 scratch
    · exact (BatchReduction.operands_apart k x cell).2 output
  · refine ime1M8_honours (fun operands scales => BatchReduction.packed_effect scales
      (BatchReduction.packPanels_fills (.exact α) operands (fun _ => none)
        (BatchReduction.CacheBlocking.layout request)
        fun s live => BatchReduction.CacheBlocking.live_lt live))
      (fun _ turn iterations => BatchReduction.CacheBlocking.run_effect blocks wholeM wholeN
        (blocked turn request) iterations) ?_
    rintro k x cell (scratch | rfl | output)
    · exact (BatchReduction.operands_apart k x cell).1 scratch
    · exact cell
    · exact (BatchReduction.operands_apart k x cell).2 output
  · refine ime1M8_honours (fun operands scales => BatchReduction.DynPreUnpack.prepare_effect (.exact α)
      request operands (fun _ => none) scales)
      (fun _ turn iterations => BatchReduction.DynPreUnpack.run_effect blocks wholeM wholeN wholeK
        (orders turn request) iterations) ?_
    rintro k x cell (rfl | scratch | output)
    · exact cell
    · exact (BatchReduction.operands_apart k x cell).1 scratch
    · exact (BatchReduction.operands_apart k x cell).2 output
  · refine ime1M8_honours (fun operands scales => BatchReduction.packed_effect scales
      (BatchReduction.packPanels_fills (.exact α) operands (fun _ => none)
        (BatchReduction.DynPreUnpackCacheBlocking.layout request)
        fun s live => BatchReduction.DynPreUnpackCacheBlocking.live_lt live))
      (fun _ turn iterations => BatchReduction.DynPreUnpackCacheBlocking.run_effect blocks wholeM wholeN
        wholeK (unpacks turn request) (blocked turn request) iterations) ?_
    rintro k x cell (rfl | scratch | rfl | output)
    · exact cell
    · exact (BatchReduction.operands_apart k x cell).1 scratch
    · exact cell
    · exact (BatchReduction.operands_apart k x cell).2 output

section Four

variable [OfWord α] {word : α → Word}

omit [Inhabited α] in
/-- The same for tiles of four rows; `source` says which of their blocks a run reads. -/
theorem ime1M4_honours (word_back : ∀ x, OfWord.ofWord (word (half x)) = half x)
    {prepare : BenchmarkRequest → Operands Word α → (ℕ → ℕ → Word) → M4Memory α α → Option (M4Memory α α)}
    {run : ℕ → BenchmarkRequest → ℕ → M4Memory α α → Option (M4Memory α α)}
    {source : ImmediateReduction.Blocks} {S : Region M4Buffer}
    (packs : ∀ operands scales, Effect (ImmediateReduction.m4Size request)
      (ImmediateReduction.m4Contents (.exact α) request operands fun _ => none) (fun _ _ => False)
      (prepare request operands scales)
      (ImmediateReduction.m4Contents (.exact α) request operands fun _ => none)
      (ImmediateReduction.M4Operands request source) fun _ _ => True)
    (runs : ∀ operands turn iterations, Effect (ImmediateReduction.m4Size request)
      (ImmediateReduction.m4Contents (.exact α) request operands fun _ => none)
      (ImmediateReduction.M4Operands request source) (run turn request iterations)
      (ImmediateReduction.m4Contents (.exact α) request operands fun _ => none)
      (fun k x => 0 < iterations ∧ k = .floats .output ∧ x < request.m * request.n) S)
    (spared : ∀ k x, ImmediateReduction.M4Operands request source k x → ¬S k x) :
    ∃ Ready, Honours (ime1M4 half word prepare run) request
      (.q40Q80 request.m request.n request.k activation weight) (ime1Element half request activation weight)
      Ready := by
  let operands := ime1Words half word request (activation, weight)
  refine ⟨_, Honours.of_effects (.floats .output) (packs operands _) (runs operands) (fun _ known => known)
    (fun _ => spared) rfl rfl rfl (fun _ => rfl) (fun x => ⟨_, rfl⟩) fun memory x hx left => ?_⟩
  obtain ⟨row, hr, column, hc, rfl⟩ := Layout.lt_iff.mp hx
  have decoded : (ImmediateReduction.decoded operands).activation row =
      ime1Block half activation (request.k / 32) row := by
    funext block
    exact congrArg (fun d => BlockQ80.mk d _) (word_back _)
  refine left.trans ?_
  change some _ = some _
  rw [Layout.row hc, Layout.column hc, BatchReduction.partialSum_exact, decoded, ime1Element,
    Layout.row hc, Layout.column hc]
  rfl

variable (half word activation weight) in
theorem ime1_m4_honours (supported : (validateShape 4 16 32 request).supported = true)
    (word_back : ∀ x, OfWord.ofWord (word (half x)) = half x) (orders : RowOrders 4)
    (blocked : TileOrders 4) :
    (∃ Ready, Honours (ime1M4i half word orders) request
      (.q40Q80 request.m request.n request.k activation weight) (ime1Element half request activation weight)
      Ready) ∧
    (∃ Ready, Honours (ime1M4iCb half word blocked) request
      (.q40Q80 request.m request.n request.k activation weight) (ime1Element half request activation weight)
      Ready) ∧
    ∃ Ready, Honours (ime1M4b half word) request
      (.q40Q80 request.m request.n request.k activation weight) (ime1Element half request activation weight)
      Ready := by
  obtain ⟨⟨_, _, depth⟩, wholeM, wholeN, wholeK⟩ := validateShape_supported supported
  have blocks : 0 < request.k / 32 := by omega
  refine ⟨?_, ?_, ?_⟩
  · refine ime1M4_honours word_back (fun operands scales => ImmediateReduction.prepare_effect (.exact α)
      request operands scales fun _ => none)
      (fun _ turn iterations => ImmediateReduction.run_effect wholeM wholeN (orders turn request)
        iterations) ?_
    rintro k x cell (rfl | rfl)
    · exact cell
    · exact cell
  · refine ime1M4_honours word_back (fun operands scales =>
      (ImmediateReduction.prepare_panels_effect (.exact α) request operands scales fun _ => none).weaken
        (fun _ _ no => no.elim) (fun _ _ cell => .inl ⟨.inr cell, rfl⟩) fun _ _ _ => trivial)
      (fun _ turn iterations => ImmediateReduction.CacheBlocking.run_effect blocks wholeM wholeN
        (blocked turn request) iterations) ?_
    rintro k x cell (rfl | rfl)
    · exact cell
    · exact cell
  · refine ime1M4_honours word_back (fun operands scales => ImmediateReduction.prepare_effect (.exact α)
      request operands scales fun _ => none)
      (fun _ _ iterations => ImmediateReduction.BatchRed.run_effect wholeM wholeN iterations) ?_
    rintro k x cell (no | rfl)
    · exact no
    · exact cell

end Four

section Half

variable {word : α → BitVec 32}

omit [Inhabited α] in
theorem ime1Half_honours {groups mr nr : ℕ}
    {prepare : BenchmarkRequest → Operands α α → (ℕ → ℕ → BitVec 32) → HalfMemory α α →
      Option (HalfMemory α α)}
    {run : BenchmarkRequest → ℕ → HalfMemory α α → Option (HalfMemory α α)} {scale : α → α}
    (packs : ∀ operands scales, Effect (halfSize request groups nr)
      (HalfBlocks.sumContents (.exact α) scale request operands groups nr (request.k / 32))
      (fun _ _ => False) (prepare request operands scales)
      (HalfBlocks.sumContents (.exact α) scale request operands groups nr (request.k / 32))
      (HalfBlocks.HalfOperands request groups nr) fun _ _ => True)
    (runs : ∀ operands iterations, Effect (halfSize request groups nr)
      (HalfBlocks.sumContents (.exact α) scale request operands groups nr (request.k / 32))
      (HalfBlocks.HalfOperands request groups nr) (run request iterations)
      (HalfBlocks.sumContents (.exact α) scale request operands groups nr (request.k / 32))
      (fun k x => 0 < iterations ∧ HalfBlocks.Output request k x) fun k _ => k = .output)
    (same : ∀ d, scale d = d) :
    ∃ Ready, Honours (ime1Half half word groups mr nr prepare run) request
      (.q40Q80 request.m request.n request.k activation weight) (ime1Element half request activation weight)
      Ready := by
  let operands := ime1Operands half request (activation, weight)
  refine ⟨_, Honours.of_effects .output (packs operands _) (fun _ => runs operands)
    (fun _ known => known) (fun _ k x cell eq => ?_) rfl rfl rfl (fun _ => rfl) (fun x => ⟨_, rfl⟩)
    fun memory x hx left => ?_⟩
  · rw [eq] at cell
    exact cell
  · obtain ⟨row, hr, column, hc, rfl⟩ := Layout.lt_iff.mp hx
    refine left.trans ?_
    change HalfBlocks.sums _ _ _ _ _ _ = _
    rw [HalfBlocks.sums, Layout.row hc, Layout.column hc, BatchReduction.partialSum_exact, ime1Element,
      Layout.row hc, Layout.column hc]
    have identity : scale = id := funext same
    rw [identity]
    rfl

variable (half word activation weight) in
theorem ime1_m4n32b_honours (supported : (validateShape 4 32 32 request).supported = true) :
    ∃ Ready, Honours (ime1M4n32b half word) request
      (.q40Q80 request.m request.n request.k activation weight) (ime1Element half request activation weight)
      Ready := by
  obtain ⟨⟨_, _, depth⟩, wholeM, wholeN, wholeK⟩ := validateShape_supported supported
  refine ime1Half_honours (fun _ _ => HalfBlocks.prepared_effect fun _ _ _ _ _ _ => by omega)
    (fun _ iterations => M4n32b.run_effect wholeM wholeN wholeK (by omega) iterations) fun _ => rfl

variable (half word activation weight) in
theorem ime1_m32n4_honours (supported : (validateShape 32 4 32 request).supported = true) :
    ∃ Ready, Honours (ime1M32n4 half word) request
      (.q40Q80 request.m request.n request.k activation weight) (ime1Element half request activation weight)
      Ready := by
  obtain ⟨_, wholeM, wholeN, _⟩ := validateShape_supported supported
  exact ime1Half_honours (fun _ _ => HalfBlocks.prepared_effect fun _ _ _ _ _ _ => rfl)
    (fun _ iterations => M32n4.run_effect wholeM wholeN iterations) fun _ => rfl

end Half

end Honours

section Reports

variable {half : α → α} {request : BenchmarkRequest} {activation : ℕ → α} {weight : ℕ → BlockQ40 α}

section Agreement

variable [Inhabited α] [OfWord α]

/-- All nine deliver the same output, for every activation, after any runs and in any orders of the
threads. -/
theorem ime1_kernels_agree (half : α → α) (word : α → Word)
    (word_back : ∀ x, OfWord.ofWord (word (half x)) = half x) (request : BenchmarkRequest)
    (activation : ℕ → α) (weight : ℕ → BlockQ40 α) : ∃ value : ℕ → α,
    ((validateShape 8 16 32 request).supported = true → ∀ orders unpacks blocked undefined,
      Delivers (ime1M8b half orders) undefined request
        (.q40Q80 request.m request.n request.k activation weight) value ∧
      Delivers (ime1M8bCb half blocked) undefined request
        (.q40Q80 request.m request.n request.k activation weight) value ∧
      Delivers (ime1M8bDpu half orders) undefined request
        (.q40Q80 request.m request.n request.k activation weight) value ∧
      Delivers (ime1M8bDpuCb half unpacks blocked) undefined request
        (.q40Q80 request.m request.n request.k activation weight) value) ∧
    ((validateShape 4 16 32 request).supported = true → ∀ orders blocked undefined,
      Delivers (ime1M4i half word orders) undefined request
        (.q40Q80 request.m request.n request.k activation weight) value ∧
      Delivers (ime1M4iCb half word blocked) undefined request
        (.q40Q80 request.m request.n request.k activation weight) value ∧
      Delivers (ime1M4b half word) undefined request
        (.q40Q80 request.m request.n request.k activation weight) value) ∧
    ((validateShape 4 32 32 request).supported = true → ∀ undefined,
      Delivers (ime1M4n32b half word) undefined request
        (.q40Q80 request.m request.n request.k activation weight) value) ∧
    ((validateShape 32 4 32 request).supported = true → ∀ undefined,
      Delivers (ime1M32n4 half word) undefined request
        (.q40Q80 request.m request.n request.k activation weight) value) := by
  refine ⟨ime1Element half request activation weight, fun supported orders unpacks blocked undefined => ?_,
    fun supported orders blocked undefined => ?_, fun supported undefined => ?_,
    fun supported undefined => ?_⟩
  · obtain ⟨⟨_, m8b⟩, ⟨_, m8bCb⟩, ⟨_, m8bDpu⟩, ⟨_, m8bDpuCb⟩⟩ :=
      ime1_m8_honours half activation weight supported orders unpacks blocked
    exact ⟨m8b.delivers undefined, m8bCb.delivers undefined, m8bDpu.delivers undefined,
      m8bDpuCb.delivers undefined⟩
  · obtain ⟨⟨_, m4i⟩, ⟨_, m4iCb⟩, ⟨_, m4b⟩⟩ :=
      ime1_m4_honours half activation weight word supported word_back orders blocked
    exact ⟨m4i.delivers undefined, m4iCb.delivers undefined, m4b.delivers undefined⟩
  · obtain ⟨_, m4n32b⟩ := ime1_m4n32b_honours half activation weight word supported
    exact m4n32b.delivers undefined
  · obtain ⟨_, m32n4⟩ := ime1_m32n4_honours half activation weight word supported
    exact m32n4.delivers undefined

end Agreement

variable [IsStrictOrderedRing α]

theorem ime1Block_term {x : ℕ → α} (zero : half 0 = 0)
    (noTie : largest x ≠ 0 → ∀ k < 32, ¬Tie x k) (w : BlockQ40 α) :
    (quantizeBlock half x).d * w.d * ((∑ k ∈ Finset.range 32,
      (((nibble w k).toNat : ℤ) - 8) * (rowQuants x k).toInt : ℤ) : α) =
    (quantizeBlock half x).d * w.d * ((∑ k ∈ Finset.range 32,
      (((nibble w k).toNat : ℤ) - 8) * ((quantizeBlock half x).qs k).toInt : ℤ) : α) := by
  by_cases none : largest x = 0
  · have scale : (quantizeBlock half x).d = 0 := by
      change half (absoluteMax x / 127) = 0
      rw [absoluteMax_eq, none, zero_div, zero]
    rw [scale, zero_mul, zero_mul, zero_mul]
  · congr 2
    apply Finset.sum_congr rfl
    intro k hk
    have inside := Finset.mem_range.mp hk
    rw [(rowQuants_eq_iff half none inside).mpr (noTie none k inside)]

theorem ime1Element_eq {aq : ℕ → BlockQ80 α} (quantised : QuantisedRows half request activation aq)
    (whole : request.k / 32 * 32 = request.k) (zero : half 0 = 0)
    (noTie : NoTie 1 activation request.m (request.k / 32)) {i : ℕ} (hi : i < request.m * request.n) :
    ime1Element half request activation weight i = referenceElement request weight aq i := by
  obtain ⟨row, hr, column, hc, rfl⟩ := Layout.lt_iff.mp hi
  rw [quantised.product whole hr hc, ime1Element, Layout.row hc, Layout.column hc]
  apply Finset.sum_congr rfl
  intro b member
  have hb := Finset.mem_range.mp member
  exact ime1Block_term zero (noTie row (by rwa [Nat.mul_one]) b hb) _

variable {host : Host α}

theorem ime1_confirmed {B M : Type} {adapter : Adapter α (BenchmarkInput α) B M} {Ready : M → Prop}
    {undefined : M → M} {mr nr : ℕ}
    (honours : Honours adapter request (.q40Q80 request.m request.n request.k activation weight)
      (ime1Element host.half request activation weight) Ready) (known : host.target ≠ .unknown)
    (quantization : adapter.quantization = .weightQ4_0ActivationQ8_0)
    (validate : adapter.validate = validateShape mr nr 32)
    (supported : (validateShape mr nr 32 request).supported = true)
    (peak : adapter.peakPerformance = peakIme1I8I32Mac) (zero : host.half 0 = 0)
    (noTie : NoTie 1 activation request.m (request.k / 32)) :
    Confirmed host adapter undefined request
      (.q40Q80 request.m request.n request.k activation weight) := by
  obtain ⟨shape, _, _, whole⟩ := validateShape_supported supported
  obtain ⟨aq, quantised⟩ := quantised host.half request activation
  have rate : (0 : α) < 128 := by norm_num
  refine confirmed honours known (validate ▸ supported) (peakMac_valid peak shape rate (by decide))
    fun i hi => ?_
  rw [quantization, compute_eq quantised, ime1Element_eq quantised whole zero noTie hi]

section Kernels

variable [Inhabited α] [OfWord α]

end Kernels

end Reports

section Sample

/-- The words as the numbers that they count, with a sign. -/
local instance : OfWord ℚ := ⟨fun w => w.toInt⟩

def sampleWord (x : ℚ) : Word := BitVec.ofInt 32 ⌊x⌋

def sampleHalf (x : ℚ) : ℚ := (max (-2048) (min 2048 ⌊x⌋) : ℤ)

theorem sampleWord_back (x : ℚ) : OfWord.ofWord (sampleWord (sampleHalf x)) = sampleHalf x := by
  have small : (max (-2048) (min 2048 ⌊x⌋) : ℤ).bmod (2 ^ 32) = max (-2048) (min 2048 ⌊x⌋) :=
    Int.bmod_eq_of_le (by omega) (by omega)
  change (((BitVec.ofInt 32 ⌊sampleHalf x⌋).toInt : ℤ) : ℚ) = _
  rw [sampleHalf, Int.floor_intCast, BitVec.toInt_ofInt, small]

theorem constant_noTie {x : ℚ} (nonzero : x ≠ 0) (m blocks : ℕ) :
    NoTie 1 (fun _ => x) m blocks := by
  have top : ∀ row b, largest (blockOf (fun _ => x) blocks row b) = |x| := by
    intro row b
    simp [largest, blockOf]
  rintro row _ b _ _ k _ ⟨j, tie⟩
  rw [top, blockOf] at tie
  have whole : (254 : ℚ) = 4 * j + 1 := mul_right_cancel₀ (abs_ne_zero.mpr nonzero) tie
  have parity : 254 = 4 * j + 1 := by exact_mod_cast whole
  omega

theorem sample_ime1_kernels_agree : ∃ value : ℕ → ℚ,
    Delivers (ime1M32n4 sampleHalf sampleWord) id ⟨32, 32, 64, 3, 10, 0, 1, 5, 1, true, [cyclesEvent]⟩
      (.q40Q80 32 32 64 (fun i => (i % 7 : ℕ)) sampleWeights) value ∧
    Delivers (ime1M4iCb sampleHalf sampleWord fun _ _ => .inOrder _ _) id
      ⟨32, 32, 64, 3, 10, 0, 1, 5, 1, true, [cyclesEvent]⟩
      (.q40Q80 32 32 64 (fun i => (i % 7 : ℕ)) sampleWeights) value := by
  obtain ⟨value, _, m4, _, m32n4⟩ := ime1_kernels_agree sampleHalf sampleWord sampleWord_back
    ⟨32, 32, 64, 3, 10, 0, 1, 5, 1, true, [cyclesEvent]⟩ (fun i => (i % 7 : ℕ)) sampleWeights
  exact ⟨value, m32n4 (by decide) id, (m4 (by decide) (fun _ _ => .inOrder _ _)
    (fun _ _ => .inOrder _ _) id).2.1⟩

end Sample

end Pfng.Q40
