import Mathlib.Algebra.Order.Floor.Defs
import Pfng.Bench.Comparison

/-! `run_benchmark` with the calls it makes. A kernel is its callbacks on a state of its own; the
performance counters answer from the calls made so far. In a step, `Except.error` is a return. -/
namespace Pfng.Bench

inductive PlatformId
  | unknown | spacemitK1A60 | spacemitK1X60 | spacemitK3A100
  deriving DecidableEq

def platformName : PlatformId → String
  | .spacemitK1A60 => "spacemit-k1-a60"
  | .spacemitK1X60 => "spacemit-k1-x60"
  | .spacemitK3A100 => "spacemit-k3-a100"
  | .unknown => "unknown"

inductive QuantizationType
  | weightQ4_0ActivationQ8_0 | weightQ4_KActivationQ8_K | weightIQ2_XXSActivationQ8_K
  deriving DecidableEq

structure PerfEventSpec where
  name : String
  type : ℕ
  config : ℕ
  deriving DecidableEq

structure BenchmarkRequest where
  m : ℕ
  n : ℕ
  k : ℕ
  warmupIterations : ℕ
  samples : ℕ
  iterations : ℕ
  threads : ℕ
  targetCycles : ℕ
  seed : ℕ
  verify : Bool
  perfEvents : List PerfEventSpec

structure ValidationResult where
  supported : Bool
  reason : String

structure PrepareResult (S : Type) where
  state : Option S
  error : String

structure ExportResult where
  success : Bool
  error : String

structure PeakPerformance (α : Type) where
  operationCount : α
  operationsPerCycle : α
  operationName : String

structure PerfEventValue where
  value : ℕ
  timeEnabled : ℕ
  timeRunning : ℕ

/-- `KernelCallbacks`; `export_output` also gives the elements it writes. -/
structure KernelCallbacks (α S I : Type) where
  peakPerformance : BenchmarkRequest → PeakPerformance α
  validate : BenchmarkRequest → ValidationResult
  prepare : BenchmarkRequest → I → PrepareResult S
  reset : S → S
  run : S → ℕ → S
  exportOutput : S → ExportResult × (ℕ → Float32 α)
  checksum : S → α

structure KernelRegistration (α S I : Type) where
  quantization : QuantizationType
  callbacks : KernelCallbacks α S I
  platform : PlatformId

def kernelSupportsPlatform {α S I : Type} (kernel : KernelRegistration α S I)
    (platform : PlatformId) : Bool := platform != .unknown && kernel.platform == platform

inductive Call
  | validate | prepare | reset | run (iterations : ℕ) | exportOutput | compute
  | perfOpen (specs : List String) | perfStart | perfStopAndRead | checksum | peakPerformance
  | destroy
  deriving DecidableEq

/-- What a `PerfEventGroup` answers after the calls so far; `some` is an error text. -/
structure PerfEventGroup where
  openGroup : List Call → List PerfEventSpec → Option String
  start : List Call → Option String
  stopAndRead : List Call → Except String (ℕ → PerfEventValue)

/-- What lies outside `run_benchmark`: the build target, the reference, the counters, and the
printing of a float with `%.9g` and of a double with `%.3f`. -/
structure Environment (α I : Type) where
  target : PlatformId
  compute : QuantizationType → I → ℕ → Float32 α
  perf : PerfEventGroup
  g9 : Float32 α → String
  f3 : α → String

structure World (α S : Type) where
  state : S
  result : BenchmarkResult α
  calls : List Call

abbrev Step (α S β : Type) := Except (World α S) β

variable {α S I : Type} [Field α] [LinearOrder α]

namespace World

omit [Field α] [LinearOrder α]

def call (w : World α S) (c : Call) : World α S := { w with calls := w.calls ++ [c] }

def fail {β : Type} (w : World α S) (message : String) : Step α S β :=
  .error { w with result := { w.result with message := message } }

def reset (w : World α S) (k : KernelCallbacks α S I) : World α S :=
  { w with state := k.reset w.state }.call .reset

def run (w : World α S) (k : KernelCallbacks α S I) (iterations : ℕ) : World α S :=
  { w with state := k.run w.state iterations }.call (.run iterations)

def perfOpen (w : World α S) (perf : PerfEventGroup) (specs : List PerfEventSpec) :
    Step α S (World α S) :=
  let opened := w.call (.perfOpen (specs.map (·.name)))
  match perf.openGroup w.calls specs with
  | some error => opened.fail error
  | none => .ok opened

def perfStart (w : World α S) (perf : PerfEventGroup) : Step α S (World α S) :=
  match perf.start w.calls with
  | some error => (w.call .perfStart).fail error
  | none => .ok (w.call .perfStart)

def perfStopAndRead (w : World α S) (perf : PerfEventGroup) :
    Step α S (World α S × (ℕ → PerfEventValue)) :=
  match perf.stopAndRead w.calls with
  | .error error => (w.call .perfStopAndRead).fail error
  | .ok values => .ok (w.call .perfStopAndRead, values)

end World

/-- `request.m * request.n`, a product of `size_t`. -/
def elements (request : BenchmarkRequest) : ℕ := request.m * request.n % 2^64

/-- The part under `request.verify`. -/
def verification (env : Environment α I) (kernel : KernelRegistration α S I)
    (request : BenchmarkRequest) (input : I) (w : World α S) : Step α S (World α S) :=
  let w := (w.reset kernel.callbacks).run kernel.callbacks 1
  let actual := (kernel.callbacks.exportOutput w.state).2
  let exported := (kernel.callbacks.exportOutput w.state).1
  let w := w.call .exportOutput
  if !exported.success then w.fail exported.error
  else
    let expected := env.compute kernel.quantization input
    let w := w.call .compute
    let result := compare env.g9 actual expected (elements request)
      (startComparison (elements request) w.result)
    let result := { result with errorElementRatio :=
      if result.comparedElements ≠ 0 then result.errorElements / result.comparedElements else 0 }
    if !result.verificationPassed then
      .error { w with result := { result with message :=
        if result.message = "" then "output differs from llama.cpp reference"
        else result.message } }
    else .ok { w with result := result }

def cyclesEvent : PerfEventSpec := ⟨"cycles", 0, 0⟩

/-- The number of iterations of one sample. -/
def calibrate (env : Environment α I) (k : KernelCallbacks α S I) (request : BenchmarkRequest)
    (w : World α S) : Step α S (World α S × ℕ) :=
  if request.iterations ≠ 0 then .ok (w, request.iterations)
  else do
    let w ← w.perfOpen env.perf [cyclesEvent]
    let w ← (w.reset k).perfStart env.perf
    let (w, values) ← (w.run k 1).perfStopAndRead env.perf
    let cycles := values 0
    if cycles.timeEnabled = 0 ∨
        cycles.timeRunning * 100 % 2^64 < cycles.timeEnabled * 99 % 2^64 then
      w.fail "cycles calibration counter ran less than 99%"
    else .ok (w, max 1 (request.targetCycles / max cycles.value 1))

/-- The samples of one event, and the least share of time it was counted. -/
structure EventSamples (α : Type) where
  values : List α
  minimumRunning : α

/-- One round of the loop over the events of a sample. -/
def recordEvent (env : Environment α I) (iterations : ℕ) (values : ℕ → PerfEventValue)
    (w : World α S) (samples : ℕ → EventSamples α) (event : ℕ × PerfEventSpec) :
    Step α S (ℕ → EventSamples α) :=
  let value := values event.1
  let old := samples event.1
  if value.timeEnabled = 0 then w.fail ("perf event " ++ event.2.name ++ " was never enabled")
  else
    let running : α := 100 * value.timeRunning / value.timeEnabled
    if running < 99 then
      w.fail (snprintf 192 ("perf event " ++ event.2.name ++ " ran only " ++ env.f3 running ++
        "% (need >=99%)"))
    else
      .ok (Function.update samples event.1
        ⟨old.values ++ [(value.value : α) / iterations], min old.minimumRunning running⟩)

def recordSample (env : Environment α I) (k : KernelCallbacks α S I) (request : BenchmarkRequest)
    (iterations : ℕ) (acc : World α S × (ℕ → EventSamples α)) :
    Step α S (World α S × (ℕ → EventSamples α)) := do
  let w ← (acc.1.reset k).perfStart env.perf
  let (w, values) ← (w.run k iterations).perfStopAndRead env.perf
  let events := (List.range request.perfEvents.length).zip request.perfEvents
  let samples ← events.foldlM (recordEvent env iterations values w) acc.2
  .ok (w, samples)

/-- `static_cast<uint64_t>`. -/
def toUint64 [FloorRing α] (x : α) : ℕ := ⌊x⌋.toNat

/-- One round of the loop that reports the metrics. -/
def reportMetric [FloorRing α] (samples : ℕ → EventSamples α) (acc : BenchmarkResult α × Bool)
    (event : ℕ × PerfEventSpec) : BenchmarkResult α × Bool :=
  let sorted := (samples event.1).values.mergeSort (· ≤ ·)
  let metric : PerfMetricResult α := {
    name := event.2.name
    minPerIteration := sorted.headD 0
    medianPerIteration := sorted.getD (sorted.length / 2) 0
    minRunningPercent := (samples event.1).minimumRunning }
  let result := { acc.1 with perfMetrics := acc.1.perfMetrics ++ [metric] }
  if metric.name = "cycles" then
    ({ result with
      minCycles := toUint64 metric.minPerIteration
      medianCycles := toUint64 metric.medianPerIteration }, true)
  else (result, acc.2)

/-- The peak-performance model, used when cycles were counted. -/
def reportPeak (k : KernelCallbacks α S I) (request : BenchmarkRequest) (w : World α S) :
    Step α S (World α S) :=
  let peak := k.peakPerformance request
  let w := w.call .peakPerformance
  if peak.operationCount ≤ 0 ∨ peak.operationsPerCycle ≤ 0 ∨ peak.operationName = "" then
    w.fail "kernel returned an invalid peak-performance model"
  else
    let perCycle := peak.operationCount / w.result.medianCycles
    .ok { w with result := { w.result with
      operationsPerCycle := perCycle
      peakOperationsPerCycle := peak.operationsPerCycle
      operationName := peak.operationName
      utilizationPercent := perCycle / peak.operationsPerCycle * 100 } }

variable [FloorRing α]

/-- All that follows the verification. -/
def timing (env : Environment α I) (k : KernelCallbacks α S I) (request : BenchmarkRequest)
    (w : World α S) : Step α S (World α S) := do
  let w := (w.reset k).run k request.warmupIterations
  if request.samples = 0 ∨ request.perfEvents.isEmpty then
    w.fail "samples and perf event list must be non-empty"
  else
    let (w, iterations) ← calibrate env k request w
    let w := { w with result := { w.result with iterations := iterations } }
    let w ← w.perfOpen env.perf request.perfEvents
    let (w, samples) ← (List.range request.samples).foldlM
      (fun acc _ => recordSample env k request iterations acc) (w, fun _ => ⟨[], 100⟩)
    let events := (List.range request.perfEvents.length).zip request.perfEvents
    let (result, hasCycles) := events.foldl (reportMetric samples) (w.result, false)
    let result := { result with checksum := k.checksum w.state }
    let w := { w with result := result }.call .checksum
    if hasCycles ∧ result.medianCycles ≠ 0 then reportPeak k request w else .ok w

/-- `run_benchmark`, and the calls it makes. -/
def runBenchmark (env : Environment α I) (kernel : KernelRegistration α S I)
    (request : BenchmarkRequest) (input : I) : BenchmarkResult α × List Call :=
  let validation := kernel.callbacks.validate request
  let prepared := kernel.callbacks.prepare request input
  if !kernelSupportsPlatform kernel env.target then
    ({ BenchmarkResult.empty with
      message := "kernel is not valid for build platform " ++ platformName env.target }, [])
  else if !validation.supported then
    ({ BenchmarkResult.empty with skipped := true, message := validation.reason }, [.validate])
  else
    match prepared.state with
    | none => ({ BenchmarkResult.empty with message := prepared.error }, [.validate, .prepare])
    | some state =>
        let w : World α S := ⟨state, .empty, [.validate, .prepare]⟩
        let verified := if request.verify then verification env kernel request input w else .ok w
        let w := match verified.bind (timing env kernel.callbacks request) with
          | .ok w => w
          | .error w => w
        (w.result, w.calls ++ [.destroy])

end Pfng.Bench
