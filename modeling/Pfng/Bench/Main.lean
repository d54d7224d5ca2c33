import Pfng.Bench.Adapter
import Pfng.Bench.CountedRun
import Pfng.Bench.Options
import Pfng.Bench.Registry

/-! `main`: the kernels are registered, the arguments are read, the platform is checked, and then every
selected kernel is benchmarked, those of one type of weights after those of another. -/
namespace Pfng.Bench
open Exits Counters

/-- What `main` does, in order. The constant texts of the usage and of the build are left out. -/
inductive Action (α : Type)
  | abort (text : String)
  | usage
  | invalidEvent (text : List Char)
  | buildInfo
  | platformInfo (detected : PlatformDetectionResult)
  | platformFailure (error : String)
  | platformPass
  | listKernel (id name : String) (platform : PlatformId)
  | unknownKernel (selected : List Char)
  | initializeTcm
  | createInput (type : QuantizationType)
  | benchmark (id : String) (result : BenchmarkResult α) (calls : List Call)
  | print (line : String)

/-- The conversions of `printf`, by their precision. -/
structure Printer (α : Type) where
  f2 : α → String
  f4 : α → String
  f6 : α → String
  g9 : α → String
  g6 : Float32 α → String

/-- What is around `main`. The answers of the operating system may differ from one benchmark to the
next. -/
structure Program (α I : Type) where
  manifest : BuildManifest
  kBuildMaxThreads : ℕ
  registrations : List (Registration α I)
  deviceTreeRoot : String → Option (List UInt8)
  createInput : QuantizationType → BenchmarkRequest → I
  compute : QuantizationType → I → ℕ → Float32 α
  os : ℕ → Os
  printer : Printer α
  g9 : Float32 α → String
  f3 : α → String

variable {α I : Type} [Field α] [LinearOrder α] [FloorRing α]

/-- The surroundings of one benchmark. -/
def Program.environment (program : Program α I) (request : BenchmarkRequest) (run : ℕ) :
    Environment α I where
  target := buildTargetPlatform program.manifest
  compute := program.compute
  perf := counters (program.os run) request
  g9 := program.g9
  f3 := program.f3

-- The percentage below needs no proof of its own.
local instance atLeastTwo_100 : Nat.AtLeastTwo 100 := ⟨by decide⟩

omit [Field α] [LinearOrder α] [FloorRing α] in
/-- The lines about a metric. -/
def metricLine (printer : Printer α) (metric : PerfMetricResult α) : String :=
  "perf: event=" ++ metric.name ++ " min=" ++ printer.f6 metric.minPerIteration ++ " median=" ++
    printer.f6 metric.medianPerIteration ++ " min_running_pct=" ++ printer.f6 metric.minRunningPercent

omit [LinearOrder α] [FloorRing α] in
/-- The lines about a kernel, and whether it failed. -/
def reportResult (printer : Printer α) (request : BenchmarkRequest) (kernel : Kernel α I)
    (result : BenchmarkResult α) : List String × Bool :=
  let title := "[" ++ kernel.id ++ "] " ++ kernel.name
  if result.skipped then ([title, "status: SKIP (" ++ result.message ++ ")"], false)
  else
    let errors := if result.verified then "error elements: " ++ toString result.errorElements ++ "/" ++
        toString result.comparedElements ++ " (" ++ printer.f6 (result.errorElementRatio * 100) ++ "%)"
      else "error elements: unavailable (verification disabled or not completed)"
    let largest := ", max_abs=" ++ printer.g6 result.maxAbsoluteError ++ ", max_rel=" ++
      printer.g6 result.maxRelativeError
    if result.message ≠ "" then
      ([title, errors, "status: FAIL (" ++ result.message ++ ")" ++ largest], true)
    else
      let counted := if result.perfMetrics.any fun metric => metric.name == "cycles" then
          ["cycles: min=" ++ toString result.minCycles ++ " median=" ++ toString result.medianCycles ++
              " iterations=" ++ toString result.iterations ++ " samples=" ++ toString request.samples,
            "performance: " ++ printer.f4 result.operationsPerCycle ++ " " ++ result.operationName ++
              "/cycle, " ++ printer.f2 result.utilizationPercent ++ "% of " ++
              printer.f4 result.peakOperationsPerCycle ++ " " ++ result.operationName ++ "/cycle"]
        else
          ["cycles: unavailable iterations=" ++ toString result.iterations ++ " samples=" ++
              toString request.samples,
            "performance: unavailable (cycles event not requested)"]
      ([title, errors, "verify: " ++ (if result.verified then "PASS" else "disabled") ++ largest] ++
        result.perfMetrics.map (metricLine printer) ++ counted ++
        ["checksum: " ++ printer.g9 result.checksum], false)

/-- `failed`, what was done so far, and how many benchmarks were run. -/
structure Session (α : Type) where
  failed : Bool
  actions : List (Action α)
  runs : ℕ

def quantizationTypes : List QuantizationType :=
  [.weightQ4_0ActivationQ8_0, .weightQ4_KActivationQ8_K, .weightIQ2_XXSActivationQ8_K]

/-- The body of the inner loop, for a kernel of the type. -/
def benchmarkKernel (program : Program α I) (request : BenchmarkRequest) (input : I)
    (session : Session α) (kernel : Kernel α I) : Session α :=
  let ran := runBenchmark (program.environment request session.runs) kernel.registration request input
  let report := reportResult program.printer request kernel ran.1
  { failed := session.failed || report.2
    actions := session.actions ++ (.benchmark kernel.id ran.1 ran.2 :: report.1.map .print)
    runs := session.runs + 1 }

/-- One round of the outer loop. -/
def benchmarkType (program : Program α I) (request : BenchmarkRequest) (kernels : List (Kernel α I))
    (session : Session α) (type : QuantizationType) : Session α :=
  let hasKernel := kernels.foldl
    (fun has kernel => has || kernel.registration.quantization == type) false
  if !hasKernel then session
  else
    let input := program.createInput type request
    kernels.foldl (fun session kernel =>
        if kernel.registration.quantization ≠ type then session
        else benchmarkKernel program request input session kernel)
      { session with actions := session.actions ++ [.createInput type] }

def selectKernels (registry : List (Kernel α I)) (selected : List Char) : Option (List (Kernel α I)) :=
  if selected = "all".toList then some registry
  else (findKernel registry (String.ofList selected)).map fun kernel => [kernel]

/-- The exit code, if it does not abort, and what it does. -/
structure Exit (α : Type) where
  code : Option ℕ
  actions : List (Action α)

/-- `main` after the checks of the request. -/
def benchmarkAll (program : Program α I) (request : BenchmarkRequest) (kernels : List (Kernel α I)) :
    Exit α :=
  let session := quantizationTypes.foldl (benchmarkType program request kernels)
    ⟨false, [.initializeTcm], 0⟩
  ⟨some (if session.failed then 1 else 0), session.actions⟩

def main (program : Program α I) (arguments : List (List Char)) : Exit α :=
  match registerBuiltinKernels program.manifest program.registrations with
  | .error text => ⟨none, [.abort text]⟩
  | .ok registry =>
      match readArguments program.kBuildMaxThreads .start arguments with
      | .error .usage => ⟨some 2, [.usage]⟩
      | .error (.invalidEvent text) => ⟨some 2, [.invalidEvent text, .usage]⟩
      | .ok options =>
          if options.buildInfo then ⟨some 0, [.buildInfo]⟩
          else
            let detected := detectRuntimePlatform program.manifest program.deviceTreeRoot
            let verified := verifyRuntimePlatform program.manifest detected ""
            if !verified.1 then ⟨some 3, [.platformInfo detected, .platformFailure verified.2]⟩
            else if options.platformInfo || options.checkPlatform then
              ⟨some 0, (if options.platformInfo then [.platformInfo detected] else []) ++
                [.platformPass]⟩
            else if options.list then
              ⟨some 0, registry.map fun kernel =>
                .listKernel kernel.id kernel.name kernel.registration.platform⟩
            else if options.request.m = 0 ∨ options.request.n = 0 ∨ options.request.k = 0 then
              ⟨some 2, [.usage]⟩
            else
              match selectKernels registry options.selected with
              | none => ⟨some 2, [.initializeTcm, .unknownKernel options.selected]⟩
              | some kernels => benchmarkAll program options.request kernels

section Skipped

variable {S : Type} {env : Environment α I} {k : KernelCallbacks α S I} {request : BenchmarkRequest}
variable {w : World α S}

/-- `skipped` is as it was. -/
def Unskipped (w : World α S) : Prop := w.result.skipped = false

omit [FloorRing α] in
theorem compare_skipped (g9 : Float32 α → String) (actual expected : ℕ → Float32 α) (n : ℕ)
    (result : BenchmarkResult α) :
    (compare g9 actual expected n result).skipped = result.skipped := by
  induction n with
  | zero => rfl
  | succ n ih =>
      rw [compare_succ, ← ih, compareElement]
      split <;> rfl

theorem reportMetrics_skipped (samples : ℕ → EventSamples α) (events : List (ℕ × PerfEventSpec))
    (acc : BenchmarkResult α × Bool) :
    (events.foldl (reportMetric samples) acc).1.skipped = acc.1.skipped := by
  induction events generalizing acc with
  | nil => rfl
  | cons event events ih =>
      rw [List.foldl_cons, ih, reportMetric]
      dsimp only
      split <;> rfl

omit [Field α] [LinearOrder α] [FloorRing α] in
theorem perfOpen_unskipped (un : Unskipped w) (perf : PerfEventGroup) (specs : List PerfEventSpec) :
    Leaves (w.perfOpen perf specs) Unskipped Unskipped := by
  rw [World.perfOpen]
  cases perf.openGroup w.calls specs with
  | some error => exact un
  | none => exact un

omit [Field α] [LinearOrder α] [FloorRing α] in
theorem perfStart_unskipped (un : Unskipped w) (perf : PerfEventGroup) :
    Leaves (w.perfStart perf) Unskipped Unskipped := by
  rw [World.perfStart]
  cases perf.start w.calls with
  | some error => exact un
  | none => exact un

omit [Field α] [LinearOrder α] [FloorRing α] in
theorem perfStopAndRead_unskipped (un : Unskipped w) (perf : PerfEventGroup) :
    Leaves (w.perfStopAndRead perf) (fun read => Unskipped read.1) Unskipped := by
  rw [World.perfStopAndRead]
  cases perf.stopAndRead w.calls with
  | error error => exact un
  | ok values => exact un

omit [Field α] [LinearOrder α] [FloorRing α] in
theorem calibrate_unskipped (un : Unskipped w) :
    Leaves (calibrate env k request w) (fun calibrated => Unskipped calibrated.1) Unskipped := by
  rw [calibrate]
  refine Leaves.ite (fun _ => un) fun _ => ?_
  refine (perfOpen_unskipped un env.perf _).bind fun w un => ?_
  have reset : Unskipped (w.reset k) := un
  refine (perfStart_unskipped reset env.perf).bind fun w un => ?_
  have ran : Unskipped (w.run k 1) := un
  refine (perfStopAndRead_unskipped ran env.perf).bind ?_
  rintro ⟨w, values⟩ un
  exact Leaves.ite (fun _ => un) fun _ => un

omit [FloorRing α] in
theorem recordSamples_unskipped {acc : World α S × (ℕ → EventSamples α)} {iterations n : ℕ}
    (un : Unskipped acc.1) :
    Leaves ((List.range n).foldlM (fun acc _ => recordSample env k request iterations acc) acc)
      (fun acc => Unskipped acc.1) Unskipped := by
  refine Leaves.foldlM (fun _ (acc : World α S × (ℕ → EventSamples α)) => Unskipped acc.1) un
    fun _ _ acc un => ?_
  rw [recordSample]
  have reset : Unskipped (acc.1.reset k) := un
  refine (perfStart_unskipped reset env.perf).bind fun w un => ?_
  have ran : Unskipped (w.run k iterations) := un
  refine (perfStopAndRead_unskipped ran env.perf).bind ?_
  rintro ⟨w, values⟩ un
  refine Leaves.bind (P := fun _ => True) ?_ fun _ _ => un
  refine Leaves.foldlM (fun _ _ => True) trivial fun _ _ samples _ => ?_
  rw [recordEvent]
  refine Leaves.ite (fun _ => un) fun _ => ?_
  exact Leaves.ite (fun _ => un) fun _ => trivial

theorem timing_unskipped (un : Unskipped w) :
    Leaves (timing env k request w) Unskipped Unskipped := by
  rw [timing]
  refine Leaves.ite (fun _ => un) fun _ => ?_
  have warm : Unskipped ((w.reset k).run k request.warmupIterations) := un
  refine (calibrate_unskipped warm).bind ?_
  rintro ⟨w, iterations⟩ un
  let counting : World α S := { w with result := { w.result with iterations := iterations } }
  have counted : Unskipped counting := un
  refine (perfOpen_unskipped counted env.perf _).bind fun w un => ?_
  refine (recordSamples_unskipped un).bind ?_
  rintro ⟨w, samples⟩ un
  have summed := (reportMetrics_skipped samples
    ((List.range request.perfEvents.length).zip request.perfEvents) (w.result, false)).trans un
  refine Leaves.ite (fun _ => ?_) fun _ => summed
  rw [reportPeak]
  exact Leaves.ite (fun _ => summed) fun _ => summed

omit [FloorRing α] in
theorem verification_unskipped {kernel : KernelRegistration α S I} {input : I} (un : Unskipped w) :
    Leaves (verification env kernel request input w) Unskipped Unskipped := by
  rw [verification]
  refine Leaves.ite (fun _ => un) fun _ => ?_
  have compared := (compare_skipped env.g9 (kernel.callbacks.exportOutput
    ((w.reset kernel.callbacks).run kernel.callbacks 1).state).2 (env.compute kernel.quantization input)
    (elements request) (startComparison (elements request) w.result)).trans un
  exact Leaves.ite (fun _ => compared) fun _ => compared

variable {kernel : KernelRegistration α S I} {input : I}

theorem skipped_iff (platform : kernelSupportsPlatform kernel env.target = true) :
    (runBenchmark env kernel request input).1.skipped = true ↔
      (kernel.callbacks.validate request).supported = false := by
  by_cases started : ∃ state, Started env kernel request input state
  · obtain ⟨state, started⟩ := started
    have ran : Leaves (course env kernel request input state) Unskipped Unskipped := by
      refine Leaves.bind (P := Unskipped) ?_ fun w un => timing_unskipped un
      exact Leaves.ite (fun _ => verification_unskipped rfl) fun _ => rfl
    have last : Unskipped (final id (course env kernel request input state)) := ran.final fun _ h => h
    rw [run_eq started, last, started.valid]
    decide
  · rw [runBenchmark]
    by_cases valid : (kernel.callbacks.validate request).supported = true
    · have nothing : (kernel.callbacks.prepare request input).state = none := by
        cases prepared : (kernel.callbacks.prepare request input).state with
        | none => rfl
        | some state => exact absurd ⟨state, platform, valid, prepared⟩ started
      simp [platform, valid, nothing, BenchmarkResult.empty]
    · simp [platform, valid]

end Skipped

section Loops

variable {program : Program α I} {request : BenchmarkRequest} {done : List (Kernel α I)}
variable {session : Session α}

omit [Field α] [LinearOrder α] [FloorRing α] in
/-- The benchmarks among what was done. -/
def Action.benchmark? : Action α → Option (String × BenchmarkResult α × List Call)
  | .benchmark id result calls => some (id, result, calls)
  | _ => none

omit [Field α] [LinearOrder α] [FloorRing α] in
def Action.input? : Action α → Option QuantizationType
  | .createInput type => some type
  | _ => none

/-- The benchmark of a kernel, with the number of those before. -/
def Program.benchmark (program : Program α I) (request : BenchmarkRequest) (run : Kernel α I × ℕ) :
    BenchmarkResult α × List Call :=
  runBenchmark (program.environment request run.2) run.1.registration request
    (program.createInput run.1.registration.quantization request)

def Program.fails (program : Program α I) (request : BenchmarkRequest) (run : Kernel α I × ℕ) : Bool :=
  (reportResult program.printer request run.1 (program.benchmark request run).1).2

/-- The session after the kernels `done`, in this order, and the inputs of the types `created`. -/
structure Did (program : Program α I) (request : BenchmarkRequest) (done : List (Kernel α I))
    (created : List QuantizationType) (session : Session α) : Prop where
  runs : session.runs = done.length
  failed : session.failed = done.zipIdx.any (program.fails request)
  benchmarks : session.actions.filterMap Action.benchmark? = done.zipIdx.map fun run =>
    (run.1.id, program.benchmark request run)
  inputs : session.actions.filterMap Action.input? = created

omit [Field α] [LinearOrder α] [FloorRing α] in
theorem printed (lines : List String) :
    (lines.map Action.print : List (Action α)).filterMap Action.benchmark? = [] ∧
      (lines.map Action.print : List (Action α)).filterMap Action.input? = [] := by
  constructor
  · rw [List.filterMap_map, List.filterMap_eq_nil_iff]
    exact fun _ _ => rfl
  · rw [List.filterMap_map, List.filterMap_eq_nil_iff]
    exact fun _ _ => rfl

theorem Did.kernel {created : List QuantizationType} (did : Did program request done created session)
    (kernel : Kernel α I) : Did program request (done ++ [kernel]) created
      (benchmarkKernel program request (program.createInput kernel.registration.quantization request)
        session kernel) := by
  obtain ⟨runs, failed, benchmarks, inputs⟩ := did
  have last : (done ++ [kernel]).zipIdx = done.zipIdx ++ [(kernel, done.length)] := by
    rw [List.zipIdx_append, Nat.zero_add, List.zipIdx_singleton]
  refine ⟨?_, ?_, ?_, ?_⟩
  · rw [benchmarkKernel, List.length_append, List.length_singleton]
    exact congrArg (· + 1) runs
  · rw [benchmarkKernel, last, List.any_append, ← failed, runs]
    simp [Program.fails, Program.benchmark]
  · rw [benchmarkKernel, last, List.map_append, ← benchmarks, runs, List.filterMap_append]
    simp only [List.filterMap_cons, Action.benchmark?, (printed _).1]
    rfl
  · rw [benchmarkKernel, List.filterMap_append, inputs]
    simp only [List.filterMap_cons, Action.input?, (printed _).2, List.append_nil]

theorem Did.inner {created : List QuantizationType} (type : QuantizationType)
    (did : Did program request done created session) (kernels : List (Kernel α I)) :
    Did program request (done ++ kernels.filter fun kernel => kernel.registration.quantization = type)
      created (kernels.foldl (fun session kernel =>
        if kernel.registration.quantization ≠ type then session
        else benchmarkKernel program request (program.createInput type request) session kernel)
        session) := by
  induction kernels generalizing session done with
  | nil => simpa using did
  | cons kernel kernels ih =>
      rw [List.foldl_cons]
      by_cases same : kernel.registration.quantization = type
      · subst same
        rw [List.filter_cons_of_pos (by simp), if_neg (by simp), List.append_cons]
        exact ih (did.kernel kernel)
      · rw [List.filter_cons_of_neg (by simpa using same), if_pos same]
        exact ih did

omit [Field α] [LinearOrder α] [FloorRing α] in
theorem hasKernel_eq (type : QuantizationType) (kernels : List (Kernel α I)) (has : Bool) :
    kernels.foldl (fun has kernel => has || kernel.registration.quantization == type) has =
      (has || kernels.any fun kernel => kernel.registration.quantization == type) := by
  induction kernels generalizing has with
  | nil => simp
  | cons kernel kernels ih => rw [List.foldl_cons, ih, List.any_cons, Bool.or_assoc]

def typesOf (kernels : List (Kernel α I)) (types : List QuantizationType) : List QuantizationType :=
  types.filter fun type => kernels.any fun kernel => kernel.registration.quantization == type

def inOrder (kernels : List (Kernel α I)) (types : List QuantizationType) : List (Kernel α I) :=
  types.flatMap fun type => kernels.filter fun kernel => kernel.registration.quantization = type

theorem Did.types {created : List QuantizationType} (did : Did program request done created session)
    (kernels : List (Kernel α I)) (types : List QuantizationType) :
    Did program request (done ++ inOrder kernels types) (created ++ typesOf kernels types)
      (types.foldl (benchmarkType program request kernels) session) := by
  induction types generalizing session done created with
  | nil => simpa [inOrder, typesOf] using did
  | cons type types ih =>
      rw [List.foldl_cons, inOrder, typesOf, List.flatMap_cons, ← List.append_assoc]
      cases has : kernels.any fun kernel => kernel.registration.quantization == type with
      | false =>
          have none_ : (kernels.filter fun kernel => kernel.registration.quantization = type) = [] := by
            rw [List.filter_eq_nil_iff]
            rw [List.any_eq_false] at has
            simpa using has
          have same : benchmarkType program request kernels session type = session := by
            rw [benchmarkType, hasKernel_eq, has]
            rfl
          rw [none_, same, List.append_nil, List.filter_cons_of_neg (by simp [has])]
          exact ih did
      | true =>
          have input : Did program request done (created ++ [type])
              { session with actions := session.actions ++ [.createInput type] } := by
            obtain ⟨runs, failed, benchmarks, inputs⟩ := did
            refine ⟨runs, failed, ?_, ?_⟩
            · rw [List.filterMap_append, benchmarks]
              exact List.append_nil _
            · rw [List.filterMap_append, inputs]
              rfl
          have step := input.inner type kernels
          rw [List.filter_cons_of_pos (by simp [has]), List.append_cons]
          have same : benchmarkType program request kernels session type = kernels.foldl
              (fun session kernel => if kernel.registration.quantization ≠ type then session
                else benchmarkKernel program request (program.createInput type request) session kernel)
              { session with actions := session.actions ++ [.createInput type] } := by
            rw [benchmarkType, hasKernel_eq, has]
            rfl
          rw [same]
          exact ih step

end Loops

section Exit

variable {program : Program α I} {request : BenchmarkRequest} {arguments : List (List Char)}
variable {options : Options} {kernels : List (Kernel α I)} {kernel : Kernel α I} {run : Kernel α I × ℕ}

/-- A kernel says why it does not prepare or export. -/
structure Kernel.Tells (kernel : Kernel α I) : Prop where
  preparing : ∀ request input, (kernel.registration.callbacks.prepare request input).state = none →
    (kernel.registration.callbacks.prepare request input).error ≠ ""
  exporting : ∀ state, (kernel.registration.callbacks.exportOutput state).1.success = false →
    (kernel.registration.callbacks.exportOutput state).1.error ≠ ""

omit [LinearOrder α] [FloorRing α] in
theorem Adapter.tells {B M : Type} (adapter : Adapter α I B M) (named : adapter.expected ≠ "")
    (undefined : M → M) (platform : PlatformId) (request : BenchmarkRequest) (id name : String) :
    Kernel.Tells ⟨_, id, name, adapter.registration undefined platform request⟩ where
  preparing given input nothing := by
    simp only [Adapter.registration, Adapter.callbacks, Adapter.prepare] at nothing ⊢
    cases variant : adapter.getIf input with
    | none => exact named
    | some blocks =>
        rw [variant] at nothing
        cases nothing
  exporting state failed := by
    simp only [Adapter.registration, Adapter.callbacks, Adapter.exportCommon] at failed ⊢
    split_ifs at failed ⊢ with sizes
    exact (by decide : "output size mismatch" ≠ "")

/-- The benchmark makes every call of `run_benchmark`, and its peak performance can be reported. -/
def Program.Completes (program : Program α I) (request : BenchmarkRequest) (run : Kernel α I × ℕ) :
    Prop :=
  ∃ iterations, Iterations request iterations ∧ ∃ peak : Bool, request.samples ≠ 0 ∧
    (peak = true → ValidPeak run.1.registration.callbacks request) ∧
    (program.benchmark request run).2 =
      measuringCalls request iterations ++ reportCalls peak ++ [.destroy]

omit [LinearOrder α] [FloorRing α] in
theorem reportResult_fails (printer : Printer α) (request : BenchmarkRequest) (kernel : Kernel α I)
    (result : BenchmarkResult α) : (reportResult printer request kernel result).2 = false ↔
      result.skipped = true ∨ result.message = "" := by
  rw [reportResult]
  by_cases skipped : result.skipped = true
  · simp [skipped]
  · by_cases silent : result.message = ""
    · simp [skipped, silent]
    · simp [skipped, silent]

/-- A benchmark does not fail just when its kernel refuses the request or it completes. -/
theorem fails_iff (tells : run.1.Tells)
    (platform : kernelSupportsPlatform run.1.registration (buildTargetPlatform program.manifest) = true) :
    program.fails request run = false ↔
      (run.1.registration.callbacks.validate request).supported = false ∨
        program.Completes request run := by
  let env := program.environment request run.2
  let input := program.createInput run.1.registration.quantization request
  have supported : kernelSupportsPlatform run.1.registration env.target = true := platform
  have skipped : (program.benchmark request run).1.skipped = true ↔ _ := skipped_iff supported
  rw [Program.fails, reportResult_fails, skipped]
  refine or_congr_right' fun valid => ?_
  have valid : (run.1.registration.callbacks.validate request).supported = true := by
    simpa using valid
  by_cases started : ∃ state, Started env run.1.registration request input state
  · obtain ⟨state, started⟩ := started
    obtain ⟨opening, starting, stopping⟩ := counters_texts (program.os run.2) request
    exact completes_iff started ⟨opening, starting, stopping, tells.exporting⟩
  · have no : ∀ state, ¬Started env run.1.registration request input state :=
      fun state h => started ⟨state, h⟩
    have nothing : (run.1.registration.callbacks.prepare request input).state = none := by
      cases prepared : (run.1.registration.callbacks.prepare request input).state with
      | none => rfl
      | some state => exact absurd ⟨supported, valid, prepared⟩ (no state)
    have message : (program.benchmark request run).1.message =
        (run.1.registration.callbacks.prepare request input).error := by
      rw [Program.benchmark, runBenchmark]
      simp [show kernelSupportsPlatform run.1.registration (program.environment request run.2).target =
        true from platform, valid, show (run.1.registration.callbacks.prepare request
          (program.createInput run.1.registration.quantization request)).state = none from nothing, input]
    constructor
    · intro silent
      exact absurd (message ▸ silent) (tells.preparing request input nothing)
    · rintro ⟨iterations, _, peak, _, _, calls⟩
      have part : (program.benchmark request run).2 <+: [.validate, .prepare] := run_not_started no
      rw [calls] at part
      have member := part.subset (List.mem_append_right _ (List.mem_singleton_self Call.destroy))
      simp at member

/-- The arguments lead to the benchmarks of these kernels. -/
structure Reached (program : Program α I) (arguments : List (List Char)) (options : Options)
    (kernels : List (Kernel α I)) : Prop where
  arguments : readArguments program.kBuildMaxThreads .start arguments = .ok options
  noBuildInfo : options.buildInfo = false
  platform : (verifyRuntimePlatform program.manifest
    (detectRuntimePlatform program.manifest program.deviceTreeRoot) "").1 = true
  noPlatformInfo : (options.platformInfo || options.checkPlatform) = false
  noList : options.list = false
  shape : options.request.m ≠ 0 ∧ options.request.n ≠ 0 ∧ options.request.k ≠ 0
  selected : ∃ registry, registerBuiltinKernels program.manifest program.registrations = .ok registry ∧
    selectKernels registry options.selected = some kernels

theorem main_of_reached (reached : Reached program arguments options kernels) :
    main program arguments = benchmarkAll program options.request kernels := by
  obtain ⟨read, noBuildInfo, platform, noPlatformInfo, noList, ⟨hm, hn, hk⟩, registry, registered,
    selected⟩ := reached
  have shape : ¬(options.request.m = 0 ∨ options.request.n = 0 ∨ options.request.k = 0) := by
    simp [hm, hn, hk]
  rw [main, registered]
  simp only [read, noBuildInfo, platform, noPlatformInfo, noList, Bool.false_eq_true, if_false,
    Bool.not_true, if_neg shape, selected]

omit [Field α] [LinearOrder α] [FloorRing α] in
theorem no_benchmark {actions : List (Action α)} (none_ : actions.filterMap Action.benchmark? = [])
    {action : Action α} (member : action ∈ actions) : action.benchmark? = none :=
  List.filterMap_eq_nil_iff.mp none_ action member

theorem reached_of_benchmark {action : Action α} (member : action ∈ (main program arguments).actions)
    (ran : action.benchmark? ≠ none) : ∃ options kernels, Reached program arguments options kernels := by
  rw [main] at member
  cases registered : registerBuiltinKernels program.manifest program.registrations with
  | error text =>
      simp only [registered] at member
      exact absurd (no_benchmark rfl member) ran
  | ok registry =>
      simp only [registered] at member
      cases read : readArguments program.kBuildMaxThreads .start arguments with
      | error refusal =>
          cases refusal with
          | usage =>
              simp only [read] at member
              exact absurd (no_benchmark rfl member) ran
          | invalidEvent text =>
              simp only [read] at member
              exact absurd (no_benchmark rfl member) ran
      | ok options =>
          simp only [read] at member
          split_ifs at member with build platform info told list shape
          · exact absurd (no_benchmark rfl member) ran
          · exact absurd (no_benchmark rfl member) ran
          · exact absurd (no_benchmark rfl member) ran
          · exact absurd (no_benchmark rfl member) ran
          · refine absurd (no_benchmark ?_ member) ran
            rw [List.filterMap_map, List.filterMap_eq_nil_iff]
            exact fun _ _ => rfl
          · exact absurd (no_benchmark rfl member) ran
          · cases selected : selectKernels registry options.selected with
            | none =>
                simp only [selected] at member
                exact absurd (no_benchmark rfl member) ran
            | some kernels =>
                simp only [not_or] at shape
                exact ⟨options, kernels, read, by simpa using build, by simpa using platform,
                  by simpa using info, by simpa using list, shape, registry, registered, selected⟩

omit [Field α] [LinearOrder α] [FloorRing α] in
theorem Reached.registry (reached : Reached program arguments options kernels) : ∃ registry,
    registerBuiltinKernels program.manifest program.registrations = .ok registry ∧
    (registry.map (·.id)).Nodup ∧ (kernels = registry ∨ ∃ kernel ∈ registry, kernels = [kernel]) ∧
    ∀ kernel ∈ registry,
      kernelSupportsPlatform kernel.registration (buildTargetPlatform program.manifest) = true := by
  obtain ⟨identified, same⟩ := (verify_iff _ _).mp reached.platform
  have known : buildTargetPlatform program.manifest ≠ .unknown := same ▸ identified
  obtain ⟨registry, registered, selected⟩ := reached.selected
  obtain ⟨_, rfl, each, _, distinct, _⟩ := (registerBuiltinKernels_iff []).mp registered
  refine ⟨_, registered, distinct, ?_, fun kernel member => ?_⟩
  · rw [selectKernels] at selected
    split_ifs at selected with all
    · exact .inl (Option.some_inj.mp selected).symm
    · obtain ⟨kernel, found, same⟩ := Option.map_eq_some_iff.mp selected
      exact .inr ⟨kernel, List.mem_of_find?_eq_some found, same.symm⟩
  · obtain ⟨registration, _, registers⟩ := registers_of_mem each member
    exact registers.supports known

omit [Field α] [LinearOrder α] [FloorRing α] in
theorem mem_registry {registry : List (Kernel α I)}
    (from_ : kernels = registry ∨ ∃ kernel ∈ registry, kernels = [kernel]) (member : kernel ∈ kernels) :
    kernel ∈ registry := by
  rcases from_ with rfl | ⟨only, inside, rfl⟩
  · exact member
  · rwa [List.mem_singleton.mp member]

/-- A list sorted by a key is a permutation of it, when the keys are complete. -/
theorem flatMap_filter_perm {β κ : Type*} [DecidableEq κ] (key : β → κ) {keys : List κ}
    (distinct : keys.Nodup) {l : List β} (complete : ∀ b ∈ l, key b ∈ keys) :
    (keys.flatMap fun t => l.filter fun b => key b = t).Perm l := by
  induction keys generalizing l with
  | nil =>
      cases l with
      | nil => exact .nil
      | cons b l => exact absurd (complete b List.mem_cons_self) List.not_mem_nil
  | cons t keys ih =>
      obtain ⟨fresh, distinct⟩ := List.nodup_cons.mp distinct
      have later : (keys.flatMap fun t => l.filter fun b => key b = t) =
          keys.flatMap fun t' => (l.filter fun b => !decide (key b = t)).filter fun b => key b = t' := by
        refine List.flatMap_congr fun t' member => ?_
        rw [List.filter_filter]
        refine List.filter_congr fun b _ => ?_
        by_cases same : key b = t'
        · have other : t' ≠ t := fun h => fresh (h ▸ member)
          simp [same, other]
        · simp [same]
      rw [List.flatMap_cons, later]
      refine ((ih distinct ?_).append_left _).trans (List.filter_append_perm (fun b => key b = t) l)
      intro b member
      obtain ⟨inside, other⟩ := List.mem_filter.mp member
      refine (List.mem_cons.mp (complete b inside)).resolve_left ?_
      simpa using other

theorem did_of_reached (reached : Reached program arguments options kernels) :
    ∃ session, main program arguments = ⟨some (if session.failed then 1 else 0), session.actions⟩ ∧
      Did program options.request (inOrder kernels quantizationTypes)
        (typesOf kernels quantizationTypes) session := by
  have first : Did program options.request ([] : List (Kernel α I)) [] ⟨false, [.initializeTcm], 0⟩ :=
    ⟨rfl, rfl, rfl, rfl⟩
  exact ⟨_, main_of_reached reached, first.types kernels quantizationTypes⟩

omit [Field α] [LinearOrder α] [FloorRing α] in
theorem inOrder_perm (kernels : List (Kernel α I)) : (inOrder kernels quantizationTypes).Perm kernels := by
  refine flatMap_filter_perm _ (by decide) fun kernel _ => ?_
  cases kernel.registration.quantization <;> decide

/-- An adapter whose every output is one. -/
def onesAdapter : Adapter ℚ Unit Unit Unit where
  quantization := .weightQ4_0ActivationQ8_0
  peakPerformance := peakRvvI8I16Mac
  validate := fun _ => ⟨true, ""⟩
  getIf := some
  expected := "expected Q4_0/Q8_0 input"
  fresh := fun _ => ()
  pack := fun _ _ => some
  run := fun _ _ _ => some
  output := fun _ _ => some 1
  fill := fun _ => id

def sampleOptions : Options :=
  { Options.start with request := { Options.start.request with m := 1, n := 1, k := 32 } }

def onesCallbacks : KernelCallbacks ℚ (State Unit) Unit := onesAdapter.callbacks id sampleOptions.request

def sampleProgram : Program ℚ Unit where
  manifest := ⟨"spacemit-k1-x60", [k1x]⟩
  kBuildMaxThreads := 4
  registrations := [⟨State Unit, "ones", "Ones", .weightQ4_0ActivationQ8_0,
    { peakPerformance := some onesCallbacks.peakPerformance
      validate := some onesCallbacks.validate
      prepare := some onesCallbacks.prepare
      reset := some onesCallbacks.reset
      run := some onesCallbacks.run
      exportOutput := some onesCallbacks.exportOutput
      checksum := some onesCallbacks.checksum
      destroy := some fun _ => () }⟩]
  deviceTreeRoot := fun name => if name = "compatible" then some k1x.bytes else none
  createInput := fun _ _ => ()
  compute := fun _ _ _ => .finite 1
  os := fun _ => sampleOs
  printer := ⟨fun _ => "0", fun _ => "0", fun _ => "0", fun _ => "0", fun _ => "0"⟩
  g9 := fun _ => "0"
  f3 := fun _ => "0.000"

def sampleArguments : List (List Char) :=
  ["--m".toList, "1".toList, "--n".toList, "1".toList, "--k".toList, "32".toList]

def registeredKernel : Kernel ℚ Unit :=
  ⟨_, "ones", "Ones", onesAdapter.registration id .spacemitK1X60 sampleOptions.request⟩

theorem sample_reached : Reached sampleProgram sampleArguments sampleOptions [registeredKernel] where
  arguments := rfl
  noBuildInfo := rfl
  platform := by
    have listed : Listed sampleProgram.manifest (readFile (sampleProgram.deviceTreeRoot "compatible")) :=
      ⟨k1x, List.mem_singleton_self _, 0, 13, ⟨by decide, by decide, by decide, Or.inl rfl, Or.inl rfl⟩, rfl⟩
    have detected := detect_listed listed
    refine (verify_iff _ _).mpr ⟨?_, detected⟩
    rw [detected]
    decide
  noPlatformInfo := rfl
  noList := rfl
  shape := ⟨by decide, by decide, by decide⟩
  selected := ⟨[registeredKernel], rfl, rfl⟩

theorem registeredKernel_tells : ∀ kernel ∈ [registeredKernel], kernel.Tells := by
  intro kernel member
  rw [List.mem_singleton.mp member]
  exact onesAdapter.tells (by decide) id _ _ _ _

/-- A kernel is benchmarked only on a machine that names the board of the build in its device tree, only
with a request that is in range, and only if it was registered under an identifier of its own. -/
theorem main_gate {id : String} {result : BenchmarkResult α} {calls : List Call}
    (ran : .benchmark id result calls ∈ (main program arguments).actions) :
    Listed program.manifest (readFile (program.deviceTreeRoot "compatible")) ∧
    buildTargetPlatform program.manifest ≠ .unknown ∧
    ∃ options kernels registry, Reached program arguments options kernels ∧
      options.Sound program.kBuildMaxThreads ∧
      registerBuiltinKernels program.manifest program.registrations = .ok registry ∧
      (registry.map (·.id)).Nodup ∧ (kernels = registry ∨ ∃ kernel ∈ registry, kernels = [kernel]) ∧
      (∀ kernel ∈ registry,
        kernelSupportsPlatform kernel.registration (buildTargetPlatform program.manifest) = true) ∧
      ∃ run ∈ (inOrder kernels quantizationTypes).zipIdx, run.1 ∈ kernels ∧ run.1.id = id ∧
        program.benchmark options.request run = (result, calls) := by
  obtain ⟨options, kernels, reached⟩ := reached_of_benchmark ran (by simp [Action.benchmark?])
  obtain ⟨identified, same⟩ := (verify_iff _ _).mp reached.platform
  obtain ⟨registry, registered, distinct, chosen, supports⟩ := reached.registry
  refine ⟨?_, same ▸ identified, options, kernels, registry, reached,
    (readArguments_iff.mp reached.arguments).sound Options.sound_start, registered, distinct,
    chosen, supports, ?_⟩
  · by_contra unlisted
    exact identified (detect_unlisted unlisted).1
  · obtain ⟨session, ended, did⟩ := did_of_reached reached
    rw [ended] at ran
    have found : (id, result, calls) ∈ session.actions.filterMap Action.benchmark? :=
      List.mem_filterMap.mpr ⟨_, ran, rfl⟩
    rw [did.benchmarks] at found
    obtain ⟨run, member, same⟩ := List.mem_map.mp found
    obtain ⟨sameId, sameRun⟩ := Prod.mk.inj same
    have inside : run.1 ∈ kernels := (inOrder_perm kernels).subset (List.fst_mem_of_mem_zipIdx member)
    exact ⟨run, member, inside, sameId, sameRun⟩

theorem benchmark_member : .benchmark "ones"
    (sampleProgram.benchmark sampleOptions.request (registeredKernel, 0)).1
    (sampleProgram.benchmark sampleOptions.request (registeredKernel, 0)).2 ∈
      (main sampleProgram sampleArguments).actions := by
  obtain ⟨session, ended, did⟩ := did_of_reached sample_reached
  have found : ("ones", sampleProgram.benchmark sampleOptions.request (registeredKernel, 0)) ∈
      session.actions.filterMap Action.benchmark? := by
    rw [did.benchmarks]
    exact List.mem_singleton_self _
  obtain ⟨action, member, same⟩ := List.mem_filterMap.mp found
  rw [ended]
  cases action with
  | benchmark id result calls =>
      cases same
      exact member
  | _ => cases same

theorem sample_main_gate :
    Listed sampleProgram.manifest (readFile (sampleProgram.deviceTreeRoot "compatible")) ∧
    buildTargetPlatform sampleProgram.manifest ≠ .unknown ∧
    ∃ options kernels registry, Reached sampleProgram sampleArguments options kernels ∧
      options.Sound sampleProgram.kBuildMaxThreads ∧
      registerBuiltinKernels sampleProgram.manifest sampleProgram.registrations = .ok registry ∧
      (registry.map (·.id)).Nodup ∧ (kernels = registry ∨ ∃ kernel ∈ registry, kernels = [kernel]) ∧
      (∀ kernel ∈ registry,
        kernelSupportsPlatform kernel.registration (buildTargetPlatform sampleProgram.manifest) = true) ∧
      ∃ run ∈ (inOrder kernels quantizationTypes).zipIdx, run.1 ∈ kernels ∧ run.1.id = "ones" ∧
        sampleProgram.benchmark options.request run =
          ((sampleProgram.benchmark sampleOptions.request (registeredKernel, 0)).1,
            (sampleProgram.benchmark sampleOptions.request (registeredKernel, 0)).2) :=
  main_gate benchmark_member

end Exit

end Pfng.Bench
