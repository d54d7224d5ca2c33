import Pfng.Bench.Protocol
import Pfng.Lib.Blocking
import Pfng.Lib.Memory

/-! What the adapters share, and what `run_benchmark` reports of an adapter that keeps its promise:
packed once, its arrays stay ready, and a run leaves the values of the reference in the output. -/
namespace Pfng.Bench
open Checked Exits

section Peak

variable {α : Type} [Field α]

def peakMac (operationsPerCycle : α) (name : String) (request : BenchmarkRequest) : PeakPerformance α :=
  ⟨(request.m : α) * request.n * request.k, operationsPerCycle, name⟩

def peakRvvI8I16Mac : BenchmarkRequest → PeakPerformance α := peakMac 16 "i8-i16 MAC"

def peakIme1I8I32Mac : BenchmarkRequest → PeakPerformance α := peakMac 128 "i8-i32 MAC"

def peakIme2I8I32Mac : BenchmarkRequest → PeakPerformance α := peakMac 1024 "i8-i32 MAC"

end Peak

/-- `CommonState` with the arrays `M` of the adapter. `turn` counts the runs; the threads of each take
the tiles in an order of their own. -/
structure State (M : Type) where
  request : BenchmarkRequest
  memory : M
  turn : ℕ

/-- An adapter whose arrays are `M`: `fresh` gives them with their sizes, `output` and `fill` are
`output_value` and `std::fill` on it. A function gives `none` where it would access an array outside
its bounds. -/
structure Adapter (α I B M : Type) where
  quantization : QuantizationType
  peakPerformance : BenchmarkRequest → PeakPerformance α
  validate : BenchmarkRequest → ValidationResult
  getIf : I → Option B
  expected : String
  fresh : BenchmarkRequest → M
  pack : BenchmarkRequest → B → M → Option M
  run : ℕ → BenchmarkRequest → ℕ → M → Option M
  output : M → ℕ → Option α
  fill : α → M → M

namespace Adapter

variable {α I B M : Type} [Field α] (adapter : Adapter α I B M)

/-- `prepare`. After an access outside the bounds the arrays are `undefined`. -/
def prepare (undefined : M → M) (request : BenchmarkRequest) (input : I) : PrepareResult (State M) :=
  match adapter.getIf input with
  | none => ⟨none, adapter.expected⟩
  | some blocks =>
      let fresh := adapter.fresh request
      ⟨some ⟨request, (adapter.pack request blocks fresh).getD (undefined fresh), 0⟩, ""⟩

def runState (undefined : M → M) (state : State M) (iterations : ℕ) : State M :=
  let memory := (adapter.run state.turn state.request iterations state.memory).getD
    (undefined state.memory)
  ⟨state.request, memory, state.turn + 1⟩

def resetCommon (state : State M) : State M := { state with memory := adapter.fill 0 state.memory }

/-- `export_common` into a span of `size` elements. -/
def exportCommon (size : ℕ) (state : State M) : ExportResult × (ℕ → Float32 α) :=
  let exported := fun i => (adapter.output state.memory i).elim .nan .finite
  if size ≠ elements state.request then (⟨false, "output size mismatch"⟩, exported)
  else (⟨true, ""⟩, exported)

def checksumCommon (state : State M) : α :=
  (List.range (chunkCount (elements state.request) 257)).foldl
    (fun sum i => sum + (adapter.output state.memory (i * 257)).getD 0) 0

/-- The callbacks in a run of `request`, which exports into a span of `elements request`. -/
def callbacks (undefined : M → M) (request : BenchmarkRequest) : KernelCallbacks α (State M) I where
  peakPerformance := adapter.peakPerformance
  validate := adapter.validate
  prepare := adapter.prepare undefined
  reset := adapter.resetCommon
  run := adapter.runState undefined
  exportOutput := adapter.exportCommon (elements request)
  checksum := adapter.checksumCommon

/-- What `register_kernel` keeps. -/
def registration (undefined : M → M) (platform : PlatformId) (request : BenchmarkRequest) :
    KernelRegistration α (State M) I where
  quantization := adapter.quantization
  platform := platform
  callbacks := adapter.callbacks undefined request

end Adapter

/-- The sum that `checksum_common` takes of these values. -/
def checksumOf {α : Type} [Field α] (request : BenchmarkRequest) (value : ℕ → α) : α :=
  (List.range (chunkCount (elements request) 257)).foldl (fun sum i => sum + value (i * 257)) 0

section Contract

variable {α I B M : Type} [Field α]

/-- The promise of an adapter for one request and one input: its arrays are `Ready` when they are
packed, they stay so, and a run leaves `value` in the output. -/
structure Honours (adapter : Adapter α I B M) (request : BenchmarkRequest) (input : I) (value : ℕ → α)
    (Ready : M → Prop) : Prop where
  packed : ∃ blocks, adapter.getIf input = some blocks ∧
    Ends (adapter.pack request blocks (adapter.fresh request)) Ready
  filled : ∀ x memory, Ready memory → Ready (adapter.fill x memory)
  ran : ∀ turn iterations memory, Ready memory →
    Ends (adapter.run turn request iterations memory) fun after => Ready after ∧
      (1 ≤ iterations → ∀ x < request.m * request.n, adapter.output after x = some (value x))

/-- A call between `prepare` and `destroy` that changes the state. -/
inductive Turn
  | reset
  | run (iterations : ℕ)

def Adapter.turn (adapter : Adapter α I B M) (undefined : M → M) (state : State M) : Turn → State M
  | .reset => adapter.resetCommon state
  | .run iterations => adapter.runState undefined state iterations

/-- After any turns, a run that iterates at all leaves the values in what is exported. -/
def Delivers (adapter : Adapter α I B M) (undefined : M → M) (request : BenchmarkRequest) (input : I)
    (value : ℕ → α) : Prop :=
  ∃ state, adapter.prepare undefined request input = ⟨some state, ""⟩ ∧
    ∀ (turns : List Turn) (iterations : ℕ), 1 ≤ iterations →
      let last := adapter.runState undefined (turns.foldl (adapter.turn undefined) state) iterations
      (adapter.exportCommon (elements request) last).1 = ⟨true, ""⟩ ∧
        ∀ x < elements request,
          (adapter.exportCommon (elements request) last).2 x = .finite (value x)

/-- The members that judge the kernel. -/
structure Verdict (α : Type) where
  skipped : Bool
  verified : Bool
  passed : Bool
  errors : ℕ
  compared : ℕ
  absolute : Float32 α
  relative : Float32 α
  ratio : α

def BenchmarkResult.verdict (result : BenchmarkResult α) : Verdict α where
  skipped := result.skipped
  verified := result.verified
  passed := result.verificationPassed
  errors := result.errorElements
  compared := result.comparedElements
  absolute := result.maxAbsoluteError
  relative := result.maxRelativeError
  ratio := result.errorElementRatio

/-- Nothing speaks against the kernel. -/
def faultless (request : BenchmarkRequest) : Verdict α where
  skipped := false
  verified := request.verify
  passed := request.verify
  errors := 0
  compared := if request.verify then elements request else 0
  absolute := .finite 0
  relative := .finite 0
  ratio := 0

/-- A report without fault: the run gets past the verification, and where it gets as far as the
checksum, that is the one of the reference and the run has nothing to complain of. -/
structure Reports (request : BenchmarkRequest) (value : ℕ → α)
    (report : BenchmarkResult α × List Call) : Prop where
  verdict : report.1.verdict = faultless request
  timed : verifiedCalls request ++ [.reset, .run request.warmupIterations] <+: report.2
  checksum : .checksum ∈ report.2 → report.1.checksum = checksumOf request value
  silent : .checksum ∈ report.2 → report.1.message = ""

end Contract

theorem elements_le (request : BenchmarkRequest) : elements request ≤ request.m * request.n :=
  Nat.mod_le _ _

section Same

variable {α : Type} [Field α] [LinearOrder α] [IsStrictOrderedRing α]
variable {g9 : Float32 α → String} {actual expected : ℕ → Float32 α} {value : ℕ → α}

theorem compareElement_same {result : BenchmarkResult α} {i : ℕ} (left : actual i = .finite (value i))
    (right : expected i = .finite (value i)) (absolute : result.maxAbsoluteError = .finite 0)
    (relative : result.maxRelativeError = .finite 0) :
    compareElement g9 actual expected result i = result := by
  have none : absoluteError (actual i) (expected i) = .finite 0 := by
    rw [left, right, absoluteError, Extended.sub_finite, sub_self, Extended.fabs_finite, abs_zero]
  have share : relativeError (actual i) (expected i) = .finite 0 := by
    have pos : (0 : α) < max |value i| (1 / 1000000) := lt_max_of_lt_right (by norm_num)
    rw [relativeError, none, right, Extended.fabs_finite, smallest, Extended.stdMax_finite,
      Extended.div_finite _ pos.ne', zero_div]
  have fine : differs (actual i) (expected i) = false := by
    have low : ¬(1 / 1000 : α) < 0 := not_lt.mpr (by norm_num)
    rw [differs, none, tolerance, Extended.lt_finite, decide_eq_false low, Bool.false_and]
  have keeps : ∀ x : Float32 α, x = .finite 0 → x.stdMax (.finite 0) = x := by
    rintro _ rfl
    rw [Extended.stdMax_finite, max_self]
  rw [compareElement, none, share, fine, keeps _ absolute, keeps _ relative]
  rfl

theorem compare_same (value : ℕ → α) {result : BenchmarkResult α} {n : ℕ}
    (same : ∀ i < n, actual i = .finite (value i) ∧ expected i = .finite (value i))
    (absolute : result.maxAbsoluteError = .finite 0) (relative : result.maxRelativeError = .finite 0) :
    compare g9 actual expected n result = result := by
  induction n with
  | zero => rfl
  | succ n ih =>
      obtain ⟨left, right⟩ := same n (Nat.lt_succ_self n)
      rw [compare_succ, ih fun i hi => same i (Nat.lt_succ_of_lt hi)]
      exact compareElement_same left right absolute relative

end Same

section Report

variable {α I B M : Type} [Field α] [LinearOrder α]
variable {adapter : Adapter α I B M} {undefined : M → M} {platform : PlatformId}
variable {env : Environment α I} {request : BenchmarkRequest} {input : I} {value : ℕ → α}
variable {Ready : M → Prop} {start : List Call} {w : World α (State M)}

/-- What holds from the end of the verification to the report. -/
structure Steady (request : BenchmarkRequest) (Ready : M → Prop) (start : List Call)
    (w : World α (State M)) : Prop where
  shape : w.state.request = request
  ready : Ready w.state.memory
  verdict : w.result.verdict = faultless request
  started : start <+: w.calls
  unsummed : .checksum ∉ w.calls

/-- The output holds the values. -/
def Left (adapter : Adapter α I B M) (request : BenchmarkRequest) (value : ℕ → α)
    (w : World α (State M)) : Prop :=
  ∀ x < request.m * request.n, adapter.output w.state.memory x = some (value x)

omit [LinearOrder α] in
theorem Steady.call (h : Steady request Ready start w) (call : Call) (other : .checksum ≠ call) :
    Steady request Ready start (w.call call) := by
  refine ⟨h.shape, h.ready, h.verdict, h.started.trans (List.prefix_append _ _), ?_⟩
  rw [World.call, List.mem_append, List.mem_singleton, not_or]
  exact ⟨h.unsummed, other⟩

omit [LinearOrder α] in
theorem Steady.fail (h : Steady request Ready start w) (message : String) {β : Type} {P : β → Prop} :
    Leaves (w.fail message) P (Steady request Ready start) :=
  ⟨h.shape, h.ready, h.verdict, h.started, h.unsummed⟩

omit [Field α] [LinearOrder α] in
theorem Honours.run_state (honours : Honours adapter request input value Ready)
    (undefined : M → M) (state : State M) (shape : state.request = request) (ready : Ready state.memory) (iterations : ℕ) :
    ∃ after, adapter.runState undefined state iterations = ⟨request, after, state.turn + 1⟩ ∧
      Ready after ∧
      (1 ≤ iterations → ∀ x < request.m * request.n, adapter.output after x = some (value x)) := by
  obtain ⟨after, ran, ready, left⟩ := honours.ran state.turn iterations state.memory ready
  refine ⟨after, ?_, ready, left⟩
  rw [Adapter.runState, shape, ran]
  rfl

omit [LinearOrder α] in
theorem Honours.turns_ready (honours : Honours adapter request input value Ready) (undefined : M → M)
    {state : State M} (shape : state.request = request) (ready : Ready state.memory)
    (turns : List Turn) :
    (turns.foldl (adapter.turn undefined) state).request = request ∧
      Ready (turns.foldl (adapter.turn undefined) state).memory := by
  induction turns generalizing state with
  | nil => exact ⟨shape, ready⟩
  | cons turn turns ih =>
      rw [List.foldl_cons]
      cases turn with
      | reset => exact ih shape (honours.filled 0 _ ready)
      | run iterations =>
          obtain ⟨after, ran, kept, _⟩ := honours.run_state undefined state shape ready iterations
          have next : adapter.turn undefined state (.run iterations) =
            ⟨request, after, state.turn + 1⟩ := ran
          rw [next]
          exact ih rfl kept

omit [LinearOrder α] in
theorem Honours.delivers (honours : Honours adapter request input value Ready) (undefined : M → M) :
    Delivers adapter undefined request input value := by
  obtain ⟨blocks, selected, memory, packed, ready⟩ := honours.packed
  refine ⟨⟨request, memory, 0⟩, ?_, fun turns iterations once => ?_⟩
  · simp [Adapter.prepare, selected, packed]
  · have start : (⟨request, memory, 0⟩ : State M).request = request := rfl
    obtain ⟨shape, kept⟩ := honours.turns_ready undefined start ready turns
    obtain ⟨after, ran, _, left⟩ := honours.run_state undefined _ shape kept iterations
    simp only [ran, Adapter.exportCommon, ne_eq, not_true_eq_false, if_false, true_and]
    intro x hx
    rw [left once x (hx.trans_le (elements_le request))]
    rfl

section Steps

variable (undefined env)
variable (honours : Honours adapter request input value Ready) (steady : Steady request Ready start w)
include honours steady

omit [LinearOrder α]

theorem Steady.reset : Steady request Ready start (w.reset (adapter.callbacks undefined request)) :=
  Steady.call (w := { w with state := adapter.resetCommon w.state })
    ⟨steady.shape, honours.filled 0 _ steady.ready, steady.verdict, steady.started, steady.unsummed⟩
    .reset (by decide)

theorem Steady.run (iterations : ℕ) :
    Steady request Ready start (w.run (adapter.callbacks undefined request) iterations) ∧
      (1 ≤ iterations →
        Left adapter request value (w.run (adapter.callbacks undefined request) iterations)) := by
  obtain ⟨after, ran, ready, left⟩ :=
    honours.run_state undefined w.state steady.shape steady.ready iterations
  have world : w.run (adapter.callbacks undefined request) iterations =
      World.call { w with state := ⟨request, after, w.state.turn + 1⟩ } (.run iterations) :=
    congrArg (fun state => World.call { w with state := state } (.run iterations)) ran
  have next : Steady request Ready start { w with state := ⟨request, after, w.state.turn + 1⟩ } :=
    ⟨rfl, ready, steady.verdict, steady.started, steady.unsummed⟩
  rw [world]
  exact ⟨next.call (.run iterations) (by simp), left⟩

omit honours in
theorem perfOpen_steady (specs : List PerfEventSpec) :
    Leaves (w.perfOpen env.perf specs) (Steady request Ready start) (Steady request Ready start) := by
  have opened := steady.call (.perfOpen (specs.map (·.name))) (by simp)
  rw [World.perfOpen]
  split
  · exact opened.fail _
  · exact opened

theorem resetStart_steady :
    Leaves ((w.reset (adapter.callbacks undefined request)).perfStart env.perf)
      (Steady request Ready start) (Steady request Ready start) := by
  have started := (Steady.reset undefined honours steady).call .perfStart (by decide)
  rw [World.perfStart]
  split
  · exact started.fail _
  · exact started

theorem runStop_steady (iterations : ℕ) :
    Leaves ((w.run (adapter.callbacks undefined request) iterations).perfStopAndRead env.perf)
      (fun read => Steady request Ready start read.1 ∧
        (1 ≤ iterations → Left adapter request value read.1))
      (Steady request Ready start) := by
  obtain ⟨ran, left⟩ := Steady.run undefined honours steady iterations
  have stopped := ran.call .perfStopAndRead (by decide)
  rw [World.perfStopAndRead]
  split
  · exact stopped.fail _
  · exact ⟨stopped, left⟩

theorem calibrate_steady :
    Leaves (calibrate env (adapter.callbacks undefined request) request w)
      (fun calibrated => Steady request Ready start calibrated.1) (Steady request Ready start) := by
  rw [calibrate]
  refine Leaves.ite (fun _ => steady) fun _ => ?_
  refine (perfOpen_steady env steady [cyclesEvent]).bind fun w steady => ?_
  refine (resetStart_steady undefined env honours steady).bind fun w steady => ?_
  refine (runStop_steady undefined env honours steady 1).bind ?_
  rintro ⟨w, values⟩ ⟨steady, _⟩
  exact Leaves.ite (fun _ => steady.fail _) fun _ => steady

end Steps

theorem recordEvents_steady (steady : Steady request Ready start w) (iterations : ℕ)
    (values : ℕ → PerfEventValue) (samples : ℕ → EventSamples α) (events : List (ℕ × PerfEventSpec)) :
    Leaves (events.foldlM (recordEvent env iterations values w) samples) (fun _ => True)
      (Steady request Ready start) := by
  refine Leaves.foldlM (fun _ _ => True) trivial fun i hi samples _ => ?_
  rw [recordEvent]
  refine Leaves.ite (fun _ => steady.fail _) fun _ => ?_
  exact Leaves.ite (fun _ => steady.fail _) fun _ => trivial

theorem recordSample_steady (honours : Honours adapter request input value Ready)
    {acc : World α (State M) × (ℕ → EventSamples α)} (steady : Steady request Ready start acc.1)
    {iterations : ℕ} (once : 1 ≤ iterations) :
    Leaves (recordSample env (adapter.callbacks undefined request) request iterations acc)
      (fun acc => Steady request Ready start acc.1 ∧ Left adapter request value acc.1)
      (Steady request Ready start) := by
  rw [recordSample]
  refine (resetStart_steady undefined env honours steady).bind fun w steady => ?_
  refine (runStop_steady undefined env honours steady iterations).bind ?_
  rintro ⟨w, values⟩ ⟨steady, left⟩
  exact (recordEvents_steady steady iterations values _ _).bind fun samples _ => ⟨steady, left once⟩

theorem recordSamples_steady (honours : Honours adapter request input value Ready)
    {acc : World α (State M) × (ℕ → EventSamples α)} (steady : Steady request Ready start acc.1)
    {iterations n : ℕ} (once : 1 ≤ iterations) (some : n ≠ 0) :
    Leaves ((List.range n).foldlM
        (fun acc _ => recordSample env (adapter.callbacks undefined request) request iterations acc) acc)
      (fun acc => Steady request Ready start acc.1 ∧ Left adapter request value acc.1)
      (Steady request Ready start) := by
  have loop := Leaves.foldlM (l := List.range n) (Q := Steady request Ready start)
    (g := fun acc _ => recordSample env (adapter.callbacks undefined request) request iterations acc)
    (fun i (acc : World α (State M) × (ℕ → EventSamples α)) =>
      Steady request Ready start acc.1 ∧ (i ≠ 0 → Left adapter request value acc.1))
    (x := acc) ⟨steady, fun no => absurd rfl no⟩ fun i _ acc ⟨steady, _⟩ =>
      (recordSample_steady honours steady once).mono (fun _ ⟨steady, left⟩ => ⟨steady, fun _ => left⟩)
        fun _ returned => returned
  rw [List.length_range] at loop
  exact loop.mono (fun _ ⟨steady, left⟩ => ⟨steady, left some⟩) fun _ returned => returned

theorem reportMetric_verdict [FloorRing α] (samples : ℕ → EventSamples α)
    (events : List (ℕ × PerfEventSpec)) (acc : BenchmarkResult α × Bool) :
    (events.foldl (reportMetric samples) acc).1.verdict = acc.1.verdict := by
  induction events generalizing acc with
  | nil => rfl
  | cons event events ih =>
      rw [List.foldl_cons, ih, reportMetric]
      dsimp only
      split <;> rfl

/-- The conditions of a report, while the run goes on. -/
structure Summed (request : BenchmarkRequest) (value : ℕ → α) (start : List Call)
    (w : World α (State M)) : Prop where
  verdict : w.result.verdict = faultless request
  started : start <+: w.calls
  checksum : .checksum ∈ w.calls → w.result.checksum = checksumOf request value

omit [LinearOrder α] in
theorem Steady.summed (h : Steady request Ready start w) : Summed request value start w :=
  ⟨h.verdict, h.started, fun member => absurd member h.unsummed⟩

omit [LinearOrder α] in
theorem checksum_of_left (shape : w.state.request = request) (left : Left adapter request value w) :
    adapter.checksumCommon w.state = checksumOf request value := by
  rw [Adapter.checksumCommon, checksumOf, shape]
  refine List.foldl_ext _ _ _ fun sum i hi => ?_
  have inside : i * 257 < elements request := by
    have := List.mem_range.mp hi
    unfold chunkCount at this
    omega
  rw [left _ (inside.trans_le (elements_le request)), Option.getD_some]

theorem reportPeak_summed (h : Summed request value start w) :
    Leaves (reportPeak (adapter.callbacks undefined request) request w) (Summed request value start)
      (Summed request value start) := by
  have started : start <+: (w.call .peakPerformance).calls :=
    h.started.trans (List.prefix_append _ _)
  have sum : .checksum ∈ (w.call .peakPerformance).calls →
      w.result.checksum = checksumOf request value := by
    intro member
    rcases List.mem_append.mp member with before | no
    · exact h.checksum before
    · simp at no
  rw [reportPeak]
  exact Leaves.ite (fun _ => ⟨h.verdict, started, sum⟩) fun _ => ⟨h.verdict, started, sum⟩

variable [FloorRing α]

theorem timing_summed (honours : Honours adapter request input value Ready)
    (shape : w.state.request = request) (ready : Ready w.state.memory)
    (verdict : w.result.verdict = faultless request) (fresh : .checksum ∉ w.calls) :
    Leaves (timing env (adapter.callbacks undefined request) request w)
      (Summed request value (w.calls ++ [.reset, .run request.warmupIterations]))
      (Summed request value (w.calls ++ [.reset, .run request.warmupIterations])) := by
  let start := w.calls ++ [.reset, .run request.warmupIterations]
  have returns : ∀ last : World α (State M), Steady request Ready start last →
      Summed request value start last := fun _ steady => steady.summed
  have here : Steady request Ready w.calls w := ⟨shape, ready, verdict, List.prefix_refl _, fresh⟩
  obtain ⟨warm, _⟩ := Steady.run undefined honours
    (Steady.reset undefined honours here) request.warmupIterations
  have steady : Steady request Ready start ((w.reset (adapter.callbacks undefined request)).run
      (adapter.callbacks undefined request) request.warmupIterations) := by
    have made : ((w.reset (adapter.callbacks undefined request)).run
        (adapter.callbacks undefined request) request.warmupIterations).calls = start :=
      List.append_assoc _ _ _
    exact ⟨warm.shape, warm.ready, warm.verdict, made ▸ List.prefix_refl start, warm.unsummed⟩
  rw [timing]
  refine Leaves.ite (fun _ => (steady.fail _).mono (fun _ h => h) returns) fun sampled => ?_
  have calibrated := (calibrate_steady undefined env honours steady).and
    (calibrate_iterations env (adapter.registration undefined .unknown request) request)
  refine Leaves.bind (calibrated.mono (fun _ h => h) fun last h => returns last h.1) ?_
  rintro ⟨w, iterations⟩ ⟨steady, once, _⟩
  have counted : Steady request Ready start
      { w with result := { w.result with iterations := iterations } } :=
    ⟨steady.shape, steady.ready, steady.verdict, steady.started, steady.unsummed⟩
  refine Leaves.bind ((perfOpen_steady env counted request.perfEvents).mono (fun _ h => h) returns)
    fun w steady => ?_
  refine Leaves.bind ((recordSamples_steady honours steady once fun none => sampled (.inl none)).mono
    (fun _ h => h) returns) ?_
  rintro ⟨w, samples⟩ ⟨steady, left⟩
  have reported := (reportMetric_verdict samples
    ((List.range request.perfEvents.length).zip request.perfEvents) (w.result, false)).trans
    steady.verdict
  have summed : Summed request value start (World.call { w with result :=
      { (((List.range request.perfEvents.length).zip request.perfEvents).foldl (reportMetric samples)
        (w.result, false)).1 with checksum := adapter.checksumCommon w.state } } .checksum) :=
    ⟨reported, steady.started.trans (List.prefix_append _ _),
      fun _ => checksum_of_left steady.shape left⟩
  exact Leaves.ite (fun _ => reportPeak_summed summed) fun _ => summed

variable [IsStrictOrderedRing α]

variable (undefined platform env) in
omit [FloorRing α] in
theorem verification_same (honours : Honours adapter request input value Ready)
    (shape : w.state.request = request) (ready : Ready w.state.memory) (fresh : w.result = .empty)
    (reference : ∀ i < request.m * request.n,
      env.compute adapter.quantization input i = .finite (value i)) :
    ∃ state : State M, state.request = request ∧ Ready state.memory ∧
      verification env (adapter.registration undefined platform request) request input w =
        .ok ⟨state, startComparison (elements request) .empty, w.calls ++ verificationCalls⟩ := by
  obtain ⟨after, ran, kept, left⟩ := honours.run_state undefined
    (adapter.resetCommon w.state) shape (honours.filled 0 _ ready) 1
  have exported : adapter.exportCommon (elements request) ⟨request, after, w.state.turn + 1⟩ =
      (⟨true, ""⟩, fun i => (adapter.output after i).elim .nan .finite) := if_neg (not_not.mpr rfl)
  have same : compare env.g9 (fun i => (adapter.output after i).elim .nan .finite)
      (env.compute adapter.quantization input) (elements request)
      (startComparison (elements request) .empty) = startComparison (elements request) .empty := by
    refine compare_same value (fun i hi => ?_) rfl rfl
    have inside := hi.trans_le (elements_le request)
    exact ⟨congrArg (fun cell => Option.elim cell _ _) (left le_rfl i inside), reference i inside⟩
  have world : (w.reset (adapter.callbacks undefined request)).run
      (adapter.callbacks undefined request) 1 =
        ⟨⟨request, after, w.state.turn + 1⟩, .empty, w.calls ++ [.reset] ++ [.run 1]⟩ := by
    rw [← fresh]
    exact congrArg (fun state => World.call ⟨state, w.result, w.calls ++ [.reset]⟩ (.run 1)) ran
  refine ⟨⟨request, after, w.state.turn + 1⟩, rfl, kept, ?_⟩
  have callbacks : (adapter.registration undefined platform request).callbacks =
    adapter.callbacks undefined request := rfl
  have exports : (adapter.callbacks undefined request).exportOutput =
    adapter.exportCommon (elements request) := rfl
  have quantization : (adapter.registration undefined platform request).quantization =
    adapter.quantization := rfl
  rw [verification, callbacks, world, exports, exported, quantization]
  simp only [World.call, same, Bool.not_true, Bool.false_eq_true, if_false]
  have ratio : (if (startComparison (elements request) (.empty : BenchmarkResult α)).comparedElements ≠ 0
      then ((startComparison (elements request) (.empty : BenchmarkResult α)).errorElements : α) /
        (startComparison (elements request) (.empty : BenchmarkResult α)).comparedElements
      else 0) = 0 := by
    simp [startComparison, BenchmarkResult.empty]
  rw [ratio]
  simp only [List.append_assoc]
  rfl

/-- What `run_benchmark` says of an adapter that keeps its promise, whatever the counters do. -/
theorem reports (honours : Honours adapter request input value Ready) (known : env.target ≠ .unknown)
    (valid : (adapter.validate request).supported = true)
    (peak : ValidPeak (adapter.callbacks undefined request) request)
    (reference : ∀ i < request.m * request.n,
      env.compute adapter.quantization input i = .finite (value i)) :
    Reports request value
      (runBenchmark env (adapter.registration undefined env.target request) request input) := by
  obtain ⟨blocks, selected, memory, packed, ready⟩ := honours.packed
  have started : Started env (adapter.registration undefined env.target request) request input
      ⟨request, memory, 0⟩ := by
    refine ⟨?_, valid, ?_⟩
    · simp [kernelSupportsPlatform, Adapter.registration, known]
    · simp [Adapter.registration, Adapter.callbacks, Adapter.prepare, selected, packed]
  have course : Leaves (course env (adapter.registration undefined env.target request) request input
      ⟨request, memory, 0⟩)
      (Summed request value (verifiedCalls request ++ [.reset, .run request.warmupIterations]))
      (Summed request value (verifiedCalls request ++ [.reset, .run request.warmupIterations])) := by
    rw [Bench.course, verifiedCalls]
    by_cases verify : request.verify = true
    · obtain ⟨state, shape, kept, same⟩ := verification_same undefined env.target env
        (w := ⟨⟨request, memory, 0⟩, .empty, [.validate, .prepare]⟩) honours rfl ready rfl reference
      rw [if_pos verify, if_pos verify, same]
      have verdict : (startComparison (elements request) (.empty : BenchmarkResult α)).verdict =
          faultless request := by
        simp [BenchmarkResult.verdict, startComparison, BenchmarkResult.empty, faultless, verify]
      exact timing_summed (w := ⟨state, _, _⟩) honours shape kept verdict (by simp [verificationCalls])
    · rw [if_neg verify, if_neg verify]
      have verdict : (.empty : BenchmarkResult α).verdict = faultless request := by
        simp [BenchmarkResult.verdict, BenchmarkResult.empty, faultless, verify]
      exact timing_summed (w := ⟨⟨request, memory, 0⟩, _, _⟩) honours rfl ready verdict (by simp)
  have ends : Ended env (adapter.registration undefined env.target request) request
      (final id (Bench.course env (adapter.registration undefined env.target request) request input
        ⟨request, memory, 0⟩)).calls
      (final id (Bench.course env (adapter.registration undefined env.target request) request input
        ⟨request, memory, 0⟩)).result.message := course_ended
  obtain ⟨iterations, _, ended⟩ := ends
  rw [run_eq started]
  have last : Summed request value _ (final id (Bench.course env
      (adapter.registration undefined env.target request) request input ⟨request, memory, 0⟩)) :=
    course.final fun _ h => h
  refine ⟨last.verdict, last.started.trans (List.prefix_append _ _), fun member => last.checksum ?_,
    fun member => ?_⟩
  · simpa using member
  · rcases ended with ⟨_, _, _, message⟩ | ⟨_, part, _⟩
    · exact message.mpr fun _ => peak
    · rcases List.mem_append.mp member with early | no
      · exact absurd (part.subset early) (later_notMem request iterations (.inl rfl))
      · simp at no

omit [FloorRing α] in
theorem peakMac_valid {operationsPerCycle : α} {name : String}
    (peak : adapter.peakPerformance = peakMac operationsPerCycle name)
    (shape : 0 < request.m ∧ 0 < request.n ∧ 0 < request.k) (rate : 0 < operationsPerCycle)
    (named : name ≠ "") : ValidPeak (adapter.callbacks undefined request) request := by
  have callback : (adapter.callbacks undefined request).peakPerformance = peakMac operationsPerCycle name :=
    peak
  obtain ⟨hm, hn, hk⟩ := shape
  rw [ValidPeak, callback]
  refine ⟨mul_pos (mul_pos ?_ ?_) ?_, rate, named⟩
  · exact Nat.cast_pos.mpr hm
  · exact Nat.cast_pos.mpr hn
  · exact Nat.cast_pos.mpr hk

end Report

section Effects

variable {α I B κ : Type} {V : κ → Type} [DecidableEq κ] {adapter : Adapter α I B (Memory κ V)}
variable {request : BenchmarkRequest} {input : I} {blocks : B} {value : ℕ → α} {size : κ → ℕ}
variable {u : Contents κ V} {R : Region κ}

def Packed (size : κ → ℕ) (u : Contents κ V) (R : Region κ) (memory : Memory κ V) : Prop :=
  memory.size = size ∧ Holds u R memory

/-- The promise of an adapter on named arrays, from the effects of its two steps: what is packed does
not include the output, and a run spares it. -/
theorem Honours.of_effects (output : κ) {pack : Memory κ V → Option (Memory κ V)}
    {run : ℕ → ℕ → Memory κ V → Option (Memory κ V)} {N : Region κ} {S : ℕ → Region κ}
    (packs : Effect size u (fun _ _ => False) pack u R N)
    (runs : ∀ turn iterations, Effect size u R (run turn iterations) u
      (fun k x => 0 < iterations ∧ k = output ∧ x < request.m * request.n) (S turn))
    (apart : ∀ x, ¬R output x) (spared : ∀ turn k x, R k x → ¬S turn k x)
    (selected : adapter.getIf input = some blocks) (sizes : (adapter.fresh request).size = size)
    (same_pack : adapter.pack request blocks = pack)
    (same_run : ∀ turn, adapter.run turn request = run turn)
    (fill : ∀ x, ∃ cell, adapter.fill x = fun memory => memory.renew output cell)
    (read : ∀ memory : Memory κ V, ∀ x < request.m * request.n, memory.cell output x = u output x →
      adapter.output memory x = some (value x)) :
    Honours adapter request input value (Packed size u R) := by
  constructor
  · refine ⟨blocks, selected, ?_⟩
    rw [same_pack]
    refine (packs _ sizes fun _ _ no => no.elim).mono fun memory ⟨change, left⟩ => ?_
    exact ⟨change.size.trans sizes, left⟩
  · intro x memory ⟨sizes, holds⟩
    obtain ⟨cell, same⟩ := fill x
    have renew : Effect size u R (fun memory => some (memory.renew output cell)) u R _ :=
      Effect.renew apart
    obtain ⟨after, filled, change, left⟩ := renew memory sizes holds
    cases filled
    rw [same]
    exact ⟨change.size.trans sizes, left⟩
  · intro turn iterations memory ⟨sizes, holds⟩
    rw [same_run]
    refine (runs turn iterations memory sizes holds).mono fun after ⟨change, left⟩ => ⟨?_, ?_⟩
    · refine ⟨change.size.trans sizes, fun k x known => ?_⟩
      rw [change.frame k x (spared turn k x known), holds k x known]
    · intro once x hx
      exact read after x hx (left output x ⟨once, rfl, hx⟩)

end Effects

end Pfng.Bench
