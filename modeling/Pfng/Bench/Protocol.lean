import Pfng.Bench.Verdict
import Pfng.Lib.Exits

/-! The order of the calls of `run_benchmark`. A run that goes through makes all calls of its plan; a
run that returns early stops within the plan and says why. -/
namespace Pfng.Bench
open Exits

variable {α S I : Type} [Field α] [LinearOrder α]

section Plan

/-- The calls under `request.verify`. -/
def verificationCalls : List Call := [.reset, .run 1, .exportOutput, .compute]

def calibrationCalls : List Call := [.perfOpen ["cycles"], .reset, .perfStart, .run 1, .perfStopAndRead]

def sampleCalls (iterations : ℕ) : List Call := [.reset, .perfStart, .run iterations, .perfStopAndRead]

def warmupCalls (request : BenchmarkRequest) : List Call :=
  [.reset, .run request.warmupIterations] ++ if request.iterations = 0 then calibrationCalls else []

def samplingCalls (request : BenchmarkRequest) (iterations : ℕ) : List Call :=
  [.perfOpen (request.perfEvents.map (·.name))] ++
    (List.replicate request.samples (sampleCalls iterations)).flatten

def reportCalls (peak : Bool) : List Call := .checksum :: if peak then [.peakPerformance] else []

def verifiedCalls (request : BenchmarkRequest) : List Call :=
  [.validate, .prepare] ++ if request.verify then verificationCalls else []

def measuringCalls (request : BenchmarkRequest) (iterations : ℕ) : List Call :=
  verifiedCalls request ++ (warmupCalls request ++ samplingCalls request iterations)

end Plan

/-- The texts of what `run_benchmark` calls say something. -/
structure Texts (env : Environment α I) (kernel : KernelRegistration α S I) : Prop where
  opening : ∀ calls specs, env.perf.openGroup calls specs ≠ some ""
  starting : ∀ calls, env.perf.start calls ≠ some ""
  stopping : ∀ calls, env.perf.stopAndRead calls ≠ .error ""
  exporting : ∀ state, (kernel.callbacks.exportOutput state).1.success = false →
    (kernel.callbacks.exportOutput state).1.error ≠ ""

/-- A model of peak performance that `run_benchmark` reports. -/
def ValidPeak (k : KernelCallbacks α S I) (request : BenchmarkRequest) : Prop :=
  0 < (k.peakPerformance request).operationCount ∧ 0 < (k.peakPerformance request).operationsPerCycle ∧
    (k.peakPerformance request).operationName ≠ ""

def Iterations (request : BenchmarkRequest) (iterations : ℕ) : Prop :=
  1 ≤ iterations ∧ (request.iterations ≠ 0 → iterations = request.iterations)

section Makes

variable {β γ : Type} {texts : Prop} {world : β → World α S} {world' : γ → World α S}
variable {before seg seg' : List Call}

/-- From a world that made the calls `before`, the step makes the calls `seg` as well; or it has
returned after a part of them, with a message. -/
def Makes (texts : Prop) (world : β → World α S) (before seg : List Call) (c : Step α S β) : Prop :=
  Leaves c (fun x => (world x).calls = before ++ seg ∧ (world x).result.message = "") fun w =>
    ∃ part, part <+: seg ∧ w.calls = before ++ part ∧ (texts → w.result.message ≠ "")

omit [Field α] [LinearOrder α]

theorem Makes.bind {c : Step α S β} {f : β → Step α S γ} (hc : Makes texts world before seg c)
    (hf : ∀ x, (world x).calls = before ++ seg → (world x).result.message = "" →
      Makes texts world' (before ++ seg) seg' (f x)) :
    Makes texts world' before (seg ++ seg') (c >>= f) := by
  refine Leaves.bind (hc.mono (fun _ h => h) fun w ⟨part, inside, returned⟩ =>
    ⟨part, inside.trans (List.prefix_append _ _), returned⟩) fun x known => ?_
  refine (hf x known.1 known.2).mono (fun y ⟨calls, silent⟩ => ?_) fun w ⟨part, inside, calls, text⟩ => ?_
  · exact ⟨calls.trans (List.append_assoc _ _ _), silent⟩
  · exact ⟨seg ++ part, (List.prefix_append_right_inj seg).mpr inside,
      calls.trans (List.append_assoc _ _ _), text⟩

theorem Makes.ok {x : β} (calls : (world x).calls = before ++ seg)
    (message : (world x).result.message = "") : Makes texts world before seg (.ok x) :=
  ⟨calls, message⟩

theorem Makes.fail {w : World α S} {message : String} {part : List Call} (inside : part <+: seg)
    (calls : w.calls = before ++ part) (filled : texts → message ≠ "") :
    Makes texts world before seg (w.fail message) :=
  ⟨part, inside, calls, filled⟩

end Makes

theorem snprintf_ne_empty {size : ℕ} {text : String} (room : 1 < size) (some : text ≠ "") :
    snprintf size text ≠ "" := by
  intro empty
  have taken : text.toList.take (size - 1) = [] := by
    have := congrArg String.toList empty
    rwa [snprintf, String.toList_ofList] at this
  rcases List.take_eq_nil_iff.mp taken with none | none
  · omega
  · exact some (String.toList_eq_nil_iff.mp none)

section Steps

variable (env : Environment α I) (kernel : KernelRegistration α S I) (request : BenchmarkRequest)
variable {w : World α S} {before : List Call}

omit [Field α] [LinearOrder α] in
theorem perfOpen_makes (calls : w.calls = before) (silent : w.result.message = "")
    (specs : List PerfEventSpec) :
    Makes (Texts env kernel) id before [.perfOpen (specs.map (·.name))] (w.perfOpen env.perf specs) := by
  have made : w.calls ++ [.perfOpen (specs.map (·.name))] = before ++ _ := congrArg (· ++ _) calls
  rw [World.perfOpen]
  cases opened : env.perf.openGroup w.calls specs with
  | none => exact .ok made silent
  | some error =>
      refine .fail (List.prefix_refl _) made fun texts empty => ?_
      exact texts.opening _ _ (opened.trans (congrArg some empty))

omit [Field α] [LinearOrder α] in
theorem resetStart_makes (calls : w.calls = before) (silent : w.result.message = "") :
    Makes (Texts env kernel) id before [.reset, .perfStart]
      ((w.reset kernel.callbacks).perfStart env.perf) := by
  have made : w.calls ++ [.reset] ++ [.perfStart] = before ++ [.reset, .perfStart] := by
    rw [calls, List.append_assoc]
    rfl
  rw [World.perfStart]
  cases started : env.perf.start (w.reset kernel.callbacks).calls with
  | none => exact .ok made silent
  | some error =>
      refine .fail (List.prefix_refl _) made fun texts empty => ?_
      exact texts.starting _ (started.trans (congrArg some empty))

omit [Field α] [LinearOrder α] in
theorem runStop_makes (calls : w.calls = before) (silent : w.result.message = "") (iterations : ℕ) :
    Makes (Texts env kernel) Prod.fst before [.run iterations, .perfStopAndRead]
      ((w.run kernel.callbacks iterations).perfStopAndRead env.perf) := by
  have made : w.calls ++ [.run iterations] ++ [.perfStopAndRead] =
      before ++ [.run iterations, .perfStopAndRead] := by
    rw [calls, List.append_assoc]
    rfl
  rw [World.perfStopAndRead]
  cases stopped : env.perf.stopAndRead (w.run kernel.callbacks iterations).calls with
  | ok values => exact .ok made silent
  | error error =>
      refine .fail (List.prefix_refl _) made fun texts empty => ?_
      exact texts.stopping _ (stopped.trans (congrArg Except.error empty))

omit [Field α] [LinearOrder α] in
theorem calibrate_makes (calls : w.calls = before) (silent : w.result.message = "") :
    Makes (Texts env kernel) Prod.fst before (if request.iterations = 0 then calibrationCalls else [])
      (calibrate env kernel.callbacks request w) := by
  rw [calibrate]
  by_cases zero : request.iterations = 0
  · rw [if_neg (not_not.mpr zero), if_pos zero]
    refine (perfOpen_makes env kernel calls silent [cyclesEvent]).bind fun w calls silent => ?_
    refine (resetStart_makes env kernel calls silent).bind fun w calls silent => ?_
    refine (runStop_makes env kernel calls silent 1).bind fun ⟨w, values⟩ calls silent => ?_
    have here := calls.trans (List.append_nil _).symm
    exact Leaves.ite (fun _ => Makes.fail (List.prefix_refl []) here fun _ => by decide)
      fun _ => Makes.ok here silent
  · rw [if_pos zero, if_neg zero]
    exact .ok (calls.trans (List.append_nil _).symm) silent

omit [Field α] [LinearOrder α] in
theorem calibrate_iterations : Leaves (calibrate env kernel.callbacks request w)
    (fun calibrated => Iterations request calibrated.2) fun _ => True := by
  have any : ∀ {β : Type} (c : Step α S β), Leaves c (fun _ => True) fun _ => True := by
    intro β c
    cases c <;> exact trivial
  rw [calibrate]
  by_cases zero : request.iterations = 0
  · rw [if_neg (not_not.mpr zero)]
    refine (any _).bind fun w _ => (any _).bind fun w _ => (any _).bind fun (w, values) _ => ?_
    exact Leaves.ite (fun _ => trivial) fun _ => ⟨Nat.le_max_left _ _, fun no => absurd zero no⟩
  · rw [if_pos zero]
    exact ⟨Nat.pos_of_ne_zero zero, fun _ => rfl⟩

theorem recordEvents_makes (calls : w.calls = before) (silent : w.result.message = "")
    (iterations : ℕ) (values : ℕ → PerfEventValue) (samples : ℕ → EventSamples α)
    (events : List (ℕ × PerfEventSpec)) :
    Makes (Texts env kernel) (fun _ => w) before []
      (events.foldlM (recordEvent env iterations values w) samples) := by
  have here : w.calls = before ++ [] := calls.trans (List.append_nil _).symm
  refine Leaves.foldlM (fun _ _ => w.calls = before ++ [] ∧ w.result.message = "") ⟨here, silent⟩
    fun i hi samples known => ?_
  have named : ∀ a b : String, ("perf event " ++ a ++ b : String) ≠ "" := by
    intro a b empty
    have := congrArg String.toList empty
    simp at this
  rw [recordEvent]
  refine Leaves.ite (fun _ => Makes.fail (List.prefix_refl []) here fun _ => named _ _) fun _ => ?_
  refine Leaves.ite (fun _ => Makes.fail (List.prefix_refl []) here fun _ => ?_) fun _ => known
  refine snprintf_ne_empty (by decide) ?_
  rw [String.append_assoc, String.append_assoc]
  exact named _ _

theorem recordSample_makes {acc : World α S × (ℕ → EventSamples α)} (calls : acc.1.calls = before)
    (silent : acc.1.result.message = "") (iterations : ℕ) :
    Makes (Texts env kernel) Prod.fst before (sampleCalls iterations)
      (recordSample env kernel.callbacks request iterations acc) := by
  rw [recordSample]
  refine (resetStart_makes env kernel calls silent).bind fun w calls silent => ?_
  refine (runStop_makes env kernel calls silent iterations).bind fun ⟨w, values⟩ calls silent => ?_
  refine (recordEvents_makes env kernel calls silent iterations values _ _).bind
    fun samples calls silent => ?_
  exact Makes.ok (calls.trans (List.append_nil _).symm) silent

theorem recordSamples_makes {acc : World α S × (ℕ → EventSamples α)} (calls : acc.1.calls = before)
    (silent : acc.1.result.message = "") (iterations n : ℕ) :
    Makes (Texts env kernel) Prod.fst before (List.replicate n (sampleCalls iterations)).flatten
      ((List.range n).foldlM (fun acc _ => recordSample env kernel.callbacks request iterations acc)
        acc) := by
  let made := fun i => (List.replicate i (sampleCalls iterations)).flatten
  have next : ∀ i, made (i + 1) = made i ++ sampleCalls iterations := by
    intro i
    simp only [made, List.replicate_succ', List.flatten_append, List.flatten_singleton]
  have grows : ∀ i j, i ≤ j → made i <+: made j := by
    intro i j le
    induction j, le using Nat.le_induction with
    | base => exact List.prefix_refl _
    | succ j _ ih => exact ih.trans (next j ▸ List.prefix_append _ _)
  have loop : Leaves ((List.range n).foldlM
      (fun acc _ => recordSample env kernel.callbacks request iterations acc) acc)
      (fun acc : World α S × (ℕ → EventSamples α) =>
        acc.1.calls = before ++ made (List.range n).length ∧ acc.1.result.message = "")
      fun w => ∃ part, part <+: made n ∧ w.calls = before ++ part ∧
        (Texts env kernel → w.result.message ≠ "") := by
    refine Leaves.foldlM (fun i (acc : World α S × (ℕ → EventSamples α)) =>
      acc.1.calls = before ++ made i ∧ acc.1.result.message = "")
      ⟨calls.trans (List.append_nil _).symm, silent⟩ fun i hi acc ⟨calls, silent⟩ => ?_
    rw [List.length_range] at hi
    refine (recordSample_makes env kernel request calls silent iterations).mono
      (fun acc ⟨calls, silent⟩ => ?_) fun w ⟨part, inside, calls, text⟩ => ?_
    · exact ⟨by rw [calls, next, List.append_assoc], silent⟩
    · refine ⟨made i ++ part, ?_, calls.trans (List.append_assoc _ _ _), text⟩
      exact (next i ▸ (List.prefix_append_right_inj _).mpr inside).trans (grows _ _ hi)
  rwa [List.length_range] at loop

theorem reportMetric_message [FloorRing α] (samples : ℕ → EventSamples α)
    (events : List (ℕ × PerfEventSpec)) (acc : BenchmarkResult α × Bool) :
    (events.foldl (reportMetric samples) acc).1.message = acc.1.message := by
  induction events generalizing acc with
  | nil => rfl
  | cons event events ih =>
      rw [List.foldl_cons, ih, reportMetric]
      dsimp only
      split <;> rfl

theorem reportPeak_leaves (calls : w.calls = before) (silent : w.result.message = "") :
    Leaves (reportPeak kernel.callbacks request w)
      (fun last => ValidPeak kernel.callbacks request ∧ last.result.message = "" ∧
        last.calls = before ++ [.peakPerformance])
      fun last => ¬ValidPeak kernel.callbacks request ∧ last.result.message ≠ "" ∧
        last.calls = before ++ [.peakPerformance] := by
  have made : w.calls ++ [.peakPerformance] = before ++ [.peakPerformance] := congrArg (· ++ _) calls
  rw [reportPeak]
  refine Leaves.ite (fun invalid => ?_) fun valid => ?_
  · refine ⟨fun valid => ?_, (by decide : "kernel returned an invalid peak-performance model" ≠ ""), made⟩
    rcases invalid with low | low | unnamed
    · exact valid.1.not_ge low
    · exact valid.2.1.not_ge low
    · exact valid.2.2 unnamed
  · simp only [not_or, not_le] at valid
    exact ⟨valid, silent, made⟩

end Steps

section Timing

variable {env : Environment α I} {kernel : KernelRegistration α S I} {request : BenchmarkRequest}
variable [FloorRing α]

/-- After the verification a run makes the rest of its calls, or returns on the way with a message. -/
theorem timing_leaves {w : World α S} {before : List Call} (calls : w.calls = before)
    (silent : w.result.message = "") :
    Leaves (timing env kernel.callbacks request w)
      (fun last => ∃ iterations, Iterations request iterations ∧ ∃ peak : Bool, request.samples ≠ 0 ∧
        (peak = true → ValidPeak kernel.callbacks request) ∧ last.result.message = "" ∧
        last.calls = before ++ (warmupCalls request ++ samplingCalls request iterations) ++
          reportCalls peak)
      fun last => ∃ iterations, Iterations request iterations ∧
        ((∃ part, part <+: warmupCalls request ++ samplingCalls request iterations ∧
            last.calls = before ++ part ∧ (Texts env kernel → last.result.message ≠ "")) ∨
          last.calls = before ++ (warmupCalls request ++ samplingCalls request iterations) ++
            reportCalls true ∧ request.samples ≠ 0 ∧ ¬ValidPeak kernel.callbacks request ∧
            last.result.message ≠ "") := by
  let warm : List Call := [.reset, .run request.warmupIterations]
  let calibration := if request.iterations = 0 then calibrationCalls else []
  let opening : List Call := [.perfOpen (request.perfEvents.map (·.name))]
  let samples := fun iterations => (List.replicate request.samples (sampleCalls iterations)).flatten
  have whole : ∀ iterations, warmupCalls request ++ samplingCalls request iterations =
      warm ++ (calibration ++ (opening ++ samples iterations)) := fun _ => List.append_assoc _ _ _
  have ran : ((w.reset kernel.callbacks).run kernel.callbacks request.warmupIterations).calls =
      before ++ warm := by
    subst calls
    exact List.append_assoc _ _ _
  have some_iterations : Iterations request (max 1 request.iterations) :=
    ⟨Nat.le_max_left _ _, fun some => by omega⟩
  rw [timing]
  refine Leaves.ite (fun _ => ?_) fun sampled => ?_
  · refine ⟨_, some_iterations, .inl ⟨warm, whole _ ▸ List.prefix_append _ _, ran,
      fun _ => (by decide : "samples and perf event list must be non-empty" ≠ "")⟩⟩
  have calibrate := (calibrate_makes env kernel request ran silent).and
    (calibrate_iterations env kernel request)
  refine Leaves.bind (calibrate.mono (fun _ h => h) fun last ⟨⟨part, inside, calls, text⟩, _⟩ => ?_) ?_
  · refine ⟨_, some_iterations, .inl ⟨warm ++ part, ?_, calls.trans (List.append_assoc _ _ _), text⟩⟩
    rw [whole, List.prefix_append_right_inj]
    exact inside.trans (List.prefix_append _ _)
  rintro ⟨w, iterations⟩ ⟨⟨calls, silent⟩, chosen⟩
  have opens : Makes (Texts env kernel) id (before ++ warm ++ calibration) opening
      (World.perfOpen { w with result := { w.result with iterations := iterations } } env.perf
        request.perfEvents) :=
    perfOpen_makes env kernel (w := { w with result := { w.result with iterations := iterations } })
      calls silent request.perfEvents
  have returns : ∀ {last : World α S} {part}, part <+: opening ++ samples iterations →
      last.calls = before ++ warm ++ calibration ++ part →
      ∃ part, part <+: warmupCalls request ++ samplingCalls request iterations ∧
        last.calls = before ++ part := by
    intro last part inside calls
    refine ⟨warm ++ (calibration ++ part), ?_, calls.trans (by simp only [List.append_assoc])⟩
    rw [whole, List.prefix_append_right_inj, List.prefix_append_right_inj]
    exact inside
  refine Leaves.bind (opens.mono (fun _ h => h) fun last ⟨part, inside, calls, text⟩ => ?_)
    fun w ⟨calls, silent⟩ => ?_
  · obtain ⟨part, inside, calls⟩ := returns (inside.trans (List.prefix_append _ _)) calls
    exact ⟨iterations, chosen, .inl ⟨part, inside, calls, text⟩⟩
  have records : Makes (Texts env kernel) Prod.fst (before ++ warm ++ calibration ++ opening)
      (samples iterations) ((List.range request.samples).foldlM
        (fun acc _ => recordSample env kernel.callbacks request iterations acc)
        (w, fun _ => ⟨[], 100⟩)) :=
    recordSamples_makes env kernel request calls silent iterations request.samples
  refine Leaves.bind (records.mono (fun _ h => h) fun last ⟨part, inside, calls, text⟩ => ?_)
    fun ⟨w, reports⟩ ⟨calls, silent⟩ => ?_
  · obtain ⟨part, inside, calls⟩ := returns ((List.prefix_append_right_inj opening).mpr inside)
      (calls.trans (List.append_assoc _ _ _))
    exact ⟨iterations, chosen, .inl ⟨part, inside, calls, text⟩⟩
  have reported := (reportMetric_message reports
    ((List.range request.perfEvents.length).zip request.perfEvents) (w.result, false)).trans silent
  have measured : w.calls = before ++ (warmupCalls request ++ samplingCalls request iterations) :=
    calls.trans (by simp only [whole, List.append_assoc])
  have summed : w.calls ++ [.checksum] = before ++
      (warmupCalls request ++ samplingCalls request iterations) ++ [.checksum] :=
    congrArg (· ++ [.checksum]) measured
  have both : before ++ (warmupCalls request ++ samplingCalls request iterations) ++ [.checksum] ++
      [.peakPerformance] = before ++ (warmupCalls request ++ samplingCalls request iterations) ++
        reportCalls true := List.append_assoc _ _ _
  have some_samples : request.samples ≠ 0 := fun none => sampled (.inl none)
  refine Leaves.ite (fun _ => ?_) fun _ => ?_
  · refine (reportPeak_leaves kernel request summed reported).mono (fun last ⟨valid, message, calls⟩ => ?_)
      fun last ⟨invalid, message, calls⟩ => ?_
    · exact ⟨iterations, chosen, true, some_samples, fun _ => valid, message, calls.trans both⟩
    · exact ⟨iterations, chosen, .inr ⟨calls.trans both, some_samples, invalid, message⟩⟩
  · exact ⟨iterations, chosen, false, some_samples, fun no => Bool.noConfusion no, reported, summed⟩

end Timing

section Run

variable {env : Environment α I} {kernel : KernelRegistration α S I} {request : BenchmarkRequest}
variable {input : I} {state : S} {w : World α S}

theorem verification_makes {before : List Call} (calls : w.calls = before)
    (fresh : w.result = .empty) : Makes (Texts env kernel) id before verificationCalls
      (verification env kernel request input w) := by
  have ran : ((w.reset kernel.callbacks).run kernel.callbacks 1).calls = before ++ [.reset, .run 1] := by
    subst calls
    exact List.append_assoc _ _ _
  have exported : (((w.reset kernel.callbacks).run kernel.callbacks 1).call .exportOutput).calls =
      before ++ [.reset, .run 1, .exportOutput] := by
    rw [World.call, ran, List.append_assoc]
    rfl
  have computed : ((((w.reset kernel.callbacks).run kernel.callbacks 1).call .exportOutput).call
      .compute).calls = before ++ verificationCalls := by
    rw [World.call, exported, List.append_assoc]
    rfl
  have counts : Counted env.g9 (actual kernel w.state) (env.compute kernel.quantization input)
      (elements request) _ := counted (elements request)
  rw [← fresh] at counts
  rw [verification]
  refine Leaves.ite (fun failed => ?_) fun _ => Leaves.ite (fun bad => ?_) fun good => ?_
  · refine Makes.fail ⟨[.compute], rfl⟩ exported fun texts => ?_
    exact texts.exporting _ (by simpa using failed)
  · refine ⟨verificationCalls, List.prefix_refl _, computed, fun _ => ?_⟩
    dsimp only
    split
    · decide
    · assumption
  · have passed := by simpa using good
    exact Makes.ok computed (counts.clean passed).1

/-- The run gets a state to work on. -/
structure Started (env : Environment α I) (kernel : KernelRegistration α S I)
    (request : BenchmarkRequest) (input : I) (state : S) : Prop where
  platform : kernelSupportsPlatform kernel env.target = true
  valid : (kernel.callbacks.validate request).supported = true
  prepared : (kernel.callbacks.prepare request input).state = some state

variable [FloorRing α]

/-- What a run does with its state. -/
def course (env : Environment α I) (kernel : KernelRegistration α S I) (request : BenchmarkRequest)
    (input : I) (state : S) : Step α S (World α S) :=
  (if request.verify then verification env kernel request input ⟨state, .empty, [.validate, .prepare]⟩
    else .ok ⟨state, .empty, [.validate, .prepare]⟩) >>= timing env kernel.callbacks request

theorem run_eq (started : Started env kernel request input state) :
    runBenchmark env kernel request input =
      ((final id (course env kernel request input state)).result,
        (final id (course env kernel request input state)).calls ++ [.destroy]) := by
  rcases ended : course env kernel request input state with w | w
  all_goals
    rw [course] at ended
    change Except.bind _ _ = _ at ended
    simp only [runBenchmark, started.platform, started.valid, started.prepared, Bool.not_true,
      Bool.false_eq_true, if_false, ended]
    rfl

/-- How a run ends: it makes all its calls, and then it has no message but that of an invalid model of
peak performance; or it returns before the report and says why. -/
def Ended (env : Environment α I) (kernel : KernelRegistration α S I) (request : BenchmarkRequest)
    (made : List Call) (message : String) : Prop :=
  ∃ iterations, Iterations request iterations ∧
    ((∃ peak : Bool, request.samples ≠ 0 ∧
        made = measuringCalls request iterations ++ reportCalls peak ∧ (message = "" ↔
          (peak = true → ValidPeak kernel.callbacks request))) ∨
      [.validate, .prepare] <+: made ∧ made <+: measuringCalls request iterations ∧
        (Texts env kernel → message ≠ ""))

theorem course_ended : Ended env kernel request (final id (course env kernel request input state)).calls
    (final id (course env kernel request input state)).result.message := by
  have verified : Makes (Texts env kernel) id [.validate, .prepare]
      (if request.verify then verificationCalls else [])
      (if request.verify then
        verification env kernel request input ⟨state, .empty, [.validate, .prepare]⟩
      else .ok ⟨state, .empty, [.validate, .prepare]⟩) := by
    by_cases verify : request.verify = true
    · rw [if_pos verify, if_pos verify]
      exact verification_makes rfl rfl
    · rw [if_neg verify, if_neg verify]
      exact ⟨rfl, rfl⟩
  have ended : Leaves (course env kernel request input state)
      (fun last => Ended env kernel request last.calls last.result.message)
      fun last => Ended env kernel request last.calls last.result.message := by
    refine Leaves.bind (verified.mono (fun _ h => h) fun w ⟨part, inside, calls, text⟩ => ?_)
      fun w ⟨calls, silent⟩ => ?_
    · refine ⟨max 1 request.iterations, ⟨Nat.le_max_left _ _, fun some => by omega⟩,
        .inr ⟨calls ▸ List.prefix_append _ _, ?_, text⟩⟩
      rw [calls, measuringCalls, verifiedCalls, List.append_assoc, List.prefix_append_right_inj]
      exact inside.trans (List.prefix_append _ _)
    · refine (timing_leaves calls silent).mono ?_ ?_
      · rintro last ⟨iterations, chosen, peak, some, valid, message, calls⟩
        exact ⟨iterations, chosen, .inl ⟨peak, some, calls, fun _ => valid, fun _ => message⟩⟩
      · rintro last ⟨iterations, chosen, ⟨part, inside, calls, text⟩ | ⟨calls, some, invalid, message⟩⟩
        · refine ⟨iterations, chosen, .inr ⟨?_, ?_, text⟩⟩
          · rw [calls, List.append_assoc]
            exact List.prefix_append _ _
          · rw [calls]
            exact (List.prefix_append_right_inj _).mpr inside
        · exact ⟨iterations, chosen, .inl ⟨true, some, calls, fun empty => absurd empty message,
            fun valid => absurd (valid rfl) invalid⟩⟩
  exact ended.final fun _ h => h

theorem run_ended (started : Started env kernel request input state) : ∃ made,
    (runBenchmark env kernel request input).2 = made ++ [.destroy] ∧
      Ended env kernel request made (runBenchmark env kernel request input).1.message := by
  rw [run_eq started]
  exact ⟨_, rfl, course_ended⟩

theorem run_not_started (no : ∀ state, ¬Started env kernel request input state) :
    (runBenchmark env kernel request input).2 <+: [.validate, .prepare] := by
  rw [runBenchmark]
  dsimp only
  split
  · exact List.nil_prefix
  split
  · exact ⟨[.prepare], rfl⟩
  split
  · exact List.prefix_refl _
  · rename_i platform valid _ state prepared
    exact absurd ⟨by simpa using platform, by simpa using valid, prepared⟩ (no state)

end Run

section Order

/-- What has to precede a call. -/
def Ready (request : BenchmarkRequest) (before : List Call) : Call → Prop
  | .validate => before = []
  | .prepare => before = [.validate]
  | .reset => .prepare ∈ before
  | .run _ => [.reset] <:+ before ∨ [.reset, .perfStart] <:+ before
  | .exportOutput => [.reset, .run 1] <:+ before
  | .compute => [.exportOutput] <:+ before
  | .perfOpen _ => (request.verify = true → .compute ∈ before) ∧
      ([.reset, .run request.warmupIterations] <:+ before ∨ [.perfStopAndRead] <:+ before)
  | .perfStart => [.reset] <:+ before ∧ ∃ specs, .perfOpen specs ∈ before
  | .perfStopAndRead => ∃ iterations, [.perfStart, .run iterations] <:+ before
  | .checksum => ∃ iterations, sampleCalls iterations <:+ before
  | .peakPerformance => [.checksum] <:+ before
  | .destroy => .prepare ∈ before

/-- Every call of `calls` is ready when it comes. -/
def Orderly (request : BenchmarkRequest) : List Call → List Call → Prop
  | _, [] => True
  | before, call :: calls => Ready request before call ∧ Orderly request (before ++ [call]) calls

variable {request : BenchmarkRequest}

theorem orderly_append (before calls later : List Call) : Orderly request before (calls ++ later) ↔
    Orderly request before calls ∧ Orderly request (before ++ calls) later := by
  induction calls generalizing before with
  | nil => rw [List.nil_append, List.append_nil, Orderly, true_and]
  | cons call calls ih =>
      rw [List.cons_append, Orderly, Orderly, ih, and_assoc, List.append_assoc]
      rfl

theorem Orderly.part {before calls made : List Call} (whole : Orderly request before calls)
    (part : made <+: calls) : Orderly request before made := by
  obtain ⟨rest, rfl⟩ := part
  exact ((orderly_append _ _ _).mp whole).1

theorem suffix_of (before : List Call) {seg calls : List Call} (h : calls = before ++ seg) : seg <:+ calls :=
  ⟨before, h.symm⟩

theorem verifiedCalls_orderly : Orderly request [] (verifiedCalls request) := by
  rw [verifiedCalls]
  split
  · simp only [verificationCalls, List.cons_append, List.nil_append, Orderly, Ready, and_true, true_and]
    exact ⟨by decide, .inl ⟨[.validate, .prepare], rfl⟩, ⟨[.validate, .prepare], rfl⟩,
      ⟨[.validate, .prepare, .reset, .run 1], rfl⟩⟩
  · simp only [List.append_nil, Orderly, Ready, List.nil_append, and_self]

theorem sampleCalls_orderly {before : List Call} (prepared : .prepare ∈ before)
    (opened : ∃ specs, .perfOpen specs ∈ before) (iterations : ℕ) :
    Orderly request before (sampleCalls iterations) := by
  obtain ⟨specs, member⟩ := opened
  refine ⟨prepared, ⟨List.suffix_append _ _, specs, List.mem_append_left _ member⟩,
    .inr (suffix_of _ (List.append_assoc _ _ _)), ⟨iterations, suffix_of _ (List.append_assoc _ _ _)⟩, trivial⟩

theorem samples_orderly {before : List Call} (prepared : .prepare ∈ before)
    (opened : ∃ specs, .perfOpen specs ∈ before) (iterations n : ℕ) :
    Orderly request before (List.replicate n (sampleCalls iterations)).flatten := by
  induction n generalizing before with
  | zero => exact trivial
  | succ n ih =>
      rw [List.replicate_succ, List.flatten_cons, orderly_append]
      obtain ⟨specs, member⟩ := opened
      exact ⟨sampleCalls_orderly prepared ⟨specs, member⟩ iterations,
        ih (List.mem_append_left _ prepared) ⟨specs, List.mem_append_left _ member⟩⟩

theorem warmupCalls_orderly {before : List Call} (prepared : .prepare ∈ before)
    (verified : request.verify = true → .compute ∈ before) :
    Orderly request before (warmupCalls request) ∧
      ([.reset, .run request.warmupIterations] <:+ before ++ warmupCalls request ∨
        [.perfStopAndRead] <:+ before ++ warmupCalls request) := by
  have warm : Orderly request before [.reset, .run request.warmupIterations] :=
    ⟨prepared, .inl (List.suffix_append _ _), trivial⟩
  rw [warmupCalls]
  split
  · have calibration : Orderly request
        (before ++ [.reset, .run request.warmupIterations] ++ [.perfOpen ["cycles"]]) (sampleCalls 1) :=
      sampleCalls_orderly (List.mem_append_left _ (List.mem_append_left _ prepared))
        ⟨_, List.mem_append_right _ (List.mem_singleton.mpr rfl)⟩ 1
    refine ⟨(orderly_append _ _ _).mpr ⟨warm, ⟨fun verify => List.mem_append_left _ (verified verify),
      .inl (List.suffix_append _ _)⟩, calibration⟩, .inr ?_⟩
    exact suffix_of (before ++ [.reset, .run request.warmupIterations, .perfOpen ["cycles"], .reset,
      .perfStart, .run 1]) (by simp [calibrationCalls])
  · rw [List.append_nil]
    exact ⟨warm, .inl (List.suffix_append _ _)⟩

theorem measuringCalls_orderly (request : BenchmarkRequest) (iterations : ℕ) :
    Orderly request [] (measuringCalls request iterations) := by
  have prepared : .prepare ∈ verifiedCalls request := List.mem_append_left _ (by decide)
  have verified : request.verify = true → .compute ∈ verifiedCalls request := by
    intro verify
    rw [verifiedCalls, if_pos verify]
    exact List.mem_append_right _ (by decide)
  obtain ⟨warm, last⟩ := warmupCalls_orderly prepared verified
  refine (orderly_append _ _ _).mpr ⟨verifiedCalls_orderly, (orderly_append _ _ _).mpr ⟨warm, ?_⟩⟩
  refine (orderly_append _ _ _).mpr ⟨⟨⟨fun verify => List.mem_append_left _ (verified verify), last⟩,
    trivial⟩, ?_⟩
  exact samples_orderly (List.mem_append_left _ (List.mem_append_left _ prepared))
    ⟨_, List.mem_append_right _ (List.mem_singleton.mpr rfl)⟩ iterations request.samples

theorem reportCalls_orderly (some : request.samples ≠ 0) (iterations : ℕ) (peak : Bool) :
    Orderly request (measuringCalls request iterations) (reportCalls peak) := by
  obtain ⟨n, samples⟩ := Nat.exists_eq_succ_of_ne_zero some
  have sampled : sampleCalls iterations <:+ measuringCalls request iterations := by
    rw [measuringCalls, samplingCalls, samples, List.replicate_succ', List.flatten_append,
      List.flatten_singleton]
    simp only [← List.append_assoc]
    exact List.suffix_append _ _
  cases peak with
  | false => exact ⟨⟨iterations, sampled⟩, trivial⟩
  | true => exact ⟨⟨iterations, sampled⟩, List.suffix_append _ _, trivial⟩

theorem later_notMem (request : BenchmarkRequest) (iterations : ℕ) {call : Call}
    (later : call = .checksum ∨ call = .peakPerformance ∨ call = .destroy) :
    call ∉ measuringCalls request iterations := by
  have samples : call ∉ (List.replicate request.samples (sampleCalls iterations)).flatten := by
    rw [List.mem_flatten]
    rintro ⟨seg, member, found⟩
    rw [List.eq_of_mem_replicate member] at found
    rcases later with rfl | rfl | rfl <;> simp [sampleCalls] at found
  have verified : call ∉ verifiedCalls request := by
    rw [verifiedCalls]
    rcases later with rfl | rfl | rfl <;> split <;> decide
  have warm : call ∉ warmupCalls request := by
    rw [warmupCalls]
    rcases later with rfl | rfl | rfl <;> split <;> simp [calibrationCalls]
  have opening : call ∉ [Call.perfOpen (request.perfEvents.map (·.name))] := by
    rcases later with rfl | rfl | rfl <;> simp
  simp only [measuringCalls, samplingCalls, List.mem_append, not_or]
  exact ⟨verified, warm, opening, samples⟩

theorem destroy_notMem (request : BenchmarkRequest) (iterations : ℕ) (peak : Bool) :
    .destroy ∉ measuringCalls request iterations ++ reportCalls peak := by
  rw [List.mem_append, not_or]
  refine ⟨later_notMem request iterations (.inr (.inr rfl)), ?_⟩
  cases peak <;> decide

variable {env : Environment α I} {kernel : KernelRegistration α S I} {input : I} {state : S}
variable [FloorRing α]

/-- The report comes after every sample, and nothing but the end comes after it. -/
theorem report_last {before after : List Call}
    (calls : (runBenchmark env kernel request input).2 = before ++ .checksum :: after) :
    (∃ iterations, Iterations request iterations ∧ before = measuringCalls request iterations) ∧
      (after = [.destroy] ∨ after = [.peakPerformance, .destroy]) := by
  have member : .checksum ∈ (runBenchmark env kernel request input).2 :=
    calls ▸ List.mem_append_right _ List.mem_cons_self
  by_cases some : ∃ state, Started env kernel request input state
  · obtain ⟨state, started⟩ := some
    obtain ⟨made, all, iterations, chosen, ended⟩ := run_ended started
    rcases ended with ⟨peak, _, rfl, _⟩ | ⟨_, part, _⟩
    · have early : .checksum ∉ measuringCalls request iterations := later_notMem request iterations (.inl rfl)
      have late : .checksum ∉ (if peak then [Call.peakPerformance] else []) ++ [.destroy] := by
        cases peak <;> decide
      rw [calls, reportCalls, List.append_assoc, List.cons_append, eq_comm,
        List.append_cons_inj_of_notMem early late] at all
      obtain ⟨same, _, rest⟩ := all
      refine ⟨⟨iterations, chosen, same.symm⟩, ?_⟩
      rw [← rest]
      cases peak with
      | false => exact .inl rfl
      | true => exact .inr rfl
    · rw [all, List.mem_append] at member
      rcases member with inside | last
      · exact absurd (part.subset inside) (later_notMem request iterations (.inl rfl))
      · cases List.mem_singleton.mp last
  · have inside := (run_not_started fun state started => some ⟨state, started⟩).subset member
    simp at inside

/-- Whatever the kernel and the counters do: no call comes before what it needs, the report is asked for
after all samples and only then, and the state that was prepared, if any, is destroyed once, at the end. -/
theorem calls_in_order (env : Environment α I) (kernel : KernelRegistration α S I)
    (request : BenchmarkRequest) (input : I) :
    Orderly request [] (runBenchmark env kernel request input).2 ∧
    (∀ before after, (runBenchmark env kernel request input).2 = before ++ .checksum :: after →
      (∃ iterations, Iterations request iterations ∧ before = measuringCalls request iterations) ∧
        (after = [.destroy] ∨ after = [.peakPerformance, .destroy])) ∧
    ((∃ state, Started env kernel request input state) →
      ∃ made, (runBenchmark env kernel request input).2 = made ++ [.destroy] ∧ .destroy ∉ made) ∧
    ((∀ state, ¬Started env kernel request input state) →
      .destroy ∉ (runBenchmark env kernel request input).2) := by
  have unprepared : Orderly request [] [.validate, .prepare] := ⟨rfl, rfl, trivial⟩
  refine ⟨?_, fun _ _ calls => report_last calls, fun ⟨state, started⟩ => ?_, fun no member => ?_⟩
  · by_cases some : ∃ state, Started env kernel request input state
    · obtain ⟨state, started⟩ := some
      obtain ⟨made, calls, iterations, _, ended⟩ := run_ended started
      rw [calls, orderly_append]
      rcases ended with ⟨peak, samples, rfl, _⟩ | ⟨start, part, _⟩
      · refine ⟨(orderly_append _ _ _).mpr ⟨measuringCalls_orderly request iterations,
          reportCalls_orderly samples iterations peak⟩, ?_, trivial⟩
        simp [Ready, measuringCalls, verifiedCalls]
      · exact ⟨(measuringCalls_orderly request iterations).part part, start.subset (by decide), trivial⟩
    · exact unprepared.part (run_not_started fun state started => some ⟨state, started⟩)
  · obtain ⟨made, calls, iterations, _, ended⟩ := run_ended started
    refine ⟨made, calls, fun member => ?_⟩
    rcases ended with ⟨peak, _, rfl, _⟩ | ⟨_, part, _⟩
    · exact destroy_notMem request iterations peak member
    · exact destroy_notMem request iterations true (List.mem_append_left _ (part.subset member))
  · have := (run_not_started no).subset member
    simp at this

/-- A run leaves without a message just when it makes every call: it verified, warmed up, calibrated
where no count was asked for, took every sample and reported them. -/
theorem completes_iff (started : Started env kernel request input state) (texts : Texts env kernel) :
    (runBenchmark env kernel request input).1.message = "" ↔
      ∃ iterations, Iterations request iterations ∧ ∃ peak : Bool, request.samples ≠ 0 ∧
        (peak = true → ValidPeak kernel.callbacks request) ∧
        (runBenchmark env kernel request input).2 =
          measuringCalls request iterations ++ reportCalls peak ++ [.destroy] := by
  obtain ⟨made, calls, iterations, chosen, ended⟩ := run_ended started
  constructor
  · intro silent
    rcases ended with ⟨peak, samples, rfl, valid⟩ | ⟨_, _, message⟩
    · exact ⟨iterations, chosen, peak, samples, valid.mp silent, calls⟩
    · exact absurd silent (message texts)
  · rintro ⟨iterations', _, peak', _, valid', calls'⟩
    have same := List.append_cancel_right (calls.symm.trans calls')
    rcases ended with ⟨peak, _, rfl, valid⟩ | ⟨_, part, _⟩
    · refine valid.mpr fun peaked => valid' ?_
      subst peaked
      have member : .peakPerformance ∈ measuringCalls request iterations' ++ reportCalls peak' :=
        same ▸ List.mem_append_right _ (by decide)
      cases peak' with
      | true => rfl
      | false =>
          rcases List.mem_append.mp member with early | late
          · exact absurd early (later_notMem request iterations' (.inr (.inl rfl)))
          · exact absurd late (by decide)
    · have member : .checksum ∈ made := same ▸ List.mem_append_right _ (List.mem_cons_self ..)
      exact absurd (part.subset member) (later_notMem request iterations (.inl rfl))

end Order

def oneCounted : BenchmarkRequest :=
  { oneElement with iterations := 0, perfEvents := [⟨"instructions", 0, 1⟩] }

end Pfng.Bench
