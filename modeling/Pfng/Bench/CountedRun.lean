import Pfng.Bench.Counters
import Pfng.Bench.Protocol

/-! `run_benchmark` on the counters of `perf.h`. Its two groups never live at once: that of the
calibration is closed before the other one opens, so one group stands for both. -/
namespace Pfng.Bench.Counters
open Handles Exits

/-- The group, and how often one was opened. -/
structure Session where
  state : State
  opens : ℕ

/-- The events that the next `open` is called with. -/
def Session.specs (request : BenchmarkRequest) (session : Session) : List PerfEventSpec :=
  if request.iterations = 0 ∧ session.opens = 0 then [cyclesEvent] else request.perfEvents

/-- What a call of `run_benchmark` does with the group. Before `open` there is nothing to stop. -/
def Session.call (os : Os) (request : BenchmarkRequest) (session : Session) : Call → Session
  | .perfOpen _ =>
      ⟨(openGroup os (session.specs request) session.state).state id, session.opens + 1⟩
  | .perfStart => { session with state := (start os session.state).state id }
  | .perfStopAndRead =>
      match stopAndRead os session.state with
      | none => session
      | some outcome => { session with state := outcome.state Prod.fst }
  | _ => session

def replay (os : Os) (request : BenchmarkRequest) (calls : List Call) : Session :=
  calls.foldl (Session.call os request) ⟨⟨⟨[], []⟩, []⟩, 0⟩

def Outcome.error? {α : Type} : Outcome α → Option String
  | .ok _ => none
  | .error failed => some failed.1

/-- The counters as `run_benchmark` sees them. A text stands for what is undefined. -/
def counters (os : Os) (request : BenchmarkRequest) : PerfEventGroup where
  openGroup calls specs := (openGroup os specs (replay os request calls).state).error?
  start calls := (start os (replay os request calls).state).error?
  stopAndRead calls :=
    match stopAndRead os (replay os request calls).state with
    | none => .error "undefined"
    | some (.error failed) => .error failed.1
    | some (.ok (_, values)) => .ok fun event => values.getD event ⟨0, 0, 0⟩

def systemCalls (os : Os) (request : BenchmarkRequest) (calls : List Call) : List Syscall :=
  (replay os request calls).state.closeAll.trace

section Texts

variable {os : Os} {request : BenchmarkRequest}

theorem openGroup_text (os : Os) (specs : List PerfEventSpec) (s : State) :
    Leaves (openGroup os specs s) (fun _ => True) fun failed => failed.1 ≠ "" := by
  refine Leaves.foldlM (fun _ _ => True) trivial fun _ _ s _ => ?_
  simp only [openEvent]
  split
  · exact fun none_ => by simp [String.append_eq_empty_iff] at none_
  · exact trivial

theorem start_text (os : Os) (s : State) : Leaves (start os s) (fun _ => True) fun failed => failed.1 ≠ "" := by
  rw [start]
  split
  · exact (by decide : "no perf events configured" ≠ "")
  · dsimp only
    split
    · exact fun none_ => by simp [String.append_eq_empty_iff] at none_
    · split
      · exact fun none_ => by simp [String.append_eq_empty_iff] at none_
      · exact trivial

theorem stopAndRead_text {s : State} {outcome : Outcome (State × List PerfEventValue)}
    (stopped : stopAndRead os s = some outcome) :
    Leaves outcome (fun _ => True) fun failed => failed.1 ≠ "" := by
  rw [stopAndRead] at stopped
  split at stopped
  · cases stopped
  · simp only at stopped
    split at stopped
    · cases stopped
      exact fun none_ => by simp [String.append_eq_empty_iff] at none_
    · cases stopped
      refine Leaves.foldlM (fun _ _ => True) trivial fun _ _ acc _ => ?_
      rw [readEvent]
      split
      · exact trivial
      · exact fun none_ => by simp [String.append_eq_empty_iff] at none_
      · exact fun none_ => by simp [String.append_eq_empty_iff] at none_

theorem counters_texts (os : Os) (request : BenchmarkRequest) :
    (∀ calls specs, (counters os request).openGroup calls specs ≠ some "") ∧
    (∀ calls, (counters os request).start calls ≠ some "") ∧
    ∀ calls, (counters os request).stopAndRead calls ≠ .error "" := by
  refine ⟨fun calls specs silent => ?_, fun calls silent => ?_, fun calls silent => ?_⟩
  · have text := openGroup_text os specs (replay os request calls).state
    simp only [counters] at silent
    cases outcome : openGroup os specs (replay os request calls).state with
    | ok s => simp [outcome, Outcome.error?] at silent
    | error failed =>
        rw [outcome] at text silent
        exact text (Option.some_inj.mp silent)
  · have text := start_text os (replay os request calls).state
    simp only [counters] at silent
    cases outcome : start os (replay os request calls).state with
    | ok s => simp [outcome, Outcome.error?] at silent
    | error failed =>
        rw [outcome] at text silent
        exact text (Option.some_inj.mp silent)
  · simp only [counters] at silent
    split at silent
    · simp at silent
    · next failed stopped =>
        exact stopAndRead_text stopped (Except.error.inj silent)
    · cases silent

end Texts

section Replay

variable {os : Os} {request : BenchmarkRequest} {calls : List Call} {call : Call}

theorem replay_snoc : replay os request (calls ++ [call]) =
    (replay os request calls).call os request call := by
  rw [replay, List.foldl_append]
  rfl

theorem replay_safe (fresh : os.Fresh) (request : BenchmarkRequest) (calls : List Call) :
    Safe (fun _ : Unit => []) () (replay os request calls).state := by
  induction calls using List.reverseRecOn with
  | nil =>
      refine ⟨trivial, fun _ => ?_, fun _ _ _ _ _ => rfl, fun fd => ⟨False.elim, ?_⟩⟩
      · simp [replay]
      · rintro ⟨_, no⟩
        simp [replay] at no
  | append_singleton calls call safe =>
      rw [replay_snoc]
      cases call with
      | perfOpen names =>
          exact of_leaves (openGroup_safe fresh safe _) (fun _ h => h.1) fun _ h => h.1
      | perfStart => exact of_leaves (start_safe safe) (fun _ h => h.1) fun _ h => h.1
      | perfStopAndRead =>
          simp only [Session.call]
          cases fds : (replay os request calls).state.group.fds with
          | nil =>
              have none_ : stopAndRead os (replay os request calls).state = none := by
                rw [stopAndRead, fds]
              rw [none_]
              exact safe
          | cons front rest =>
              obtain ⟨outcome, stopped, left⟩ := stopAndRead_safe os safe (by simp [fds])
              rw [stopped]
              exact of_leaves left (fun _ h => h.1) fun _ h => h.1
      | _ => exact safe

end Replay

/-- Each `open` of the calls is the one that was replayed, and a group is stopped only when it has
descriptors. -/
structure Regular (os : Os) (request : BenchmarkRequest) (calls : List Call) : Prop where
  opens : ∀ before names, before ++ [.perfOpen names] <+: calls →
    names = ((replay os request before).specs request).map (·.name)
  stops : ∀ before, before ++ [.perfStopAndRead] <+: calls →
    (replay os request before).state.group.fds ≠ []

/-- The calls with which the group is opened, started, or stopped. -/
def Counts : Call → Prop
  | .perfOpen _ | .perfStart | .perfStopAndRead => True
  | _ => False

section Regular

variable {os : Os} {request : BenchmarkRequest} {calls : List Call} {call : Call}

theorem replay_other (call : Call) (other : ¬Counts call) :
    replay os request (calls ++ [call]) = replay os request calls := by
  rw [replay_snoc]
  cases call with
  | perfOpen names => exact absurd trivial other
  | perfStart => exact absurd trivial other
  | perfStopAndRead => exact absurd trivial other
  | _ => rfl

theorem regular_nil : Regular os request [] where
  opens before names part := by simp at part
  stops before part := by simp at part

theorem Regular.snoc (regular : Regular os request calls)
    (opens : ∀ names, call = .perfOpen names →
      names = ((replay os request calls).specs request).map (·.name))
    (stops : call = .perfStopAndRead → (replay os request calls).state.group.fds ≠ []) :
    Regular os request (calls ++ [call]) := by
  constructor
  · intro before names part
    rcases List.prefix_concat_iff.mp part with whole | part
    · obtain ⟨rfl, last⟩ := List.append_inj' whole rfl
      cases last
      exact opens names rfl
    · exact regular.opens before names part
  · intro before part
    rcases List.prefix_concat_iff.mp part with whole | part
    · obtain ⟨rfl, last⟩ := List.append_inj' whole rfl
      cases last
      exact stops rfl
    · exact regular.stops before part

theorem Regular.other (regular : Regular os request calls) (call : Call) (other : ¬Counts call) :
    Regular os request (calls ++ [call]) := by
  refine regular.snoc (fun names same => ?_) fun same => ?_
  · subst same
    exact absurd trivial other
  · subst same
    exact absurd trivial other

/-- So far regular; the group is open for the given time. -/
structure Armed (os : Os) (request : BenchmarkRequest) (opens : ℕ) (calls : List Call) : Prop where
  regular : Regular os request calls
  opens : (replay os request calls).opens = opens
  armed : (replay os request calls).state.group.fds ≠ []

theorem Armed.other {opens : ℕ} (armed : Armed os request opens calls) (call : Call) (other : ¬Counts call) :
    Armed os request opens (calls ++ [call]) := by
  refine ⟨armed.regular.other call other, ?_, ?_⟩
  · rw [replay_other call other]
    exact armed.opens
  · rw [replay_other call other]
    exact armed.armed

end Regular

section Walk

variable {α S I : Type} {os : Os} {request : BenchmarkRequest} {opens : ℕ} {w : World α S}
variable (k : KernelCallbacks α S I)

theorem perfOpen_regular (fresh : os.Fresh) {specs : List PerfEventSpec}
    (regular : Regular os request w.calls)
    (here : (replay os request w.calls).specs request = specs) (some_ : specs ≠ [])
    (before : (replay os request w.calls).opens = opens) :
    Leaves (w.perfOpen (counters os request) specs) (fun w => Armed os request (opens + 1) w.calls)
      fun w => Regular os request w.calls := by
  have next : Regular os request (w.calls ++ [.perfOpen (specs.map (·.name))]) := by
    refine regular.snoc (fun names same => ?_) fun no => by cases no
    cases same
    rw [here]
  have left := openGroup_safe fresh (replay_safe fresh request w.calls) specs
  have replayed : replay os request (w.calls ++ [.perfOpen (specs.map (·.name))]) =
      ⟨(openGroup os specs (replay os request w.calls).state).state id, opens + 1⟩ := by
    rw [replay_snoc, Session.call, here, before]
  rw [World.perfOpen]
  cases outcome : openGroup os specs (replay os request w.calls).state with
  | error failed =>
      simp only [counters, outcome, Outcome.error?]
      exact next
  | ok s =>
      simp only [counters, outcome, Outcome.error?]
      rw [outcome] at left replayed
      refine ⟨next, congrArg Session.opens replayed, ?_⟩
      rw [World.call, replayed]
      intro none_
      have length : s.group.fds.length = specs.length := left.2.1
      rw [show s.group.fds = [] from none_, List.length_nil] at length
      exact some_ (List.length_eq_zero_iff.mp length.symm)

theorem resetStart_regular (armed : Armed os request opens w.calls) (fresh : os.Fresh) :
    Leaves ((w.reset k).perfStart (counters os request)) (fun w => Armed os request opens w.calls)
      fun w => Regular os request w.calls := by
  have reset : Armed os request opens (w.reset k).calls := armed.other .reset id
  have next : Regular os request ((w.reset k).calls ++ [.perfStart]) :=
    reset.regular.snoc (fun _ no => by cases no) fun no => by cases no
  have left : Leaves (start os (replay os request (w.reset k).calls).state) _ _ :=
    start_safe (replay_safe fresh request (w.reset k).calls)
  rw [World.perfStart]
  cases outcome : start os (replay os request (w.reset k).calls).state with
  | error failed =>
      simp only [counters, outcome, Outcome.error?]
      exact next
  | ok s =>
      simp only [counters, outcome, Outcome.error?]
      rw [outcome] at left
      have replayed : replay os request ((w.reset k).calls ++ [.perfStart]) =
          { replay os request (w.reset k).calls with state := s } := by
        rw [replay_snoc, Session.call, outcome]
        rfl
      refine ⟨next, ?_, ?_⟩
      · rw [World.call, replayed]
        exact reset.opens
      · rw [World.call, replayed]
        exact left.2 ▸ reset.armed

theorem runStop_regular (armed : Armed os request opens w.calls) (fresh : os.Fresh) (iterations : ℕ) :
    Leaves ((w.run k iterations).perfStopAndRead (counters os request))
      (fun read => Armed os request opens read.1.calls) fun w => Regular os request w.calls := by
  have ran : Armed os request opens (w.run k iterations).calls :=
    armed.other (.run iterations) id
  have next : Regular os request ((w.run k iterations).calls ++ [.perfStopAndRead]) :=
    ran.regular.snoc (fun _ no => by cases no) fun _ => ran.armed
  obtain ⟨outcome, stopped, left⟩ :=
    stopAndRead_safe os (replay_safe fresh request (w.run k iterations).calls) ran.armed
  rw [World.perfStopAndRead]
  cases outcome with
  | error failed =>
      simp only [counters, stopped]
      exact next
  | ok read =>
      simp only [counters, stopped]
      have replayed : replay os request ((w.run k iterations).calls ++ [.perfStopAndRead]) =
          { replay os request (w.run k iterations).calls with state := read.1 } := by
        rw [replay_snoc, Session.call, stopped]
        rfl
      refine ⟨next, ?_, ?_⟩
      · rw [World.call, replayed]
        exact ran.opens
      · rw [World.call, replayed]
        exact left.2 ▸ ran.armed

end Walk

section Timing

variable {α S I : Type} [Field α] [LinearOrder α] {os : Os} {request : BenchmarkRequest}
variable {env : Environment α I} {w : World α S} (k : KernelCallbacks α S I)

omit [Field α] [LinearOrder α] in
theorem calibrate_regular (counted : env.perf = counters os request) (fresh : os.Fresh)
    (regular : Regular os request w.calls) (first : (replay os request w.calls).opens = 0) :
    Leaves (calibrate env k request w) (fun calibrated => Regular os request calibrated.1.calls ∧
      (replay os request calibrated.1.calls).specs request = request.perfEvents)
      fun w => Regular os request w.calls := by
  rw [calibrate, counted]
  refine Leaves.ite (fun some_ => ⟨regular, ?_⟩) fun zero => ?_
  · rw [Session.specs, if_neg fun both => some_ both.1]
  · have here : (replay os request w.calls).specs request = [cyclesEvent] := by
      rw [Session.specs, if_pos ⟨not_not.mp zero, first⟩]
    refine (perfOpen_regular fresh regular here (by simp) first).bind fun w armed => ?_
    refine (resetStart_regular k armed fresh).bind fun w armed => ?_
    refine (runStop_regular k armed fresh 1).bind ?_
    rintro ⟨w, values⟩ armed
    refine Leaves.ite (fun _ => armed.regular) fun _ => ⟨armed.regular, ?_⟩
    rw [Session.specs, if_neg fun both => absurd (both.2.symm.trans armed.opens) (by decide)]

theorem recordEvents_regular (regular : Regular os request w.calls) (iterations : ℕ)
    (values : ℕ → PerfEventValue) (samples : ℕ → EventSamples α) (events : List (ℕ × PerfEventSpec)) :
    Leaves (events.foldlM (recordEvent env iterations values w) samples) (fun _ => True)
      fun w => Regular os request w.calls := by
  refine Leaves.foldlM (fun _ _ => True) trivial fun i hi samples _ => ?_
  rw [recordEvent]
  refine Leaves.ite (fun _ => regular) fun _ => ?_
  exact Leaves.ite (fun _ => regular) fun _ => trivial

theorem recordSamples_regular (counted : env.perf = counters os request) (fresh : os.Fresh)
    {opens iterations n : ℕ} {acc : World α S × (ℕ → EventSamples α)}
    (armed : Armed os request opens acc.1.calls) :
    Leaves ((List.range n).foldlM (fun acc _ => recordSample env k request iterations acc) acc)
      (fun acc => Armed os request opens acc.1.calls) fun w => Regular os request w.calls := by
  refine Leaves.foldlM (fun _ (acc : World α S × (ℕ → EventSamples α)) =>
    Armed os request opens acc.1.calls) armed fun i hi acc armed => ?_
  rw [recordSample, counted]
  refine (resetStart_regular k armed fresh).bind fun w armed => ?_
  refine (runStop_regular k armed fresh iterations).bind ?_
  rintro ⟨w, values⟩ armed
  exact (recordEvents_regular armed.regular iterations values _ _).bind fun _ _ => armed

variable [FloorRing α]

theorem timing_regular (counted : env.perf = counters os request) (fresh : os.Fresh)
    (regular : Regular os request w.calls) (first : (replay os request w.calls).opens = 0) :
    Leaves (timing env k request w) (fun w => Regular os request w.calls)
      fun w => Regular os request w.calls := by
  have warm : Regular os request ((w.reset k).run k request.warmupIterations).calls :=
    (regular.other .reset id).other (.run request.warmupIterations) id
  have still : (replay os request ((w.reset k).run k request.warmupIterations).calls).opens = 0 := by
    have same : replay os request ((w.reset k).run k request.warmupIterations).calls =
        replay os request w.calls := by
      rw [World.run, World.call, replay_other (.run _) id, World.reset, World.call]
      exact replay_other .reset id
    rw [same, first]
  rw [timing]
  refine Leaves.ite (fun _ => warm) fun sampled => ?_
  have some_ : request.perfEvents ≠ [] := fun none_ => sampled (.inr (by simp [none_]))
  refine (calibrate_regular k counted fresh warm still).bind ?_
  rintro ⟨w, iterations⟩ ⟨regular, here⟩
  let counting : World α S := { w with result := { w.result with iterations := iterations } }
  have opened : Leaves (counting.perfOpen (counters os request) request.perfEvents) _ _ :=
    perfOpen_regular fresh regular here some_ rfl
  rw [← counted] at opened
  refine opened.bind fun w armed => ?_
  refine (recordSamples_regular k counted fresh armed).bind ?_
  rintro ⟨w, samples⟩ armed
  have summed : Regular os request (w.calls ++ [.checksum]) :=
    armed.regular.other .checksum id
  refine Leaves.ite (fun _ => ?_) fun _ => summed
  have peaked : Regular os request (w.calls ++ [.checksum] ++ [.peakPerformance]) :=
    summed.other .peakPerformance id
  exact Leaves.ite (fun _ => peaked) fun _ => peaked

end Timing

section Run

variable {α S I : Type} [Field α] [LinearOrder α] [FloorRing α] {os : Os} {request : BenchmarkRequest}
variable {env : Environment α I} {kernel : KernelRegistration α S I} {input : I} {state : S}

/-- Before the counters are opened the group is left alone. -/
structure Idle (os : Os) (request : BenchmarkRequest) (calls : List Call) : Prop where
  regular : Regular os request calls
  first : (replay os request calls).opens = 0

theorem Idle.other {calls : List Call} (idle : Idle os request calls) (call : Call)
    (other : ¬Counts call) : Idle os request (calls ++ [call]) := by
  refine ⟨idle.regular.other call other, ?_⟩
  rw [replay_other call other]
  exact idle.first

omit [FloorRing α] in
theorem verification_idle {w : World α S} (idle : Idle os request w.calls) :
    Leaves (verification env kernel request input w) (fun w => Idle os request w.calls)
      fun w => Idle os request w.calls := by
  have exported : Idle os request (w.calls ++ [.reset] ++ [.run 1] ++ [.exportOutput]) :=
    ((idle.other .reset id).other (.run 1) id).other .exportOutput id
  have computed := exported.other .compute id
  rw [verification]
  refine Leaves.ite (fun _ => exported) fun _ => ?_
  exact Leaves.ite (fun _ => computed) fun _ => computed

theorem run_regular (counted : env.perf = counters os request) (fresh : os.Fresh) :
    Regular os request (runBenchmark env kernel request input).2 := by
  have validated : Regular os request [.validate] := regular_nil.other .validate id
  have prepared : Idle os request [.validate, .prepare] := ⟨validated.other .prepare id, rfl⟩
  by_cases some_ : ∃ state, Started env kernel request input state
  · obtain ⟨state, started⟩ := some_
    have ran : Leaves (course env kernel request input state) (fun w => Regular os request w.calls)
        fun w => Regular os request w.calls := by
      have verified : Leaves (if request.verify then
          verification env kernel request input ⟨state, .empty, [.validate, .prepare]⟩
          else .ok ⟨state, .empty, [.validate, .prepare]⟩) (fun w => Idle os request w.calls)
          fun w => Regular os request w.calls :=
        Leaves.ite (fun _ => (verification_idle prepared).mono (fun _ h => h) fun _ h => h.regular)
          fun _ => prepared
      exact verified.bind fun w idle => timing_regular kernel.callbacks counted fresh idle.regular idle.first
    rw [run_eq started]
    have last : Regular os request (final id (course env kernel request input state)).calls :=
      ran.final fun _ h => h
    exact last.other .destroy id
  · have part := run_not_started fun state started => some_ ⟨state, started⟩
    exact ⟨fun before names inside => prepared.regular.opens before names (inside.trans part),
      fun before inside => prepared.regular.stops before (inside.trans part)⟩

/-- On the counters of `perf.h`, whatever the kernel under test and the operating system answer: a run
closes each descriptor it opened, once, and uses none after that; its groups are opened for the events
of the calibration and of the request, and none is stopped without descriptors. -/
theorem run_counted (fresh : os.Fresh) (counted : env.perf = counters os request)
    (kernel : KernelRegistration α S I) (input : I) :
    Proper ∅ (descriptorEvents (systemCalls os request (runBenchmark env kernel request input).2)) ∧
    opened (systemCalls os request (runBenchmark env kernel request input).2) = ∅ ∧
    (∀ before names, before ++ [.perfOpen names] <+: (runBenchmark env kernel request input).2 →
      names = ((replay os request before).specs request).map (·.name)) ∧
    ∀ before, before ++ [.perfStopAndRead] <+: (runBenchmark env kernel request input).2 →
      stopAndRead os (replay os request before).state ≠ none := by
  have closed := (replay_safe fresh request (runBenchmark env kernel request input).2).closeAll
  have regular : Regular os request (runBenchmark env kernel request input).2 :=
    run_regular counted fresh
  refine ⟨closed.proper, Set.eq_empty_of_forall_notMem fun fd member => ?_, regular.opens,
    fun before inside => ?_⟩
  · obtain ⟨owner, no⟩ := (closed.owned.held_iff fd).mp member
    cases owner
    rw [Function.update_self] at no
    exact absurd no List.not_mem_nil
  · obtain ⟨outcome, stopped, _⟩ :=
      stopAndRead_safe os (replay_safe fresh request before) (regular.stops before inside)
    rw [stopped]
    exact Option.some_ne_none outcome

end Run

def sampleEnvironment : Environment ℚ Unit :=
  { constantReference (.finite 1) with perf := counters sampleOs oneCounted }

theorem sample_run_counted :
    Proper ∅ (descriptorEvents (systemCalls sampleOs oneCounted
      (runBenchmark sampleEnvironment (constantKernel (.finite 1)) oneCounted ()).2)) ∧
    opened (systemCalls sampleOs oneCounted
      (runBenchmark sampleEnvironment (constantKernel (.finite 1)) oneCounted ()).2) = ∅ ∧
    (∀ before names, before ++ [.perfOpen names] <+:
        (runBenchmark sampleEnvironment (constantKernel (.finite 1)) oneCounted ()).2 →
      names = ((replay sampleOs oneCounted before).specs oneCounted).map (·.name)) ∧
    ∀ before, before ++ [.perfStopAndRead] <+:
        (runBenchmark sampleEnvironment (constantKernel (.finite 1)) oneCounted ()).2 →
      stopAndRead sampleOs (replay sampleOs oneCounted before).state ≠ none :=
  run_counted sampleOs_fresh rfl (constantKernel (.finite 1)) ()

end Pfng.Bench.Counters
