import Pfng.Bench.Run
import Pfng.Lib.Exits
import Pfng.Lib.Handles
import Pfng.Lib.Program

/-! `PerfEventGroup` with the system calls it makes. The kernel answers from the calls so far; it is
only taken to give a descriptor that is not open. -/
namespace Pfng.Bench.Counters
open Handles Checked Exits

structure PerfEventAttr where
  type : ℕ
  config : ℕ
  disabled : Bool
  pinned : Bool
  excludeKernel : Bool
  excludeHv : Bool
  readFormat : ℕ

inductive Ioctl
  | reset | enable | disable

inductive ReadAnswer
  | value (value : PerfEventValue)
  | short
  | failed (errno : String)

/-- The system calls with their answers; a text is that of `strerror(errno)`. -/
inductive Syscall
  | perfEventOpen (attr : PerfEventAttr) (groupFd : Option ℕ) (answer : Except String ℕ)
  | ioctl (fd : ℕ) (request : Ioctl) (answer : Option String)
  | read (fd : ℕ) (answer : ReadAnswer)
  | close (fd : ℕ)

/-- What the kernel answers after the calls so far. -/
structure Os where
  perfEventOpen : List Syscall → PerfEventAttr → Option ℕ → Except String ℕ
  ioctl : List Syscall → ℕ → Ioctl → Option String
  read : List Syscall → ℕ → ReadAnswer

/-- What a call does with descriptors. -/
def Syscall.events : Syscall → List (Event ℕ)
  | .perfEventOpen _ _ (.ok fd) => [.acquire fd]
  | .perfEventOpen _ _ (.error _) => []
  | .ioctl fd _ _ => [.use fd]
  | .read fd _ => [.use fd]
  | .close fd => [.release fd]

def descriptorEvents (trace : List Syscall) : List (Event ℕ) := trace.flatMap Syscall.events

def opened (trace : List Syscall) : Set ℕ := after ∅ (descriptorEvents trace)

def Os.Fresh (os : Os) : Prop :=
  ∀ trace attr groupFd fd, os.perfEventOpen trace attr groupFd = .ok fd → fd ∉ opened trace

/-- The members of a `PerfEventGroup`. -/
structure Group where
  fds : List ℕ
  specs : List PerfEventSpec

/-- A group and the calls so far. -/
structure State where
  group : Group
  trace : List Syscall

def State.call (s : State) (call : Syscall) : State := { s with trace := s.trace ++ [call] }

/-- A `false` with its `error`, or a result. -/
abbrev Outcome (α : Type) := Except (String × State) α

def State.closeAll (s : State) : State :=
  ⟨⟨[], []⟩, s.trace ++ s.group.fds.map .close⟩

/-- One round of the loop of `open`. -/
def openEvent (os : Os) (s : State) (event : ℕ × PerfEventSpec) : Outcome State :=
  let attr : PerfEventAttr :=
    ⟨event.2.type, event.2.config, event.1 == 0, event.1 == 0, true, true, 1 ||| 2⟩
  let groupFd := s.group.fds.head?
  let answer := os.perfEventOpen s.trace attr groupFd
  let called := s.call (.perfEventOpen attr groupFd answer)
  match answer with
  | .error errno => .error ("perf_event_open(" ++ event.2.name ++ "): " ++ errno, called.closeAll)
  | .ok fd => .ok { called with group := { called.group with fds := called.group.fds ++ [fd] } }

def openGroup (os : Os) (specs : List PerfEventSpec) (s : State) : Outcome State :=
  let closed := s.closeAll
  ((List.range specs.length).zip specs).foldlM (openEvent os)
    { closed with group := { closed.group with specs := specs } }

def start (os : Os) (s : State) : Outcome State :=
  match s.group.fds with
  | [] => .error ("no perf events configured", s)
  | front :: _ =>
      let reset := os.ioctl s.trace front .reset
      let s := s.call (.ioctl front .reset reset)
      match reset with
      | some errno => .error ("perf group reset/enable: " ++ errno, s)
      | none =>
          let enable := os.ioctl s.trace front .enable
          let s := s.call (.ioctl front .enable enable)
          match enable with
          | some errno => .error ("perf group reset/enable: " ++ errno, s)
          | none => .ok s

/-- One round of the loop of `stop_and_read`, for a descriptor and its index. -/
def readEvent (os : Os) (specs : List PerfEventSpec) (acc : State × List PerfEventValue)
    (event : ℕ × ℕ) : Outcome (State × List PerfEventValue) :=
  let answer := os.read acc.1.trace event.1
  let called := acc.1.call (.read event.1 answer)
  let name := (specs[event.2]?.map PerfEventSpec.name).getD ""
  match answer with
  | .value value => .ok (called, acc.2 ++ [value])
  | .short => .error ("perf read(" ++ name ++
      "): short read (event group may not fit available hardware counters)", called)
  | .failed errno => .error ("perf read(" ++ name ++ "): " ++ errno, called)

/-- `stop_and_read`; of a group without descriptors it is undefined. -/
def stopAndRead (os : Os) (s : State) : Option (Outcome (State × List PerfEventValue)) :=
  match s.group.fds with
  | [] => none
  | front :: _ =>
      let disable := os.ioctl s.trace front .disable
      let called := s.call (.ioctl front .disable disable)
      match disable with
      | some errno => some (.error ("perf group disable: " ++ errno, called))
      | none => some (s.group.fds.zipIdx.foldlM (readEvent os s.group.specs) (called, []))

/-- Whatever the outcome, the group and the calls it leaves. -/
def Outcome.state {α : Type} (state : α → State) : Outcome α → State
  | .ok x => state x
  | .error failed => failed.2

section Ownership

variable {ι : Type} [DecidableEq ι] {own : ι → List ℕ} {i : ι} {os : Os} {s : State}

/-- The calls so far keep to open descriptors, and the open ones are those of the group in the place
of `i` and of the others. -/
structure Safe (own : ι → List ℕ) (i : ι) (s : State) : Prop where
  proper : Proper ∅ (descriptorEvents s.trace)
  owned : Owned (Function.update own i s.group.fds) (opened s.trace)

theorem Safe.mem (safe : Safe own i s) : ∀ fd ∈ s.group.fds, fd ∈ opened s.trace := by
  have all := safe.owned.mem i
  rwa [Function.update_self] at all

theorem opened_append (trace later : List Syscall) :
    opened (trace ++ later) = after (opened trace) (descriptorEvents later) := by
  rw [opened, descriptorEvents, List.flatMap_append, after_append]
  rfl

theorem proper_call {trace : List Syscall} {later : List Syscall}
    (proper : Proper ∅ (descriptorEvents trace))
    (calls : Proper (opened trace) (descriptorEvents later)) :
    Proper ∅ (descriptorEvents (trace ++ later)) := by
  rw [descriptorEvents, List.flatMap_append, proper_append]
  exact ⟨proper, calls⟩

theorem closes (fds : List ℕ) : descriptorEvents (fds.map .close) = fds.map .release := by
  rw [descriptorEvents, List.flatMap_map, List.map_eq_flatMap]
  rfl

theorem Safe.use (safe : Safe own i s) {fd : ℕ} (member : fd ∈ s.group.fds) {call : Syscall}
    (uses : call.events = [.use fd]) : Safe own i (s.call call) := by
  have events : descriptorEvents [call] = [.use fd] := by
    rw [descriptorEvents, List.flatMap_singleton, uses]
  refine ⟨proper_call safe.proper ?_, ?_⟩
  · rw [events]
    exact ⟨safe.mem fd member, trivial⟩
  · rw [State.call, opened_append, events]
    exact safe.owned

theorem Safe.closeAll (safe : Safe own i s) : Safe own i s.closeAll := by
  refine ⟨proper_call safe.proper ?_, ?_⟩
  · rw [closes]
    have distinct := safe.owned.distinct i
    rw [Function.update_self] at distinct
    exact proper_release distinct safe.mem
  · have released := safe.owned.release i
    rw [Function.update_idem, Function.update_self] at released
    rw [State.closeAll, opened_append, closes, after_release]
    exact released

theorem Safe.specs (safe : Safe own i s) (specs : List PerfEventSpec) :
    Safe own i { s with group := { s.group with specs := specs } } :=
  ⟨safe.proper, safe.owned⟩

theorem Safe.opens (safe : Safe own i s) {fd : ℕ} (fresh : fd ∉ opened s.trace) (attr : PerfEventAttr)
    (groupFd : Option ℕ) : Safe own i
      ⟨⟨s.group.fds ++ [fd], s.group.specs⟩, s.trace ++ [.perfEventOpen attr groupFd (.ok fd)]⟩ := by
  refine ⟨proper_call safe.proper ⟨fresh, trivial⟩, ?_⟩
  have acquired := safe.owned.acquire i fresh
  rw [Function.update_self, Function.update_idem] at acquired
  rw [opened_append]
  exact acquired

theorem openEvent_safe (fresh : os.Fresh) (safe : Safe own i s) (event : ℕ × PerfEventSpec) :
    Leaves (openEvent os s event) (fun after => Safe own i after ∧
      after.group.fds.length = s.group.fds.length + 1 ∧ after.group.specs = s.group.specs)
      fun failed => Safe own i failed.2 ∧ failed.2.group = ⟨[], []⟩ := by
  let attr : PerfEventAttr :=
    ⟨event.2.type, event.2.config, event.1 == 0, event.1 == 0, true, true, 1 ||| 2⟩
  cases answer : os.perfEventOpen s.trace attr s.group.fds.head? with
  | error errno =>
      simp only [openEvent]
      rw [show os.perfEventOpen s.trace _ s.group.fds.head? = .error errno from answer]
      have same : Safe own i (s.call (.perfEventOpen attr s.group.fds.head? (.error errno))) := by
        refine ⟨proper_call safe.proper trivial, ?_⟩
        rw [State.call, opened_append]
        exact safe.owned
      exact ⟨same.closeAll, rfl⟩
  | ok fd =>
      simp only [openEvent]
      rw [show os.perfEventOpen s.trace _ s.group.fds.head? = .ok fd from answer]
      exact ⟨safe.opens (fresh _ _ _ _ answer) attr _, List.length_append, rfl⟩

theorem openGroup_safe (fresh : os.Fresh) (safe : Safe own i s) (specs : List PerfEventSpec) :
    Leaves (openGroup os specs s) (fun after => Safe own i after ∧
      after.group.fds.length = specs.length ∧ after.group.specs = specs)
      fun failed => Safe own i failed.2 ∧ failed.2.group = ⟨[], []⟩ := by
  have all : ((List.range specs.length).zip specs).length = specs.length := by simp
  have loop := Leaves.foldlM
    (Q := fun failed : String × State => Safe own i failed.2 ∧ failed.2.group = ⟨[], []⟩)
    (g := openEvent os) (l := (List.range specs.length).zip specs)
    (x := { s.closeAll with group := { s.closeAll.group with specs := specs } })
    (fun rounds after => Safe own i after ∧ after.group.fds.length = rounds ∧ after.group.specs = specs)
    ⟨safe.closeAll.specs specs, rfl, rfl⟩ fun rounds _ after kept => by
      refine (openEvent_safe fresh kept.1 _).mono (fun next grown => ⟨grown.1, ?_, ?_⟩) fun _ h => h
      · rw [grown.2.1, kept.2.1]
      · exact grown.2.2.trans kept.2.2
  rw [all] at loop
  exact loop

theorem start_safe (safe : Safe own i s) :
    Leaves (start os s) (fun after => Safe own i after ∧ after.group = s.group)
      fun failed => Safe own i failed.2 ∧ failed.2.group = s.group := by
  rw [start]
  cases fds : s.group.fds with
  | nil => exact ⟨safe, rfl⟩
  | cons front rest =>
      have member : front ∈ s.group.fds := fds ▸ List.mem_cons_self
      have reset : ∀ answer, Safe own i (s.call (.ioctl front .reset answer)) :=
        fun _ => safe.use member rfl
      have enabled : ∀ answer answer', Safe own i
          ((s.call (.ioctl front .reset answer)).call (.ioctl front .enable answer')) :=
        fun answer _ => (reset answer).use member rfl
      simp only
      cases os.ioctl s.trace front .reset with
      | some errno => exact ⟨reset _, rfl⟩
      | none =>
          simp only
          cases os.ioctl _ front .enable with
          | some errno => exact ⟨enabled _ _, rfl⟩
          | none => exact ⟨enabled _ _, rfl⟩

theorem readEvent_safe (specs : List PerfEventSpec) {acc : State × List PerfEventValue}
    (safe : Safe own i acc.1) {event : ℕ × ℕ} (member : event.1 ∈ acc.1.group.fds) :
    Leaves (readEvent os specs acc event) (fun after => Safe own i after.1 ∧
      after.1.group = acc.1.group) fun failed => Safe own i failed.2 ∧
      failed.2.group = acc.1.group := by
  have read : ∀ answer, Safe own i (acc.1.call (.read event.1 answer)) := fun _ => safe.use member rfl
  rw [readEvent]
  cases os.read acc.1.trace event.1 with
  | value value => exact ⟨read _, rfl⟩
  | short => exact ⟨read _, rfl⟩
  | failed errno => exact ⟨read _, rfl⟩

/-- A group that has descriptors can be stopped and read. -/
theorem stopAndRead_safe (os : Os) (safe : Safe own i s) (some_ : s.group.fds ≠ []) :
    ∃ outcome, stopAndRead os s = some outcome ∧
      Leaves outcome (fun after => Safe own i after.1 ∧ after.1.group = s.group)
        fun failed => Safe own i failed.2 ∧ failed.2.group = s.group := by
  rw [stopAndRead]
  cases fds : s.group.fds with
  | nil => exact absurd fds some_
  | cons front rest =>
      have member : front ∈ s.group.fds := fds ▸ List.mem_cons_self
      have disabled : ∀ answer, Safe own i (s.call (.ioctl front .disable answer)) :=
        fun _ => safe.use member rfl
      simp only
      cases os.ioctl s.trace front .disable with
      | some errno => exact ⟨_, rfl, disabled _, rfl⟩
      | none =>
          refine ⟨_, rfl, ?_⟩
          refine Leaves.foldlM (fun _ (after : State × List PerfEventValue) =>
            Safe own i after.1 ∧ after.1.group = s.group) ⟨disabled none, rfl⟩ fun round inside acc kept => ?_
          obtain ⟨kept, same⟩ := kept
          have here : (((front :: rest).zipIdx).get ⟨round, inside⟩).1 ∈ acc.1.group.fds := by
            rw [same, fds]
            exact List.fst_mem_of_mem_zipIdx (List.get_mem _ _)
          exact (readEvent_safe s.group.specs kept here).mono
            (fun after read => ⟨read.1, read.2.trans same⟩) fun _ read => ⟨read.1, read.2.trans same⟩

end Ownership

section Machine

/-- All objects of the class, and the calls so far. One that is not constructed, or destroyed, is empty. -/
structure Machine (ι : Type) where
  groups : ι → Group
  trace : List Syscall

/-- The operations of the class. A move leaves `specs` of the other object unspecified. -/
inductive Operation (ι : Type)
  | openGroup (i : ι) (specs : List PerfEventSpec)
  | start (i : ι)
  | stopAndRead (i : ι)
  | moveAssign (i other : ι) (unspecified : List PerfEventSpec)
  | destroy (i : ι)

variable {ι : Type} [DecidableEq ι] {os : Os} {m : Machine ι}

def Machine.initial : Machine ι := ⟨fun _ => ⟨[], []⟩, []⟩

def Machine.state (m : Machine ι) (i : ι) : State := ⟨m.groups i, m.trace⟩

def Machine.put (m : Machine ι) (i : ι) (s : State) : Machine ι :=
  ⟨Function.update m.groups i s.group, s.trace⟩

/-- One operation; `none` is undefined behaviour. -/
def Machine.step (os : Os) (m : Machine ι) : Operation ι → Option (Unit × Machine ι)
  | .openGroup i specs => some ((), m.put i ((openGroup os specs (m.state i)).state id))
  | .start i => some ((), m.put i ((start os (m.state i)).state id))
  | .stopAndRead i =>
      (stopAndRead os (m.state i)).map fun outcome => ((), m.put i (outcome.state Prod.fst))
  | .moveAssign i other unspecified =>
      if i = other then some ((), m)
      else
        let closed := m.put i (m.state i).closeAll
        let moved := Function.update closed.groups i (closed.groups other)
        some ((), ⟨Function.update moved other ⟨[], unspecified⟩, closed.trace⟩)
  | .destroy i => some ((), m.put i (m.state i).closeAll)

def Group.Whole (g : Group) : Prop := g.fds = [] ∨ g.fds.length = g.specs.length

/-- Every object has descriptors of its own, together they are the open ones, and no call was made on a
descriptor in another state. -/
structure Machine.Sound (m : Machine ι) : Prop where
  proper : Proper ∅ (descriptorEvents m.trace)
  owned : Owned (fun i => (m.groups i).fds) (opened m.trace)
  whole : ∀ i, (m.groups i).Whole

omit [DecidableEq ι] in
theorem Machine.sound_initial : (initial : Machine ι).Sound where
  proper := trivial
  owned := ⟨fun _ => List.nodup_nil, fun _ _ _ no => absurd no List.not_mem_nil, fun _ =>
    ⟨False.elim, fun ⟨_, no⟩ => absurd no List.not_mem_nil⟩⟩
  whole _ := .inl rfl

theorem Machine.Sound.safe (sound : m.Sound) (i : ι) :
    Safe (fun j => (m.groups j).fds) i (m.state i) := by
  refine ⟨sound.proper, ?_⟩
  rw [Machine.state, Function.update_eq_self]
  exact sound.owned

/-- What an operation on the object `i` has to leave. -/
def Machine.Leaves (m : Machine ι) (i : ι) (s : State) : Prop :=
  Safe (fun j => (m.groups j).fds) i s ∧ s.group.Whole

theorem Machine.Sound.put (sound : m.Sound) {i : ι} {s : State} (left : m.Leaves i s) :
    (m.put i s).Sound := by
  obtain ⟨safe, whole⟩ := left
  refine ⟨safe.proper, ?_, fun j => ?_⟩
  · have same : (fun j => ((m.put i s).groups j).fds) =
        Function.update (fun j => (m.groups j).fds) i s.group.fds := by
      funext j
      rcases eq_or_ne j i with rfl | other
      · simp [Machine.put]
      · simp [Machine.put, other]
    rw [same]
    exact safe.owned
  · rcases eq_or_ne j i with rfl | other
    · simpa [Machine.put] using whole
    · simpa [Machine.put, other] using sound.whole j

theorem of_leaves {α : Type} {outcome : Outcome α} {state : α → State} {P : α → Prop}
    {Q : String × State → Prop} {R : State → Prop} (leaves : Leaves outcome P Q)
    (ok : ∀ x, P x → R (state x)) (error : ∀ failed, Q failed → R failed.2) :
    R (outcome.state state) := by
  cases outcome with
  | ok x => exact ok x leaves
  | error failed => exact error failed leaves

theorem Machine.step_sound (fresh : os.Fresh) (sound : m.Sound) {operation : Operation ι}
    {next : Machine ι} (run : m.step os operation = some ((), next)) : next.Sound := by
  cases operation with
  | openGroup i specs =>
      cases run
      refine sound.put (of_leaves (openGroup_safe fresh (sound.safe i) specs) ?_ ?_)
      · intro s h
        exact ⟨h.1, .inr (h.2.1.trans (congrArg List.length h.2.2).symm)⟩
      · intro failed h
        exact ⟨h.1, .inl (congrArg Group.fds h.2)⟩
  | start i =>
      cases run
      refine sound.put (of_leaves (start_safe (sound.safe i)) ?_ ?_)
      · intro s h
        exact ⟨h.1, h.2 ▸ sound.whole i⟩
      · intro failed h
        exact ⟨h.1, h.2 ▸ sound.whole i⟩
  | stopAndRead i =>
      cases fds : (m.state i).group.fds with
      | nil => simp [Machine.step, stopAndRead, fds] at run
      | cons front rest =>
          have some_ : (m.state i).group.fds ≠ [] := by simp [fds]
          obtain ⟨outcome, stopped, left⟩ := stopAndRead_safe os (sound.safe i) some_
          simp only [Machine.step, stopped, Option.map_some, Option.some_inj] at run
          cases run
          refine sound.put (of_leaves left ?_ ?_)
          · intro s h
            exact ⟨h.1, h.2 ▸ sound.whole i⟩
          · intro failed h
            exact ⟨h.1, h.2 ▸ sound.whole i⟩
  | moveAssign i other unspecified =>
      simp only [Machine.step] at run
      split_ifs at run with same
      · cases run
        exact sound
      · cases run
        have closed : (m.put i (m.state i).closeAll).Sound :=
          sound.put ⟨(sound.safe i).closeAll, .inl rfl⟩
        have nothing : ((m.put i (m.state i).closeAll).groups i).fds = [] := by
          simp [Machine.put, State.closeAll]
        have moved := closed.owned.transfer same nothing
        refine ⟨closed.proper, ?_, fun j => ?_⟩
        · convert moved using 1
          funext j
          rcases eq_or_ne j other with rfl | notOther
          · simp
          · rcases eq_or_ne j i with rfl | notI
            · simp [notOther]
            · simp [notOther, notI]
        · rcases eq_or_ne j other with rfl | notOther
          · exact .inl (by simp)
          · rcases eq_or_ne j i with rfl | notI
            · simpa [notOther] using closed.whole other
            · simpa [notOther, notI] using closed.whole j
  | destroy i =>
      cases run
      exact sound.put ⟨(sound.safe i).closeAll, .inl rfl⟩

/-- Whatever a program does with any number of groups, and whatever the kernel answers: no descriptor
is leaked, closed twice, used after it was closed or owned by two groups, and no group is half open. -/
theorem groups_own (fresh : os.Fresh) (reach : Reach Machine.initial (Machine.step os) m) :
    Proper ∅ (descriptorEvents m.trace) ∧
    (∀ fd, fd ∈ opened m.trace ↔ ∃ i, fd ∈ (m.groups i).fds) ∧
    (∀ i j, ∀ fd ∈ (m.groups i).fds, fd ∈ (m.groups j).fds → i = j) ∧
    ∀ i, (m.groups i).fds.Nodup ∧ (m.groups i).Whole := by
  have sound : m.Sound := by
    induction reach with
    | start => exact Machine.sound_initial
    | next _ run ih => exact Machine.step_sound fresh ih run
  exact ⟨sound.proper, sound.owned.held_iff, sound.owned.apart,
    fun i => ⟨sound.owned.distinct i, sound.whole i⟩⟩

end Machine

/-- A descriptor above all that were ever opened. -/
def nextFd (trace : List Syscall) : ℕ :=
  trace.foldl (fun next call =>
    match call with
    | .perfEventOpen _ _ (.ok fd) => max next (fd + 1)
    | _ => next) 3

theorem lt_nextFd (trace : List Syscall) : ∀ fd ∈ opened trace, fd < nextFd trace := by
  induction trace using List.reverseRecOn with
  | nil => exact fun _ no => no.elim
  | append_singleton trace call below =>
      have next : nextFd trace ≤ nextFd (trace ++ [call]) := by
        rw [nextFd, nextFd, List.foldl_append, List.foldl_cons, List.foldl_nil]
        split
        · exact Nat.le_max_left _ _
        · exact Nat.le_refl _
      intro fd member
      rw [opened_append] at member
      have earlier : fd ∈ opened trace → fd < nextFd (trace ++ [call]) :=
        fun old => (below fd old).trans_le next
      cases call with
      | perfEventOpen attr groupFd answer =>
          cases answer with
          | error errno => exact earlier member
          | ok new =>
              rcases member with rfl | old
              · rw [nextFd, List.foldl_append, List.foldl_cons, List.foldl_nil]
                exact Nat.lt_of_lt_of_le (Nat.lt_succ_self fd) (Nat.le_max_right _ _)
              · exact earlier old
      | ioctl fd request answer => exact earlier member
      | read fd answer => exact earlier member
      | close fd => exact earlier member.1

def sampleOs : Os where
  perfEventOpen trace _ _ := .ok (nextFd trace)
  ioctl _ _ _ := none
  read _ _ := .value ⟨9, 1, 1⟩

theorem sampleOs_fresh : sampleOs.Fresh := by
  intro trace attr groupFd fd answer member
  cases answer
  exact absurd (lt_nextFd trace _ member) (Nat.lt_irrefl _)

def sampleOperations : List (Operation (Fin 3)) :=
  [.openGroup 0 [cyclesEvent, ⟨"instructions", 0, 1⟩], .start 0, .openGroup 2 [cyclesEvent],
    .moveAssign 1 0 [], .stopAndRead 1, .destroy 1]

def sampleMachine : Machine (Fin 3) :=
  (runAll (Machine.step sampleOs) Machine.initial sampleOperations).getD Machine.initial

theorem sample_groups_own : Proper ∅ (descriptorEvents sampleMachine.trace) ∧
    (∀ fd, fd ∈ opened sampleMachine.trace ↔ ∃ i, fd ∈ (sampleMachine.groups i).fds) ∧
    (∀ i j, ∀ fd ∈ (sampleMachine.groups i).fds, fd ∈ (sampleMachine.groups j).fds → i = j) ∧
    ∀ i, (sampleMachine.groups i).fds.Nodup ∧ (sampleMachine.groups i).Whole := by
  have run : runAll (Machine.step sampleOs) Machine.initial sampleOperations = some sampleMachine := rfl
  exact groups_own sampleOs_fresh (Reach.start.runAll run)

end Pfng.Bench.Counters
