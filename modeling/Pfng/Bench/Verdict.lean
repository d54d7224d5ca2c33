import Mathlib.Data.Rat.Floor
import Mathlib.Data.Nat.Digits.Defs
import Mathlib.Tactic.IntervalCases
import Pfng.Bench.Run

/-! When the verification of `run_benchmark` accepts exactly the correct outputs. -/
namespace Pfng.Bench
open Finset Extended

section Element

variable {α : Type} [Field α] [LinearOrder α]

/-- Both finite, with a small absolute or relative difference. -/
def Close : Float32 α → Float32 α → Prop
  | .finite x, .finite y =>
      |x - y| ≤ 1 / 1000 ∨ |x - y| / max |y| (1 / 1000000) ≤ 1 / 1000
  | _, _ => False

instance (a e : Float32 α) : Decidable (Close a e) := by
  cases a <;> cases e <;> unfold Close <;> infer_instance

def Good (a e : Float32 α) : Prop := a.equal e = true ∨ (a = .nan ∧ e = .nan) ∨ Close a e

instance (a e : Float32 α) : Decidable (Good a e) := inferInstanceAs (Decidable (_ ∨ _ ∨ _))

def Clean (a e : Float32 α) : Prop := (a = .nan ↔ e = .nan) ∧ ∀ s, e = .infinite s → a = .infinite s

variable [IsStrictOrderedRing α]

omit [IsStrictOrderedRing α] in
theorem differs_eq (a e : Float32 α) : differs a e =
    ((finite (1 / 1000)).lt (a.sub e).fabs &&
      (finite (1 / 1000)).lt ((a.sub e).fabs.div (e.fabs.stdMax (finite (1 / 1000000))))) := rfl

theorem differs_finite (x y : α) : differs (finite x) (finite y) = true ↔
    1 / 1000 < |x - y| ∧ 1 / 1000 < |x - y| / max |y| (1 / 1000000) := by
  have pos : (0 : α) < max |y| (1 / 1000000) := lt_max_of_lt_right (by norm_num)
  rw [differs_eq, fabs_finite, stdMax_finite, sub_finite, fabs_finite, div_finite _ pos.ne']
  simp only [lt_finite, Bool.and_eq_true, decide_eq_true_eq]

theorem differs_infinite (s : Bool) (y : α) : differs (infinite s) (finite y) = true := by
  rw [differs_eq, fabs_finite, stdMax_finite]
  simp

omit [IsStrictOrderedRing α] in
theorem differs_of_infinite (a : Float32 α) (t : Bool) : differs a (infinite t) = false := by
  cases a with
  | finite x => simp [differs_eq, stdMax]
  | infinite s => cases s <;> cases t <;> simp [differs_eq, stdMax]
  | nan => simp [differs_eq]

omit [IsStrictOrderedRing α] in
theorem differs_nan (e : Float32 α) : differs nan e = false := by simp [differs_eq]

omit [IsStrictOrderedRing α] in
theorem differs_of_nan (a : Float32 α) : differs a nan = false := by simp [differs_eq]

theorem good_finite_iff (x y : α) : Good (finite x) (finite y) ↔ ¬ differs (finite x) (finite y) = true := by
  rw [differs_finite, not_and_or, not_lt, not_lt]
  constructor
  · rintro (same | ⟨no, _⟩ | close)
    · have eq : x = y := by simpa [equal] using same
      left
      rw [eq, sub_self, abs_zero]
      norm_num
    · cases no
    · exact close
  · intro close
    exact .inr (.inr close)

theorem not_good_of_differs {a e : Float32 α} (h : differs a e = true) : ¬ Good a e := by
  cases e with
  | finite y =>
      cases a with
      | finite x => exact fun good => (good_finite_iff x y).mp good h
      | infinite s => simp [Good, equal, Close]
      | nan => simp [differs_nan] at h
  | infinite t => simp [differs_of_infinite] at h
  | nan => simp [differs_of_nan] at h

/-- The loop counts every wrong pair just when the pair is clean. -/
theorem clean_iff (a e : Float32 α) : Clean a e ↔ (¬ Good a e → differs a e = true) := by
  cases e with
  | finite y =>
      cases a with
      | finite x =>
          refine iff_of_true (by simp [Clean]) fun bad => ?_
          rw [good_finite_iff, not_not] at bad
          exact bad
      | infinite s => exact iff_of_true (by simp [Clean]) fun _ => differs_infinite s y
      | nan => simp [Clean, Good, equal, Close, differs_nan]
  | infinite t =>
      rw [differs_of_infinite]
      cases a with
      | finite x => simp [Clean, Good, equal, Close]
      | infinite s => simp [Clean, Good, equal, Close]
      | nan => simp [Clean, Good, equal, Close]
  | nan =>
      rw [differs_of_nan]
      cases a with
      | finite x => simp [Clean, Good, equal, Close]
      | infinite s => simp [Clean, Good, equal, Close]
      | nan => simp [Clean, Good]

end Element

section Run

variable {α S I : Type} [Field α] [LinearOrder α]

def actual (kernel : KernelRegistration α S I) (state : S) : ℕ → Float32 α :=
  (kernel.callbacks.exportOutput (kernel.callbacks.run (kernel.callbacks.reset state) 1)).2

/-- The result after the comparison loop. -/
def compared (env : Environment α I) (kernel : KernelRegistration α S I)
    (request : BenchmarkRequest) (input : I) (state : S) : BenchmarkResult α :=
  compare env.g9 (actual kernel state) (env.compute kernel.quantization input) (elements request)
    (startComparison (elements request) .empty)

/-- The run gets to the comparison loop. -/
structure Reaches (env : Environment α I) (kernel : KernelRegistration α S I)
    (request : BenchmarkRequest) (input : I) (state : S) : Prop where
  platform : kernelSupportsPlatform kernel env.target = true
  valid : (kernel.callbacks.validate request).supported = true
  prepared : (kernel.callbacks.prepare request input).state = some state
  verify : request.verify = true
  exported : (kernel.callbacks.exportOutput
    (kernel.callbacks.run (kernel.callbacks.reset state) 1)).1.success = true

/-- The message starts with the text of an error at index `i`. -/
def Names (i : ℕ) (message : String) : Prop := ∃ rest, message.toList =
  ("output differs from llama.cpp reference at index " ++ toString i ++ ": actual=").toList ++ rest

omit [Field α] [LinearOrder α] in
theorem detail_names (g9 : Float32 α → String) {i : ℕ} (h : i < 2^64) (a e : Float32 α) :
    Names i (detail g9 i a e) := by
  have digits : (toString i).toList.length ≤ 20 := by
    have : (Nat.repr i).length ≤ 20 := (Nat.length_repr_le_iff (by decide)).mpr (by omega)
    rwa [← String.length_toList] at this
  have fits : ("output differs from llama.cpp reference at index " ++ toString i ++
      ": actual=").toList.length ≤ 159 := by
    simp only [String.toList_append, List.length_append]
    have : "output differs from llama.cpp reference at index ".toList.length = 49 := by decide
    have : ": actual=".toList.length = 9 := by decide
    omega
  rw [Names, detail, snprintf, String.toList_ofList, String.toList_append, String.toList_append,
    String.toList_append, List.append_assoc, List.append_assoc, List.take_append,
    List.take_of_length_le fits]
  exact ⟨_, rfl⟩

omit [Field α] [LinearOrder α] in
theorem detail_ne_empty (g9 : Float32 α → String) {i : ℕ} (h : i < 2^64) (a e : Float32 α) :
    detail g9 i a e ≠ "" := by
  obtain ⟨rest, text⟩ := detail_names g9 h a e
  intro none
  rw [none, String.toList_append, String.toList_append] at text
  have := congrArg List.length text
  simp at this

variable {env : Environment α I} {kernel : KernelRegistration α S I}
variable {request : BenchmarkRequest} {input : I} {state : S}

theorem elements_lt (request : BenchmarkRequest) : elements request < 2^64 :=
  Nat.mod_lt _ (Nat.two_pow_pos 64)

theorem compared_counted (env : Environment α I) (kernel : KernelRegistration α S I)
    (request : BenchmarkRequest) (input : I) (state : S) :
    Counted env.g9 (actual kernel state) (env.compute kernel.quantization input) (elements request)
      (compared env kernel request input state) := counted _

theorem run_rejected [FloorRing α] (reaches : Reaches env kernel request input state)
    (failed : (compared env kernel request input state).verificationPassed = false) :
    (runBenchmark env kernel request input).2 =
      [.validate, .prepare, .reset, .run 1, .exportOutput, .compute, .destroy] ∧
    (runBenchmark env kernel request input).1.message =
      (compared env kernel request input state).message := by
  obtain ⟨i, hi, _, _, text⟩ := (compared_counted env kernel request input state).found failed
  have small : i < 2^64 := hi.trans (elements_lt request)
  have filled : (compared env kernel request input state).message ≠ "" := by
    rw [text]
    exact detail_ne_empty env.g9 small _ _
  rw [compared, actual] at failed filled
  simp [runBenchmark, reaches.platform, reaches.valid, reaches.prepared, reaches.verify, verification,
    World.reset, World.run, World.call, reaches.exported, failed, filled, compared, actual, Except.bind]

/-- The output element agrees with the reference. -/
def GoodAt (env : Environment α I) (kernel : KernelRegistration α S I) (input : I) (state : S)
    (i : ℕ) : Prop :=
  Good (actual kernel state i) (env.compute kernel.quantization input i)

instance (i : ℕ) : Decidable (GoodAt env kernel input state i) :=
  inferInstanceAs (Decidable (Good _ _))

/-- The run accepts exactly the correct outputs. -/
structure Sound [FloorRing α] (env : Environment α I) (kernel : KernelRegistration α S I)
    (request : BenchmarkRequest) (input : I) (state : S) : Prop where
  passed : (compared env kernel request input state).verificationPassed = true ↔
    ∀ i < elements request, GoodAt env kernel input state i
  errors : (compared env kernel request input state).errorElements =
    #{i ∈ range (elements request) | ¬ GoodAt env kernel input state i}
  rejected : (compared env kernel request input state).errorElements ≠ 0 →
    (runBenchmark env kernel request input).1.message ≠ "" ∧
    (∃ i < elements request, ¬ GoodAt env kernel input state i ∧
      (∀ j < i, GoodAt env kernel input state j) ∧
      Names i (runBenchmark env kernel request input).1.message) ∧
    (runBenchmark env kernel request input).2 =
      [.validate, .prepare, .reset, .run 1, .exportOutput, .compute, .destroy]

/-- Where the loop counts exactly the wrong elements, the run is sound. -/
theorem sound_of_agree [FloorRing α] (reaches : Reaches env kernel request input state)
    (agree : ∀ i < elements request, differs (actual kernel state i)
      (env.compute kernel.quantization input i) = true ↔ ¬ GoodAt env kernel input state i) :
    Sound env kernel request input state := by
  have loop := compared_counted env kernel request input state
  have errors : (compared env kernel request input state).errorElements =
      #{i ∈ range (elements request) | ¬ GoodAt env kernel input state i} := by
    rw [loop.errors]
    exact congrArg card (filter_congr fun i hi => agree i (mem_range.mp hi))
  have passed : (compared env kernel request input state).verificationPassed = true ↔
      ∀ i < elements request, GoodAt env kernel input state i := by
    constructor
    · intro yes i hi
      have right := (loop.clean yes).2 i hi
      by_contra bad
      rw [(agree i hi).mpr bad] at right
      cases right
    · intro good
      by_contra failed
      obtain ⟨i, hi, bad, _⟩ := loop.found (by simpa using failed)
      exact (agree i hi).mp bad (good i hi)
  refine ⟨passed, errors, fun some => ?_⟩
  have failed : (compared env kernel request input state).verificationPassed = false := by
    by_contra yes
    have good := passed.mp (by simpa using yes)
    apply some
    rw [errors, card_eq_zero, filter_eq_empty_iff]
    intro i hi
    exact not_not.mpr (good i (mem_range.mp hi))
  obtain ⟨calls, message⟩ := run_rejected reaches failed
  obtain ⟨i, hi, bad, first, text⟩ := loop.found failed
  have small : i < 2^64 := hi.trans (elements_lt request)
  rw [message, text]
  refine ⟨detail_ne_empty env.g9 small _ _, ⟨i, hi, (agree i hi).mp bad, fun j hj => ?_,
    detail_names env.g9 small _ _⟩, calls⟩
  by_contra wrong
  have right := first j hj
  rw [(agree j (hj.trans hi)).mpr wrong] at right
  cases right

/-- The verification is right just when no element has NaN on one side only, or an infinite
reference that is not met. -/
theorem verification_sound_iff [FloorRing α] [IsStrictOrderedRing α]
    (reaches : Reaches env kernel request input state) :
    Sound env kernel request input state ↔ ∀ i < elements request,
      Clean (actual kernel state i) (env.compute kernel.quantization input i) := by
  constructor
  · intro sound i hi
    rw [clean_iff]
    intro bad
    have loop := (compared_counted env kernel request input state).errors
    have subset : {i ∈ range (elements request) |
        differs (actual kernel state i) (env.compute kernel.quantization input i)} ⊆
        {i ∈ range (elements request) | ¬ GoodAt env kernel input state i} :=
      monotone_filter_right _ fun i _ => not_good_of_differs
    have same := eq_of_subset_of_card_le subset (by rw [← sound.errors, ← loop])
    have member : i ∈ ({i ∈ range (elements request) | ¬ GoodAt env kernel input state i} :
        Finset ℕ) := mem_filter.mpr ⟨mem_range.mpr hi, bad⟩
    rw [← same] at member
    exact (mem_filter.mp member).2
  · intro clean
    exact sound_of_agree reaches fun i hi =>
      ⟨not_good_of_differs, (clean_iff _ _).mp (clean i hi)⟩

end Run

/-- A kernel whose every output element is `x`. -/
def constantKernel (x : Float32 ℚ) : KernelRegistration ℚ Unit Unit where
  quantization := .weightQ4_0ActivationQ8_0
  platform := .spacemitK1A60
  callbacks := {
    peakPerformance := fun _ => ⟨1, 1, "MAC"⟩
    validate := fun _ => ⟨true, ""⟩
    prepare := fun _ _ => ⟨some (), ""⟩
    reset := id
    run := fun s _ => s
    exportOutput := fun _ => (⟨true, ""⟩, fun _ => x)
    checksum := fun _ => 0 }

/-- A reference whose every element is `y`. -/
def constantReference (y : Float32 ℚ) : Environment ℚ Unit where
  target := .spacemitK1A60
  compute := fun _ _ _ => y
  perf := ⟨fun _ _ => none, fun _ => none, fun _ => .ok fun _ => ⟨1, 1, 1⟩⟩
  g9 := fun _ => "0"
  f3 := fun _ => "0.000"

def oneElement : BenchmarkRequest where
  m := 1
  n := 1
  k := 32
  warmupIterations := 3
  samples := 10
  iterations := 1
  threads := 1
  targetCycles := 100000000
  seed := 1
  verify := true
  perfEvents := [cyclesEvent]

/-- NaN passes against 0, and 0 passes against infinity. -/
theorem nan_accepted :
    (compared (constantReference (finite 0)) (constantKernel nan) oneElement () ()).verificationPassed =
      true ∧
    ¬ GoodAt (constantReference (finite 0)) (constantKernel nan) () () 0 ∧
    ¬ Sound (constantReference (finite 0)) (constantKernel nan) oneElement () () ∧
    (compared (constantReference (infinite false)) (constantKernel (finite 0)) oneElement ()
      ()).verificationPassed = true ∧
    ¬ GoodAt (constantReference (infinite false)) (constantKernel (finite 0)) () () 0 := by
  have passed : (compared (constantReference (finite 0)) (constantKernel nan) oneElement ()
      ()).verificationPassed = true := by decide
  have wrong : ¬ GoodAt (constantReference (finite 0)) (constantKernel nan) () () 0 := by decide
  refine ⟨passed, wrong, fun sound => ?_, by decide, by decide⟩
  exact wrong (sound.passed.mp passed 0 (by decide))

/-- What a kernel exports and what the reference has: equal, within the tolerance, wrong, both NaN, both
infinite, and infinite against zero. -/
def sixPairs : List (Float32 ℚ × Float32 ℚ) :=
  [(finite 1, finite 1), (finite (20001 / 10000), finite 2), (finite 3, finite 2), (nan, nan),
    (infinite true, infinite true), (infinite false, finite 0)]

def sixKernel : KernelRegistration ℚ Unit Unit :=
  { constantKernel nan with
    callbacks := { (constantKernel nan).callbacks with
      exportOutput := fun _ => (⟨true, ""⟩, fun i => (sixPairs.getD i (nan, nan)).1) } }

def sixReference : Environment ℚ Unit :=
  { constantReference nan with compute := fun _ _ i => (sixPairs.getD i (nan, nan)).2 }

def sixElements : BenchmarkRequest := { oneElement with m := 2, n := 3 }

/-- Outputs with two errors among six elements are judged right. -/
theorem six_judged : (compared sixReference sixKernel sixElements () ()).errorElements = 2 ∧
    Sound sixReference sixKernel sixElements () () := by
  have reaches : Reaches sixReference sixKernel sixElements () () := ⟨rfl, rfl, rfl, rfl, rfl⟩
  refine ⟨by decide +kernel, (verification_sound_iff reaches).mpr fun i h => ?_⟩
  have below : i < 6 := h
  interval_cases i <;> simp [Clean, actual, sixKernel, sixReference, sixPairs]

end Pfng.Bench
