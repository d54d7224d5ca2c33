import Mathlib.Algebra.BigOperators.Group.Finset.Basic
import Mathlib.Tactic.NormNum
import Pfng.Lib.Extended

/-! The comparison loop of `run_benchmark`. -/
namespace Pfng.Bench
open Finset

variable {α : Type} [Field α] [LinearOrder α]

abbrev Float32 (α : Type) := Extended α

instance atLeastTwo_1000 : Nat.AtLeastTwo 1000 := ⟨by decide⟩
instance atLeastTwo_1000000 : Nat.AtLeastTwo 1000000 := ⟨by decide⟩

structure PerfMetricResult (α : Type) where
  name : String
  minPerIteration : α
  medianPerIteration : α
  minRunningPercent : α

/-- `BenchmarkResult`. -/
structure BenchmarkResult (α : Type) where
  skipped : Bool
  verified : Bool
  verificationPassed : Bool
  message : String
  minCycles : ℕ
  medianCycles : ℕ
  perfMetrics : List (PerfMetricResult α)
  iterations : ℕ
  checksum : α
  operationsPerCycle : α
  peakOperationsPerCycle : α
  operationName : String
  utilizationPercent : α
  maxAbsoluteError : Float32 α
  maxRelativeError : Float32 α
  errorElements : ℕ
  comparedElements : ℕ
  errorElementRatio : α

/-- The default members. -/
def BenchmarkResult.empty : BenchmarkResult α where
  skipped := false
  verified := false
  verificationPassed := false
  message := ""
  minCycles := 0
  medianCycles := 0
  perfMetrics := []
  iterations := 0
  checksum := 0
  operationsPerCycle := 0
  peakOperationsPerCycle := 0
  operationName := ""
  utilizationPercent := 0
  maxAbsoluteError := .finite 0
  maxRelativeError := .finite 0
  errorElements := 0
  comparedElements := 0
  errorElementRatio := 0

/-- `snprintf` into a buffer of `size` characters, the last of which ends the text. -/
def snprintf (size : ℕ) (text : String) : String := String.ofList (text.toList.take (size - 1))

/-- `1.0e-3f`. -/
def tolerance : Float32 α := .finite (1 / 1000)

/-- `1.0e-6f`. -/
def smallest : Float32 α := .finite (1 / 1000000)

def absoluteError (actual expected : Float32 α) : Float32 α := (actual.sub expected).fabs

def relativeError (actual expected : Float32 α) : Float32 α :=
  (absoluteError actual expected).div (expected.fabs.stdMax smallest)

def differs (actual expected : Float32 α) : Bool :=
  tolerance.lt (absoluteError actual expected) && tolerance.lt (relativeError actual expected)

/-- The text of the first error; `g9` prints a float with `%.9g`. -/
def detail (g9 : Float32 α → String) (i : ℕ) (actual expected : Float32 α) : String :=
  snprintf 160 ("output differs from llama.cpp reference at index " ++ toString i ++ ": actual=" ++
    g9 actual ++ " expected=" ++ g9 expected)

/-- One round of the loop. -/
def compareElement (g9 : Float32 α → String) (actual expected : ℕ → Float32 α)
    (result : BenchmarkResult α) (i : ℕ) : BenchmarkResult α :=
  let absolute := absoluteError (actual i) (expected i)
  let relative := relativeError (actual i) (expected i)
  let result := { result with
    maxAbsoluteError := result.maxAbsoluteError.stdMax absolute
    maxRelativeError := result.maxRelativeError.stdMax relative }
  if differs (actual i) (expected i) then
    { result with
      message :=
        if result.verificationPassed then detail g9 i (actual i) (expected i) else result.message
      verificationPassed := false
      errorElements := result.errorElements + 1 }
  else result

/-- The loop over `n` elements. -/
def compare (g9 : Float32 α → String) (actual expected : ℕ → Float32 α) (n : ℕ)
    (result : BenchmarkResult α) : BenchmarkResult α :=
  (List.range n).foldl (compareElement g9 actual expected) result

def startComparison (n : ℕ) (result : BenchmarkResult α) : BenchmarkResult α :=
  { result with verified := true, verificationPassed := true, comparedElements := n }

variable {g9 : Float32 α → String} {actual expected : ℕ → Float32 α}

theorem compare_succ (n : ℕ) (result : BenchmarkResult α) :
    compare g9 actual expected (n + 1) result =
      compareElement g9 actual expected (compare g9 actual expected n result) n := by
  rw [compare, List.range_succ, List.foldl_append]
  rfl

/-- What the loop knows after `n` rounds. -/
structure Counted (g9 : Float32 α → String) (actual expected : ℕ → Float32 α) (n : ℕ)
    (result : BenchmarkResult α) : Prop where
  errors : result.errorElements = #{i ∈ range n | differs (actual i) (expected i)}
  clean : result.verificationPassed = true → result.message = "" ∧
    ∀ i < n, differs (actual i) (expected i) = false
  found : result.verificationPassed = false → ∃ i < n, differs (actual i) (expected i) = true ∧
    (∀ j < i, differs (actual j) (expected j) = false) ∧
    result.message = detail g9 i (actual i) (expected i)

theorem Counted.next {n : ℕ} {result : BenchmarkResult α}
    (h : Counted g9 actual expected n result) :
    Counted g9 actual expected (n + 1) (compareElement g9 actual expected result n) := by
  cases bad : differs (actual n) (expected n) with
  | false =>
      constructor
      · simp only [compareElement, bad, range_add_one, filter_insert, Bool.false_eq_true, if_false]
        exact h.errors
      · intro passed
        simp only [compareElement, bad, Bool.false_eq_true, if_false] at passed ⊢
        refine ⟨(h.clean passed).1, fun i hi => ?_⟩
        rcases Nat.lt_succ_iff_lt_or_eq.mp hi with old | rfl
        · exact (h.clean passed).2 i old
        · exact bad
      · intro failed
        simp only [compareElement, bad, Bool.false_eq_true, if_false] at failed ⊢
        obtain ⟨i, hi, rest⟩ := h.found failed
        exact ⟨i, by omega, rest⟩
  | true =>
      constructor
      · simp only [compareElement, bad, range_add_one, filter_insert, if_true]
        rw [card_insert_of_notMem (by simp), h.errors]
      · intro passed
        simp [compareElement, bad] at passed
      · intro _
        simp only [compareElement, bad, if_true]
        cases before : result.verificationPassed with
        | true =>
            exact ⟨n, by omega, bad, (h.clean before).2, if_pos rfl⟩
        | false =>
            obtain ⟨i, hi, rest⟩ := h.found before
            exact ⟨i, by omega, rest⟩

theorem counted (n : ℕ) :
    Counted g9 actual expected n (compare g9 actual expected n (startComparison n .empty)) := by
  have run : ∀ m,
      Counted g9 actual expected m (compare g9 actual expected m (startComparison n .empty)) := by
    intro m
    induction m with
    | zero =>
        constructor
        · rfl
        · intro _
          exact ⟨rfl, fun i hi => absurd hi (Nat.not_lt_zero i)⟩
        · intro failed
          cases failed
    | succ m ih =>
        rw [compare_succ]
        exact ih.next
  exact run n

end Pfng.Bench
