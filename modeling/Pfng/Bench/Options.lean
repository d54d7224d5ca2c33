import Pfng.Bench.Arguments

/-! The arguments of the program. An option is one word, or a word and the next one as its value; what
`main` keeps of them is what each option leaves in turn. -/
namespace Pfng.Bench
open Numerals

/-- The variables of `main` that its arguments set. -/
structure Options where
  request : BenchmarkRequest
  selected : List Char
  list : Bool
  buildInfo : Bool
  platformInfo : Bool
  checkPlatform : Bool
  perfEventsExplicit : Bool

def Options.start : Options where
  request := ⟨0, 0, 0, 3, 10, 0, 1, 100000000, 1, true, [cyclesEvent]⟩
  selected := "all".toList
  list := false
  buildInfo := false
  platformInfo := false
  checkPlatform := false
  perfEventsExplicit := false

/-- How the arguments are refused; `main` returns 2. -/
inductive Refusal
  | usage
  | invalidEvent (text : List Char)
  deriving DecidableEq

/-- The options of one word. -/
inductive Flag
  | list | buildInfo | platformInfo | checkPlatform | noVerify

/-- The options whose value is a size. -/
inductive SizeOption
  | m | n | k | warmup | samples | iterations | threads
  deriving DecidableEq

inductive OptionName
  | flag (flag : Flag) | kernel | size (option : SizeOption) | perfEvents

/-- The comparisons of `argument`. -/
def optionName (argument : List Char) : Option OptionName :=
  if argument = "--list".toList then some (.flag .list)
  else if argument = "--build-info".toList then some (.flag .buildInfo)
  else if argument = "--platform-info".toList then some (.flag .platformInfo)
  else if argument = "--check-platform".toList then some (.flag .checkPlatform)
  else if argument = "--no-verify".toList then some (.flag .noVerify)
  else if argument = "--kernel".toList then some .kernel
  else if argument = "--m".toList then some (.size .m)
  else if argument = "--n".toList then some (.size .n)
  else if argument = "--k".toList then some (.size .k)
  else if argument = "--warmup".toList then some (.size .warmup)
  else if argument = "--samples".toList then some (.size .samples)
  else if argument = "--iterations".toList then some (.size .iterations)
  else if argument = "--threads".toList then some (.size .threads)
  else if argument = "--perf-events".toList ∨ argument = "--perf-event".toList then some .perfEvents
  else none

def Flag.set (options : Options) : Flag → Options
  | .list => { options with list := true }
  | .buildInfo => { options with buildInfo := true }
  | .platformInfo => { options with platformInfo := true }
  | .checkPlatform => { options with checkPlatform := true }
  | .noVerify => { options with request := { options.request with verify := false } }

def SizeOption.put (request : BenchmarkRequest) (value : ℕ) : SizeOption → BenchmarkRequest
  | .m => { request with m := value }
  | .n => { request with n := value }
  | .k => { request with k := value }
  | .warmup => { request with warmupIterations := value }
  | .samples => { request with samples := value }
  | .iterations => { request with iterations := value }
  | .threads => { request with threads := value }

/-- An option and its value. A size that `parse_size` refuses, or too many threads, falls through to
the last branch. -/
def Options.valued (kBuildMaxThreads : ℕ) (options : Options) (value : List Char) :
    OptionName → Except Refusal Options
  | .flag _ => .error .usage
  | .kernel => .ok { options with selected := value }
  | .size option =>
      match parseSize value with
      | none => .error .usage
      | some size =>
          if option = .threads ∧ kBuildMaxThreads < size then .error .usage
          else .ok { options with request := option.put options.request size }
  | .perfEvents =>
      let perf := PerfOptions.option ⟨options.perfEventsExplicit, options.request.perfEvents⟩ value
      if !perf.1 then .error (.invalidEvent value)
      else .ok { options with
        perfEventsExplicit := perf.2.explicit
        request := { options.request with perfEvents := perf.2.events } }

/-- The loop over `argv`, without the program's name. -/
def readArguments (kBuildMaxThreads : ℕ) (options : Options) :
    List (List Char) → Except Refusal Options
  | [] => .ok options
  | [argument] =>
      match optionName argument with
      | some (.flag flag) => .ok (flag.set options)
      | _ => .error .usage
  | argument :: value :: rest =>
      match optionName argument with
      | none => .error .usage
      | some (.flag flag) => readArguments kBuildMaxThreads (flag.set options) (value :: rest)
      | some option =>
          match options.valued kBuildMaxThreads value option with
          | .error refusal => .error refusal
          | .ok options => readArguments kBuildMaxThreads options rest

/-- The arguments cut into options, from the variables before to those after. -/
inductive Reads (kBuildMaxThreads : ℕ) : Options → List (List Char) → Options → Prop
  | done {options : Options} : Reads kBuildMaxThreads options [] options
  | flag {options after : Options} {argument : List Char} {rest : List (List Char)} {flag : Flag}
      (name : optionName argument = some (.flag flag))
      (later : Reads kBuildMaxThreads (flag.set options) rest after) :
      Reads kBuildMaxThreads options (argument :: rest) after
  | valued {options next after : Options} {argument value : List Char} {rest : List (List Char)}
      {option : OptionName} (name : optionName argument = some option)
      (takes : options.valued kBuildMaxThreads value option = .ok next)
      (later : Reads kBuildMaxThreads next rest after) :
      Reads kBuildMaxThreads options (argument :: value :: rest) after

section Reading

variable {kBuildMaxThreads : ℕ} {options after : Options} {arguments : List (List Char)}

theorem reads_of_read (read : readArguments kBuildMaxThreads options arguments = .ok after) :
    Reads kBuildMaxThreads options arguments after := by
  induction options, arguments using readArguments.induct kBuildMaxThreads with
  | case1 options =>
      cases read
      exact .done
  | case2 options argument flag name =>
      simp only [readArguments, name] at read
      cases read
      exact .flag name .done
  | case3 options argument other =>
      simp only [readArguments] at read
      cases read
  | case4 options argument value rest none_ =>
      simp [readArguments, none_] at read
  | case5 options argument value rest flag name ih =>
      simp only [readArguments, name] at read
      exact .flag name (ih read)
  | case6 options argument value rest option other name refusal refused =>
      simp [readArguments, name, refused] at read
  | case7 options argument value rest option other name next takes ih =>
      simp only [readArguments, name, takes] at read
      exact .valued name takes (ih read)

theorem Reads.read (reads : Reads kBuildMaxThreads options arguments after) :
    readArguments kBuildMaxThreads options arguments = .ok after := by
  induction reads with
  | done => rfl
  | @flag options after argument rest flag name later ih =>
      cases rest with
      | nil =>
          simp only [readArguments, name]
          exact ih
      | cons value rest =>
          simp only [readArguments, name]
          exact ih
  | @valued options next after argument value rest option name takes later ih =>
      cases option with
      | flag flag => cases takes
      | _ => simp only [readArguments, name, takes, ih]

theorem readArguments_iff : readArguments kBuildMaxThreads options arguments = .ok after ↔
    Reads kBuildMaxThreads options arguments after :=
  ⟨reads_of_read, Reads.read⟩

end Reading

/-- What holds of the variables whatever the arguments are. -/
structure Options.Sound (kBuildMaxThreads : ℕ) (options : Options) : Prop where
  shape : options.request.m < 2 ^ 64 ∧ options.request.n < 2 ^ 64 ∧ options.request.k < 2 ^ 64
  warmup : 1 ≤ options.request.warmupIterations ∧ options.request.warmupIterations < 2 ^ 64
  samples : 1 ≤ options.request.samples ∧ options.request.samples < 2 ^ 64
  iterations : options.request.iterations < 2 ^ 64
  threads : 1 ≤ options.request.threads ∧ options.request.threads ≤ max 1 kBuildMaxThreads
  fixed : options.request.targetCycles = 100000000 ∧ options.request.seed = 1
  distinct : NamesDistinct options.request.perfEvents

section Soundness

variable {kBuildMaxThreads : ℕ} {options next after : Options} {arguments : List (List Char)}

theorem parseSize_range {text : List Char} {v : ℕ} (h : parseSize text = some v) : 1 ≤ v ∧ v < 2 ^ 64 := by
  rw [parseSize] at h
  split_ifs at h with bad
  cases h
  simp only [not_or, not_lt] at bad
  omega

theorem Options.sound_start : Options.start.Sound kBuildMaxThreads where
  shape := by decide
  warmup := by decide
  samples := by decide
  iterations := by decide
  threads := ⟨Nat.le_refl _, Nat.le_max_left _ _⟩
  fixed := ⟨rfl, rfl⟩
  distinct := List.nodup_singleton _

theorem Options.Sound.flag (sound : options.Sound kBuildMaxThreads) (flag : Flag) :
    (flag.set options).Sound kBuildMaxThreads := by
  cases flag <;>
    exact ⟨sound.shape, sound.warmup, sound.samples, sound.iterations, sound.threads, sound.fixed,
      sound.distinct⟩

theorem Options.Sound.size (sound : options.Sound kBuildMaxThreads) {option : SizeOption} {size : ℕ}
    (range : 1 ≤ size ∧ size < 2 ^ 64) (few : ¬(option = .threads ∧ kBuildMaxThreads < size)) :
    Options.Sound kBuildMaxThreads { options with request := option.put options.request size } := by
  obtain ⟨⟨hm, hn, hk⟩, warmup, samples, iterations, threads, fixed, distinct⟩ := sound
  cases option with
  | m => exact ⟨⟨range.2, hn, hk⟩, warmup, samples, iterations, threads, fixed, distinct⟩
  | n => exact ⟨⟨hm, range.2, hk⟩, warmup, samples, iterations, threads, fixed, distinct⟩
  | k => exact ⟨⟨hm, hn, range.2⟩, warmup, samples, iterations, threads, fixed, distinct⟩
  | warmup => exact ⟨⟨hm, hn, hk⟩, range, samples, iterations, threads, fixed, distinct⟩
  | samples => exact ⟨⟨hm, hn, hk⟩, warmup, range, iterations, threads, fixed, distinct⟩
  | iterations => exact ⟨⟨hm, hn, hk⟩, warmup, samples, range.2, threads, fixed, distinct⟩
  | threads =>
      have bound : size ≤ kBuildMaxThreads := not_lt.mp fun large => few ⟨rfl, large⟩
      exact ⟨⟨hm, hn, hk⟩, warmup, samples, iterations, ⟨range.1, bound.trans (Nat.le_max_right _ _)⟩,
        fixed, distinct⟩

theorem Options.Sound.valued (sound : options.Sound kBuildMaxThreads) {value : List Char}
    {option : OptionName} (takes : options.valued kBuildMaxThreads value option = .ok next) :
    next.Sound kBuildMaxThreads := by
  cases option with
  | flag flag => cases takes
  | kernel =>
      cases takes
      exact ⟨sound.shape, sound.warmup, sound.samples, sound.iterations, sound.threads, sound.fixed,
        sound.distinct⟩
  | size option =>
      rw [Options.valued] at takes
      cases parsed : parseSize value with
      | none => simp [parsed] at takes
      | some size =>
          simp only [parsed] at takes
          split_ifs at takes with many
          cases takes
          exact sound.size (parseSize_range parsed) many
  | perfEvents =>
      rw [Options.valued] at takes
      split_ifs at takes
      cases takes
      refine ⟨sound.shape, sound.warmup, sound.samples, sound.iterations, sound.threads, sound.fixed, ?_⟩
      -- the first list replaces the events, the others are appended
      refine appendPerfEvents_distinct ?_
      cases options.perfEventsExplicit with
      | true => exact sound.distinct
      | false => exact List.nodup_nil

theorem Reads.sound (reads : Reads kBuildMaxThreads options arguments after)
    (sound : options.Sound kBuildMaxThreads) : after.Sound kBuildMaxThreads := by
  induction reads with
  | done => exact sound
  | @flag _ _ _ _ flag _ _ ih => exact ih (sound.flag flag)
  | valued _ takes _ ih => exact ih (sound.valued takes)

end Soundness

end Pfng.Bench
