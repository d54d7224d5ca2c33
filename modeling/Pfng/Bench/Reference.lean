import Pfng.Bench.Adapter
import Pfng.Iq2.VecDot
import Pfng.Q4K.Product
import Pfng.Quantizers

/-! The input of a run and the outputs that `llama_reference::compute` expects for it. -/
namespace Pfng.Bench
open Checked Function Quantizers

/-- `BenchmarkInput`: the shape, the activation, and the blocks of one column after those of another. -/
inductive BenchmarkInput (α : Type)
  | q40Q80 (m n k : ℕ) (activation : ℕ → α) (weight : ℕ → Q40.BlockQ40 α)
  | q4KQ8K (m n k : ℕ) (activation : ℕ → α) (weight : ℕ → BlockQ4K α)
  | iq2xxsQ8K (m n k : ℕ) (activation : ℕ → α) (weight : ℕ → BlockIq2xxs α)

/-- What `std::get_if` finds: the activation and the weight. -/
abbrev Data (α W : Type) := (ℕ → α) × (ℕ → W)

namespace BenchmarkInput

variable {α : Type}

def q40? : BenchmarkInput α → Option (Data α (Q40.BlockQ40 α))
  | q40Q80 _ _ _ activation weight => some (activation, weight)
  | _ => none

def q4K? : BenchmarkInput α → Option (Data α (BlockQ4K α))
  | q4KQ8K _ _ _ activation weight => some (activation, weight)
  | _ => none

def iq2xxs? : BenchmarkInput α → Option (Data α (BlockIq2xxs α))
  | iq2xxsQ8K _ _ _ activation weight => some (activation, weight)
  | _ => none

end BenchmarkInput

section Rows

variable {α β : Type}

/-- A quantiser of rows of `k` elements on `rows` rows, each into its own `blocks` blocks. -/
def quantizeRows (size : ℕ) (quantize : (ℕ → α) → Option β) (rows k blocks : ℕ) (input : ℕ → α) :
    (ℕ → β) → Option (ℕ → β) :=
  forUp (fun m => forUp (fun b output =>
    (quantize fun i => input (m * k + (b * size + i))).map (update output (m * blocks + b))) 0 blocks)
    0 rows

theorem quantizeRows_ends {size rows k blocks : ℕ} {quantize : (ℕ → α) → Option β}
    {P : (ℕ → α) → β → Prop} (each : ∀ x, Ends (quantize x) (P x)) (input : ℕ → α) (output : ℕ → β) :
    Ends (quantizeRows size quantize rows k blocks input output) fun output => ∀ m < rows,
      ∀ b < blocks, P (fun i => input (m * k + (b * size + i))) (output (m * blocks + b)) := by
  let done : ℕ → ℕ → (ℕ → β) → Prop := fun m b output =>
    P (fun i => input (m * k + (b * size + i))) (output (m * blocks + b))
  refine loop_ends (fun m output => ∀ m' < m, ∀ b < blocks, done m' b output)
    (fun _ no => absurd no (Nat.not_lt_zero _)) fun m _ output rows => ?_
  have row : Ends (forUp (fun b output => (quantize fun i => input (m * k + (b * size + i))).map
      (update output (m * blocks + b))) 0 blocks output) fun output =>
      (∀ m' < m, ∀ b < blocks, done m' b output) ∧ ∀ b < blocks, done m b output := by
    refine loop_ends (fun b output => (∀ m' < m, ∀ b < blocks, done m' b output) ∧
      ∀ b' < b, done m b' output) ⟨rows, fun _ no => absurd no (Nat.not_lt_zero _)⟩
      fun b hb output ⟨rows, row⟩ => (each _).map fun block known => ⟨fun m' hm' b' hb' => ?_, ?_⟩
    · have other : m' * blocks + b' ≠ m * blocks + b := fun same =>
        absurd (Layout.unique hb' hb same).1 (Nat.ne_of_lt hm')
      simp only [done, update_of_ne other]
      exact rows m' hm' b' hb'
    · intro b' hb'
      rcases Nat.lt_succ_iff_lt_or_eq.mp hb' with before | rfl
      · have other : m * blocks + b' ≠ m * blocks + b := by omega
        simp only [done, update_of_ne other]
        exact row b' before
      · simp only [done, update_self]
        exact known
  refine row.mono fun output ⟨rows, row⟩ m' hm' => ?_
  rcases Nat.lt_succ_iff_lt_or_eq.mp hm' with before | rfl
  · exact rows m' before
  · exact row

end Rows

variable {α : Type} [Field α] [LinearOrder α] [FloorRing α]

def quantizeQ80Rows (half : α → α) (m k blocks : ℕ) (activation : ℕ → α) :
    Option (ℕ → Q40.BlockQ80 α) :=
  quantizeRows 32 (quantizeQ80 half) m k blocks activation fun _ => ⟨0, fun _ => 0⟩

def quantizeQ8KRows (m k blocks : ℕ) (activation : ℕ → α) : Option (ℕ → SummedQ8K α) :=
  quantizeRows 256 quantizeQ8K m k blocks activation fun _ => ⟨⟨0, fun _ => 0⟩, fun _ => 0⟩

def dotQ4KQ8K (w : BlockQ4K α) (a : BlockQ8K α) : α :=
  let fields := Q4K.unpackScales w.scales
  a.d * (List.range 8).foldl (fun sum sb => (List.range 32).foldl (fun sum j =>
    let q := Q4K.dotQuant w sb j
    sum + (a.qs (sb * 32 + j)).toInt *
      (w.d * (fields.scales sb).toNat * q.toNat - w.dmin * (fields.mins sb).toNat)) sum) 0

/-- Element `i` of `compute_q4_0`. -/
def computeQ40 (half : α → α) (m n k : ℕ) (activation : ℕ → α) (weight : ℕ → Q40.BlockQ40 α) (i : ℕ) :
    Option α :=
  let blocks := k / 32
  (quantizeQ80Rows half m k blocks activation).map fun aq =>
    Q40.dotQ40Q80 (fun b => weight (i % n * blocks + b)) (fun b => aq (i / n * blocks + b)) blocks

/-- Element `i` of `compute_q4_K`. -/
def computeQ4K (m n k : ℕ) (activation : ℕ → α) (weight : ℕ → BlockQ4K α) (i : ℕ) : Option α :=
  let blocks := k / 256
  (quantizeQ8KRows m k blocks activation).map fun aq =>
    (List.range blocks).foldl (fun output b =>
      output + dotQ4KQ8K (weight (i % n * blocks + b)) (aq (i / n * blocks + b)).toBlockQ8K) 0

/-- Element `i` of `compute_iq2_xxs`. -/
def computeIq2xxs (m n k : ℕ) (activation : ℕ → α) (weight : ℕ → BlockIq2xxs α) (i : ℕ) : Option α :=
  let blocks := k / 256
  (quantizeQ8KRows m k blocks activation).bind fun aq =>
    Iq2.VecDot.computeElement (fun b => weight (i % n * blocks + b))
      (fun b => (aq (i / n * blocks + b)).toBlockQ8K) blocks

/-- `llama_reference::compute`. A NaN stands where it has no value; `prepare` has refused an input of
another type before. -/
def compute (half : α → α) (type : QuantizationType) (input : BenchmarkInput α) (i : ℕ) : Float32 α :=
  match type, input with
  | .weightQ4_0ActivationQ8_0, .q40Q80 m n k activation weight =>
      (computeQ40 half m n k activation weight i).elim .nan .finite
  | .weightQ4_KActivationQ8_K, .q4KQ8K m n k activation weight =>
      (computeQ4K m n k activation weight i).elim .nan .finite
  | .weightIQ2_XXSActivationQ8_K, .iq2xxsQ8K m n k activation weight =>
      (computeIq2xxs m n k activation weight i).elim .nan .finite
  | _, _ => .nan

/-- What is around a run: the build, the counters and the printing of numbers. `half` rounds a scale
to FP16. -/
structure Host (α : Type) where
  half : α → α
  target : PlatformId
  perf : PerfEventGroup
  g9 : Float32 α → String
  f3 : α → String

def Host.environment (host : Host α) : Environment α (BenchmarkInput α) where
  target := host.target
  compute := compute host.half
  perf := host.perf
  g9 := host.g9
  f3 := host.f3

/-- The report of a run is without fault, and its checksum is that of the reference. -/
def Confirmed {B M : Type} (host : Host α) (adapter : Adapter α (BenchmarkInput α) B M)
    (undefined : M → M) (request : BenchmarkRequest) (input : BenchmarkInput α) : Prop :=
  ∃ value, (∀ i < request.m * request.n, compute host.half adapter.quantization input i =
      .finite (value i)) ∧
    Reports request value (runBenchmark host.environment
      (adapter.registration undefined host.target request) request input)

section Confirmed

variable {B M : Type} {host : Host α} {adapter : Adapter α (BenchmarkInput α) B M} {undefined : M → M}
variable {request : BenchmarkRequest} {input : BenchmarkInput α} {value : ℕ → α} {Ready : M → Prop}
variable [IsStrictOrderedRing α]

theorem confirmed (honours : Honours adapter request input value Ready) (known : host.target ≠ .unknown)
    (valid : (adapter.validate request).supported = true)
    (peak : ValidPeak (adapter.callbacks undefined request) request)
    (reference : ∀ i < request.m * request.n, compute host.half adapter.quantization input i =
      .finite (value i)) : Confirmed host adapter undefined request input := by
  have report : Reports request value (runBenchmark host.environment
      (adapter.registration undefined host.target request) request input) :=
    reports honours known valid peak reference
  exact ⟨value, reference, report⟩

end Confirmed

def sampleHost : Host ℚ where
  half := id
  target := .spacemitK1X60
  perf := ⟨fun _ _ => none, fun _ => none, fun _ => .ok fun _ => ⟨9, 1, 1⟩⟩
  g9 := fun _ => "0"
  f3 := fun _ => "0.000"

end Pfng.Bench
