import Pfng.Bench.Run
import Pfng.Lib.Layout
import Pfng.Lib.Memory
import Pfng.Rvv

/-! What the upstream vector kernels share: a dot product of one row and one column is called for each
element of the output. -/
namespace Pfng.VecDot
open Checked Register

section Lanes

/-- `__riscv_vwmul_vv_i16m2`. -/
def vwmul (a b : ℕ → BitVec 8) (lane : ℕ) : ℤ := wrap 16 ((a lane).toInt * (b lane).toInt)

/-- `__riscv_vwmacc_vv_i16m2`. -/
def vwmacc (sum : ℕ → ℤ) (a b : ℕ → BitVec 8) (lane : ℕ) : ℤ :=
  wrap 16 (sum lane + (a lane).toInt * (b lane).toInt)

/-- `__riscv_vwredsum_vs_i16m2_i32m1` from zero. -/
def vwredsum (v : ℕ → ℤ) (vl : ℕ) : ℤ := accumulate 32 v vl

/-- `__riscv_vredsum_vs_i16m2_i16m1` from zero: the sum stays in the width of the lanes. -/
def vredsum (v : ℕ → ℤ) (vl : ℕ) : ℤ := accumulate 16 v vl

theorem vwmul_eq (a b : ℕ → BitVec 8) (lane : ℕ) : vwmul a b lane = (a lane).toInt * (b lane).toInt :=
  (wrap_eq_self_iff (by decide) _).mpr
    (fits_of_abs_lt ((abs_toInt_mul_toInt_le _ _).trans_lt (by decide)))

end Lanes

/-- The members of `State` that a run uses. -/
inductive Buffer
  | weight | activation | output
  deriving DecidableEq

abbrev Cell (W A F : Type) : Buffer → Type
  | .weight => W
  | .activation => A
  | .output => F

abbrev DotMemory (W A F : Type) := Memory Buffer (Cell W A F)

variable {W A F : Type}

def bufferSize (request : Bench.BenchmarkRequest) (blocks : ℕ) : Buffer → ℕ
  | .weight => request.n * blocks
  | .activation => request.m * blocks
  | .output => request.m * request.n

/-- One row and one column of `k` elements. -/
def oneDot (k : ℕ) : Bench.BenchmarkRequest := ⟨1, 1, k, 0, 1, 1, 1, 0, 0, true, []⟩

/-- Memory of the right sizes, with the same cell everywhere in an array. -/
def uniformMemory (request : Bench.BenchmarkRequest) (blocks : ℕ) (weight : W) (activation : A)
    (output : F) : DotMemory W A F where
  size := bufferSize request blocks
  cell
    | .weight, _ => weight
    | .activation, _ => activation
    | .output, _ => output

/-- `prepare`: the weight blocks are copied, the activation is quantised row by row. -/
def prepare (request : Bench.BenchmarkRequest) (blocks : ℕ) (weight : ℕ → W) (activation : ℕ → ℕ → A)
    (memory : DotMemory W A F) : Option (DotMemory W A F) :=
  (forUp (fun x memory => memory.store .weight x (weight x)) 0 (request.n * blocks) memory).bind
  (forUp (fun m => forUp (fun block memory =>
    memory.store .activation (m * blocks + block) (activation m block)) 0 blocks) 0 request.m)

/-- `run`; `dot vx vy` is the call for the weight blocks from `vx` and the activation blocks from
`vy` on. -/
def run (request : Bench.BenchmarkRequest) (blocks : ℕ) (dot : ℕ → ℕ → DotMemory W A F → Option F)
    (iterations : ℕ) : DotMemory W A F → Option (DotMemory W A F) :=
  forUp (fun _ => forUp (fun m => forUp (fun n memory =>
    (dot (n * blocks) (m * blocks) memory).bind fun s =>
    memory.store .output (m * request.n + n) s) 0 request.n) 0 request.m) 0 iterations

section Run

variable {request : Bench.BenchmarkRequest} {blocks : ℕ} {weight : ℕ → W} {activation : ℕ → ℕ → A}
variable {value : ℕ → ℕ → F} {dot : ℕ → ℕ → DotMemory W A F → Option F}

/-- The operands, and an output of which row `m` holds `value m`. -/
def contents (request : Bench.BenchmarkRequest) (blocks : ℕ) (weight : ℕ → W) (activation : ℕ → ℕ → A)
    (value : ℕ → ℕ → F) : Contents Buffer (Cell W A F)
  | .weight => weight
  | .activation => Layout.matrix blocks activation
  | .output => Layout.matrix request.n value

def Operands (request : Bench.BenchmarkRequest) (blocks : ℕ) : Region Buffer := fun k x =>
  k ≠ .output ∧ x < bufferSize request blocks k

def Output (request : Bench.BenchmarkRequest) : Region Buffer := fun k x =>
  k = .output ∧ x < request.m * request.n

theorem prepare_writes : Writes (bufferSize request blocks)
    (prepare (F := F) request blocks weight activation)
    (contents request blocks weight activation value) (Operands request blocks) := by
  have copied : Writes (bufferSize request blocks)
      (forUp (fun x memory => memory.store .weight x (weight x)) 0 (request.n * blocks))
      (contents request blocks weight activation value) _ :=
    Writes.loop fun x hx => Writes.store hx rfl
  have quantised : Writes (bufferSize request blocks)
      (forUp (fun m => forUp (fun block memory =>
        memory.store .activation (m * blocks + block) (activation m block)) 0 blocks) 0 request.m)
      (contents request blocks weight activation value) _ :=
    Writes.loop fun m hm => Writes.loop fun block hb =>
      Writes.store (Layout.index_lt hm hb) (Layout.matrix_at activation hb).symm
  refine (copied.seq quantised).weaken (fun _ _ no => no) fun k x => ?_
  constructor
  · rintro ⟨other, inside⟩
    cases k with
    | weight => exact .inl ⟨x, inside, rfl, rfl⟩
    | activation =>
        obtain ⟨m, hm, block, hb, rfl⟩ := Layout.lt_iff.mp inside
        exact .inr ⟨m, hm, block, hb, rfl, rfl⟩
    | output => exact absurd rfl other
  · rintro (⟨_, hx, rfl, rfl⟩ | ⟨m, hm, block, hb, rfl, rfl⟩)
    · exact ⟨by decide, hx⟩
    · exact ⟨by decide, Layout.index_lt hm hb⟩

/-- A call reads only its row and its column, and gives the value of its element. -/
def Computes (request : Bench.BenchmarkRequest) (blocks : ℕ) (weight : ℕ → W)
    (activation : ℕ → ℕ → A) (value : ℕ → ℕ → F) (dot : ℕ → ℕ → DotMemory W A F → Option F) : Prop :=
  ∀ memory : DotMemory W A F, memory.size = bufferSize request blocks →
    Holds (contents request blocks weight activation value) (Operands request blocks) memory →
    ∀ m < request.m, ∀ n < request.n, dot (n * blocks) (m * blocks) memory = some (value m n)

theorem run_effect (computes : Computes request blocks weight activation value dot) (iterations : ℕ) :
    Effect (bufferSize request blocks) (contents request blocks weight activation value)
      (Operands request blocks) (run request blocks dot iterations)
      (contents request blocks weight activation value)
      (fun k x => 0 < iterations ∧ Output request k x) (Output request) := by
  have spared : ∀ k x, Operands request blocks k x → ¬ Output request k x :=
    fun _ _ operand output => operand.1 output.1
  refine Effect.passes (fun _ _ => ?_) spared
  have element : ∀ m < request.m, ∀ n < request.n, Fills (bufferSize request blocks)
      (contents request blocks weight activation value) (Operands request blocks)
      (fun memory => (dot (n * blocks) (m * blocks) memory).bind fun s =>
        memory.store .output (m * request.n + n) s)
      (contents request blocks weight activation value)
      fun k x => k = .output ∧ x = m * request.n + n := by
    intro m hm n hn
    refine Effect.read (P := fun s => s = value m n) (fun memory sizes holds => ?_) fun s known => ?_
    · exact ⟨_, computes memory sizes holds m hm n hn, rfl⟩
    · refine Fills.store (Layout.index_lt hm hn) ?_
      rw [known]
      exact (Layout.matrix_at value hn).symm
  refine Effect.weaken (Fills.loop (fun m hm => Fills.loop (fun n hn => element m hm n hn) ?_) ?_)
    (fun _ _ operand => ⟨operand, rfl⟩) ?_ ?_
  · rintro n _ k x operand ⟨rfl, _⟩
    exact operand.1 rfl
  · rintro m _ k x operand ⟨n, _, rfl, _⟩
    exact operand.1 rfl
  · rintro k x ⟨rfl, inside⟩
    obtain ⟨m, hm, n, hn, rfl⟩ := Layout.lt_iff.mp inside
    exact .inl ⟨⟨m, hm, n, hn, rfl, rfl⟩, rfl⟩
  · rintro k x ⟨m, hm, n, hn, rfl, rfl⟩
    exact ⟨rfl, Layout.index_lt hm hn⟩

theorem prepared_run (computes : Computes request blocks weight activation value dot) {iterations : ℕ}
    (once : 1 ≤ iterations) (previous : ℕ → F) (memory : DotMemory W A F)
    (sizes : memory.size = bufferSize request blocks) :
    Ends ((prepare request blocks weight activation memory).bind fun memory =>
        run request blocks dot iterations (memory.renew .output previous)) fun memory =>
      ∀ m < request.m, ∀ n < request.n, memory.cell .output (m * request.n + n) = value m n := by
  have fresh : Effect (bufferSize request blocks) (contents request blocks weight activation value)
      (Operands request blocks) (fun memory => some (memory.renew .output previous)) _ _ _ :=
    Effect.renew fun _ operand => operand.1 rfl
  have later := fresh.seq (run_effect computes iterations)
  refine (Effect.seq prepare_writes later memory sizes fun _ _ no => no.elim).mono
    fun memory ⟨_, left⟩ => ?_
  intro m hm n hn
  rw [left .output _ ⟨once, rfl, Layout.index_lt hm hn⟩]
  exact Layout.matrix_at value hn

end Run

section Blocks

variable {request : Bench.BenchmarkRequest} {blocks : ℕ} {weight : ℕ → W} {activation : ℕ → ℕ → A}
variable {value : ℕ → ℕ → F} {S : Type}

/-- The loop of a dot product over its `nb` blocks. -/
def overBlocks (step : S → W → A → Option S) (start : S) (nb vx vy : ℕ) (memory : DotMemory W A F) :
    Option S :=
  forUp (fun i s => (memory.load .weight (vx + i)).bind fun x =>
    (memory.load .activation (vy + i)).bind (step s x)) 0 nb start

/-- On packed operands the loop folds the blocks of the row and the column. -/
theorem overBlocks_eq {step : S → W → A → Option S} (next : S → W → A → S) (start : S)
    {memory : DotMemory W A F} (sizes : memory.size = bufferSize request blocks)
    (holds : Holds (contents request blocks weight activation value) (Operands request blocks) memory)
    {m n : ℕ} (hm : m < request.m) (hn : n < request.n)
    (steps : ∀ i < blocks, ∀ s, step s (weight (n * blocks + i)) (activation m i) =
      some (next s (weight (n * blocks + i)) (activation m i))) :
    overBlocks step start blocks (n * blocks) (m * blocks) memory =
      some ((List.range blocks).foldl
        (fun s i => next s (weight (n * blocks + i)) (activation m i)) start) := by
  let folded := fun i => (List.range i).foldl
    (fun s i => next s (weight (n * blocks + i)) (activation m i)) start
  have loop : Ends (overBlocks step start blocks (n * blocks) (m * blocks) memory)
      fun s => s = folded blocks := by
    refine loop_ends (fun i s => s = folded i) rfl fun i hi s known => ?_
    have w : memory.load .weight (n * blocks + i) = some (weight (n * blocks + i)) :=
      load_eq holds sizes (Layout.index_lt hn hi) ⟨by decide, Layout.index_lt hn hi⟩
    have a : memory.load .activation (m * blocks + i) = some (activation m i) :=
      (load_eq holds sizes (Layout.index_lt hm hi) ⟨by decide, Layout.index_lt hm hi⟩).trans
        (congrArg some (Layout.matrix_at activation hi))
    rw [w, a, known, Option.bind_some, Option.bind_some]
    refine ⟨_, steps i hi _, ?_⟩
    simp only [folded, List.range_succ, List.foldl_append, List.foldl_cons, List.foldl_nil]
  obtain ⟨s, ran, rfl⟩ := loop
  exact ran

end Blocks

end Pfng.VecDot
