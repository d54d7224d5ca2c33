import Pfng.Q40.Unpack

/-! `q4_0-q8_0-IME-m8b-DPU`: every iteration unpacks all weights first, and the kernel walks the
tiles of columns itself. -/
namespace Pfng.Q40.BatchReduction
open Checked Ime

variable {F H : Type}

namespace DynPreUnpack

section Definitions

variable [Inhabited F] [Inhabited H] (ops : FloatOps F H) (request : Bench.BenchmarkRequest)

/-- `SQ4BitGemmM8Kernel_CompInt8_ScaleFp16_Impl_Intrin_BatchRed_DynPreUnpack`. -/
def kernel (baseAQs baseAScales baseC CountN BlockCountK ldc : ℕ) :
    BatchMemory F H → Option (BatchMemory F H) :=
  forUp (fun tile_n memory =>
    (batchKernel ops .ime1 .stack
      (fun bk => unpackedWeights .ime1 ((tile_n * BlockCountK + bk) * (kNr .ime1 * 32)))
      ⟨baseAQs, baseAScales, tile_n * BlockCountK * kNr .ime1, BlockCountK⟩
      (fun _ => .cells (accPointer .ime1)) (fun _ => accPointer .ime1)
      ((memory.renew (.floats .acc) fun _ => some ops.zero).renew (.components .stack)
        fun _ => none)).bind
    (copyTile .ime1 (accPointer .ime1) ⟨.output, baseC + tile_n * kNr .ime1, ldc⟩))
    0 (CountN / kNr .ime1)

def prepare (operands : Operands F H) (fourRowScale : ℕ → ℕ → F) (memory : BatchMemory F H) :
    Option (BatchMemory F H) :=
  (initializeQ40Ime8 request operands fourRowScale memory).bind
  (reorder (request.m / 8 * (request.k / 32)))

def unpackAll (memory : BatchMemory F H) : Option (BatchMemory F H) :=
  unpackQ40 0 0 (request.n / 16 * (request.k / 32)) (newUnpacked memory)

def run (orders : Orders ℕ (request.m / 8)) (iterations : ℕ) :
    BatchMemory F H → Option (BatchMemory F H) :=
  forUp (fun iteration memory => (unpackAll request memory).bind
    (forEach (fun tile_m =>
      let a_block := tile_m * (request.k / 32)
      kernel ops (a_block * (kMr .ime1 * 32)) (a_block * kMr .ime1) (tile_m * kMr .ime1 * request.n)
        request.n (request.k / 32) request.n) (orders.order iteration))) 0 iterations

end Definitions

variable {ops : FloatOps F H} {request : Bench.BenchmarkRequest} {operands : Operands F H}
variable {c : ℕ → Option F}

def Known (request : Bench.BenchmarkRequest) : Region Buffer := fun k x =>
  operandCells request .ime1 (plainLive request .ime1) k x ∨ UnpackedCells request .ime1 k x

theorem known_apart : Apart (Known request) := by
  rintro k x (cell | ⟨rfl, _⟩)
  · exact operands_apart k x cell
  · refine ⟨?_, nofun⟩
    rintro (⟨_, no⟩ | no)
    · cases no
    · cases no

theorem unpackAll_effect (wholeN : request.n / 16 * 16 = request.n)
    (wholeK : request.k / 32 * 32 = request.k) :
    Effect (bufferSize request .ime1 (request.m / 8 * (request.k / 32)))
      (contents ops request operands .ime1 (plainSlot request) c)
      (operandCells request .ime1 (plainLive request .ime1)) (unpackAll request)
      (contents ops request operands .ime1 (plainSlot request) c) (Known request)
      fun k _ => k = .unpacked := by
  have whole := unpackQ40_effect ops operands (plainSlot request) c
    (request.m / 8 * (request.k / 32)) 0 (Nat.zero_add (request.n / 16 * (request.k / 32))).le (unpacked_room wholeN wholeK).le
  simp only [Nat.zero_mul] at whole
  refine newUnpacked_effect (whole.weaken ?_ ?_ fun k x cell => cell.1)
  · rintro k x (packed | ⟨rfl, _⟩)
    · exact ⟨.inl packed, rfl⟩
    · exact ⟨.inr rfl, rfl⟩
  · rintro k x ⟨rfl, inside⟩
    exact .inl ⟨⟨rfl, x, inside, (Nat.zero_add x).symm⟩, rfl⟩

variable [Inhabited F] [Inhabited H]

theorem kernel_effect {tile_m : ℕ} (blocks : 0 < request.k / 32)
    (wholeM : request.m / 8 * 8 = request.m) (wholeN : request.n / 16 * 16 = request.n)
    (wholeK : request.k / 32 * 32 = request.k) (htm : tile_m < request.m / 8) :
    Effect (bufferSize request .ime1 (request.m / 8 * (request.k / 32)))
      (contents ops request operands .ime1 (plainSlot request) c) (Known request)
      (kernel ops (tile_m * (request.k / 32) * (kMr .ime1 * 32)) (tile_m * (request.k / 32) * kMr .ime1)
        (tile_m * kMr .ime1 * request.n) request.n (request.k / 32) request.n)
      (contents ops request operands .ime1 (plainSlot request) c) (OutputRows request .ime1 tile_m)
      (fun k x => Scratch k ∨ OutputRows request .ime1 tile_m k x) := by
  refine columns_effect wholeN known_apart fun tile_n ht => tile_effect
    (fun memory => batchKernel ops .ime1 .stack
      (fun bk => unpackedWeights .ime1 ((tile_n * (request.k / 32) + bk) * (kNr .ime1 * 32)))
      (tileArguments .ime1 (tile_m * (request.k / 32)) (tile_n * (request.k / 32)) (request.k / 32))
      (fun _ => .cells (accPointer .ime1)) (fun _ => accPointer .ime1)
      (memory.renew (.components .stack) fun _ => none))
    wholeN wholeM htm ht known_apart fun m sizes holds held => ?_
  obtain ⟨change, left, keeps⟩ := renewScratch .ime1 (.components .stack)
    (fun _ => none) (.inl ⟨_, rfl⟩) known_apart holds
  have sizes' := change.size.trans sizes
  have renewed := keeps nofun held
  have apart : ∀ k x, Known request k x →
      ¬ KernelCells .ime1 .stack (fun _ => accPointer .ime1) k x := by
    rintro k x cell (rfl | ⟨_, rfl, _⟩)
    · exact (known_apart _ x cell).1 (.inl ⟨_, rfl⟩)
    · exact (known_apart _ x cell).1 (.inr rfl)
  have run := tileKernel_ends 0 (fun _ => .cells (accPointer .ime1))
    (fun bk => unpackedWeights .ime1 ((tile_n * (request.k / 32) + bk) * (kNr .ime1 * 32))) sizes' left
    (fun _ _ => .inl) apart (fun m' sizes' holds' b hb inner hi => by
      have room := (unpacked_room wholeN wholeK).le
      rw [show request.n * request.k = m'.size .unpacked by rw [sizes']; rfl] at room
      have inRow : 0 + request.k / 32 ≤ request.k / 32 := (Nat.zero_add _).le
      have registers := unpacked_registers .ime1 room (holds'.mono fun _ _ => .inr) ht inRow hb hi
      rwa [Nat.add_zero, ← Nat.add_mul] at registers)
    ht (Nat.zero_add _).le blocks (plain_found htm) (fun _ alive => alive) rfl
    (fun _ => Nat.le_refl _) (fun _ row hr column hc => (renewed row hr column hc).1) renewed
  rw [Nat.add_zero, Nat.zero_add] at run
  refine run.mono fun m' ⟨change', tile⟩ => ⟨change.trans (change'.mono ?_), tile⟩
  rintro k x (rfl | ⟨_, rfl, _⟩)
  · exact .inl ⟨_, rfl⟩
  · exact .inr rfl

theorem run_effect (blocks : 0 < request.k / 32) (wholeM : request.m / 8 * 8 = request.m)
    (wholeN : request.n / 16 * 16 = request.n) (wholeK : request.k / 32 * 32 = request.k)
    (orders : Orders ℕ (request.m / 8)) (iterations : ℕ) :
    Effect (bufferSize request .ime1 (request.m / 8 * (request.k / 32)))
      (contents ops request operands .ime1 (plainSlot request) c)
      (operandCells request .ime1 (plainLive request .ime1)) (run ops request orders iterations)
      (contents ops request operands .ime1 (plainSlot request) c)
      (fun k x => 0 < iterations ∧ k = .floats .output ∧ x < request.m * request.n)
      (fun k _ => k = .unpacked ∨ Scratch k ∨ k = .floats .output) := by
  refine Effect.passes (fun iteration _ => (unpackAll_effect wholeN wholeK).seq
    (rows_effect wholeM known_apart (orders.complete iteration) fun tile_m htm =>
      kernel_effect blocks wholeM wholeN wholeK htm)) ?_
  rintro k x cell (rfl | scratch | output)
  · exact cell
  · exact (operands_apart k x cell).1 scratch
  · exact (operands_apart k x cell).2 output

variable (ops request operands c) in
omit [Inhabited H] in
theorem prepare_effect (fourRowScale : ℕ → ℕ → F) :
    Effect (bufferSize request .ime1 (request.m / 8 * (request.k / 32)))
      (contents ops request operands .ime1 (plainSlot request) c) (fun _ _ => False)
      (prepare request operands fourRowScale)
      (contents ops request operands .ime1 (plainSlot request) c)
      (operandCells request .ime1 (plainLive request .ime1)) fun _ _ => True :=
  prepareIme1_effect ops request operands fourRowScale c

theorem prepared_run (operands : Operands F H) (fourRowScale : ℕ → ℕ → F)
    (supported : (validateShape 8 16 32 request).supported = true)
    (orders : Orders ℕ (request.m / 8)) {iterations : ℕ} (some_iteration : 1 ≤ iterations)
    (previous : ℕ → Option F) (memory : BatchMemory F H)
    (sizes : memory.size = bufferSize request .ime1 (request.m / 8 * (request.k / 32))) :
    Ends ((prepare request operands fourRowScale memory).bind fun memory =>
        run ops request orders iterations (memory.renew (.floats .output) previous)) fun memory =>
      ∀ x < request.m * request.n, memory.cell (.floats .output) x =
        contents ops request operands .ime1 (plainSlot request) (fun _ => none) (.floats .output) x := by
  obtain ⟨⟨_, _, depth⟩, wholeM, wholeN, wholeK⟩ := validateShape_supported supported
  have blocks : 0 < request.k / 32 := by omega
  have packed := prepare_effect ops request operands (fun _ => none) fourRowScale
  have fresh : Effect (bufferSize request .ime1 (request.m / 8 * (request.k / 32)))
      (contents ops request operands .ime1 (plainSlot request) fun _ => none)
      (operandCells request .ime1 (plainLive request .ime1))
      (fun memory => some (memory.renew (.floats .output) previous)) _ _ _ :=
    Effect.renew fun _ cell => cell
  have later := fresh.seq (run_effect blocks wholeM wholeN wholeK orders iterations)
  refine (packed.seq later memory sizes fun _ _ no => no.elim).mono fun memory ⟨_, left⟩ => ?_
  intro x hx
  exact left (.floats .output) x ⟨some_iteration, rfl, hx⟩

/-- Unpacking the weights before the run changes no element of the output, and stores every unpacked
byte once. -/
theorem pre_unpacking_output (ops : FloatOps F H) (request : Bench.BenchmarkRequest)
    (operands : Operands F H) (fourRowScale : ℕ → ℕ → F)
    (supported : (validateShape 8 16 32 request).supported = true)
    (plainOrders orders : Orders ℕ (request.m / 8)) {iterations : ℕ}
    (some_iteration : 1 ≤ iterations) (previous previous' : ℕ → Option F)
    (memory memory' : BatchMemory F H)
    (sizes : memory.size = bufferSize request .ime1 (request.m / 8 * (request.k / 32)))
    (sizes' : memory'.size = bufferSize request .ime1 (request.m / 8 * (request.k / 32))) :
    (Ends ((prepareIme1 request operands fourRowScale memory).bind fun memory =>
        runIme1 ops request plainOrders iterations (memory.renew (.floats .output) previous))
      fun plain => Ends ((prepare request operands fourRowScale memory').bind fun memory =>
          run ops request orders iterations (memory.renew (.floats .output) previous'))
        fun unpacked => ∀ x < request.m * request.n,
          (plain.cell (.floats .output) x).isSome ∧
            unpacked.cell (.floats .output) x = plain.cell (.floats .output) x) ∧
      Ends ((prepare request operands fourRowScale memory').bind (unpackAll request)) fun memory =>
        ∀ x < request.n * request.k, (memory.cell .unpacked x).writes = 1 := by
  obtain ⟨_, _, wholeN, wholeK⟩ := validateShape_supported supported
  constructor
  · refine (prepared_runIme1 operands fourRowScale supported plainOrders some_iteration previous
      memory sizes).mono fun plain left => ?_
    refine (prepared_run operands fourRowScale supported orders some_iteration previous' memory'
      sizes').mono fun unpacked left' => ?_
    intro x hx
    rw [left x hx]
    exact ⟨rfl, left' x hx⟩
  · have whole := (prepare_effect ops request operands (fun _ => none) fourRowScale).seq
      (unpackAll_effect wholeN wholeK)
    refine (whole memory' sizes' fun _ _ no => no.elim).mono fun memory ⟨_, left⟩ => ?_
    intro x hx
    rw [← unpacked_room wholeN wholeK] at hx
    rw [left .unpacked x (.inr ⟨rfl, hx⟩)]
    rfl

theorem sample_pre_unpacking : Ends ((prepareIme1 (sampleTiles 8 16) variedOperands (fun _ _ => 3)
      (freshMemory (bufferSize (sampleTiles 8 16) .ime1 4))).bind fun memory =>
      runIme1 (FloatOps.exact ℚ) (sampleTiles 8 16) (.inOrder ℕ 2) 2
        (memory.renew (.floats .output) fun _ => none))
    fun plain => Ends ((prepare (sampleTiles 8 16) variedOperands (fun _ _ => 3)
        (freshMemory (bufferSize (sampleTiles 8 16) .ime1 4))).bind fun memory =>
        run (FloatOps.exact ℚ) (sampleTiles 8 16) sampleOrders 2
          (memory.renew (.floats .output) fun _ => some 5))
      fun unpacked => ∀ x < 16 * 32,
        unpacked.cell (.floats .output) x = plain.cell (.floats .output) x := by
  refine (pre_unpacking_output (FloatOps.exact ℚ) (sampleTiles 8 16) variedOperands (fun _ _ => 3)
    (by decide) (.inOrder ℕ 2) sampleOrders (by decide) (fun _ => none) (fun _ => some 5)
    (freshMemory (bufferSize (sampleTiles 8 16) .ime1 4))
    (freshMemory (bufferSize (sampleTiles 8 16) .ime1 4)) rfl rfl).1.mono fun plain same => ?_
  exact same.mono fun unpacked same x hx => (same x hx).2

end DynPreUnpack

end Pfng.Q40.BatchReduction
