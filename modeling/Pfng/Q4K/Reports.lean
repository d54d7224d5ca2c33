import Pfng.Bench.Reference
import Pfng.Q4K.VecDot

/-! The adapters of the three kernels for Q4_K, and what `run_benchmark` reports of them: they hold
the sum of a sub-block in 16 bits, and it confirms them where every one of these sums fits. -/
namespace Pfng.Q4K
open Checked Register Rvv Finset Quantizers
open Bench hiding Counted
open Problem (ofRequest)

variable {α : Type} [Field α] [LinearOrder α] [FloorRing α]

section Adapters

/-- `quantize_row_q8_K` on every row, and then the packing. -/
def packQuantised {M : Type} (pack : BenchmarkRequest → (ℕ → BlockQ4K α) → (ℕ → SummedQ8K α) → M → Option M)
    (request : BenchmarkRequest) (input : Data α (BlockQ4K α)) (memory : M) : Option M :=
  (quantizeQ8KRows request.m request.k (request.k / 256) input.1).bind fun aq =>
    pack request input.2 aq memory

/-- `q4_K-q8_K-RVV-upstream`. -/
def rvvUpstream : Adapter α (BenchmarkInput α) (Data α (BlockQ4K α))
    (Pfng.VecDot.DotMemory (BlockQ4K α) (SummedQ8K α) α) where
  quantization := .weightQ4_KActivationQ8_K
  peakPerformance := peakRvvI8I16Mac
  validate := Q40.validateShape 1 1 256
  getIf := BenchmarkInput.q4K?
  expected := "expected Q4_K/Q8_K input"
  fresh request := Pfng.VecDot.uniformMemory request (request.k / 256) ⟨0, 0, fun _ => 0, fun _ => 0⟩
    ⟨⟨0, fun _ => 0⟩, fun _ => 0⟩ 0
  pack := packQuantised fun request weight aq =>
    Pfng.VecDot.prepare request (request.k / 256) weight fun m b => aq (m * (request.k / 256) + b)
  run _ request := Pfng.VecDot.run request (request.k / 256) (VecDot.vecDot (request.k / 256))
  output memory x := some (memory.cell .output x)
  fill x memory := memory.renew .output fun _ => x

/-- The packed blocks, their members beside `qs`, and what a run writes. -/
structure PackedMemory (α : Type) where
  bytes : Bytes
  parts : Parts α
  scratch : ScratchMemory α

/-- The arrays of an adapter with tiles of `mr` rows, with zeros in them. -/
def freshPacked (mr : ℕ) (p : Problem α) : PackedMemory α where
  bytes := ⟨bufferSize mr p, fun _ _ => 0⟩
  parts := ⟨partSize mr p, fun k _ => match k with
    | .activationD => 0
    | .bsums => 0
    | .weightD _ => 0
    | .scales => 0⟩
  scratch := ⟨scratchSize mr p, fun k _ => match k with
    | .sumBlock => 0
    | .rows _ => none
    | .output => some 0⟩

def ofShape (mr : ℕ) (request : BenchmarkRequest) : Problem α :=
  ofRequest mr request (fun _ => ⟨0, 0, fun _ => 0, fun _ => 0⟩) fun _ => ⟨0, fun _ => 0⟩

/-- The two custom kernels. -/
def rvvTiles (mr : ℕ) (prepare : Problem α → Bytes × Parts α → Option (Bytes × Parts α))
    (run : Bytes → Parts α → Problem α → ℕ → ScratchMemory α → Option (ScratchMemory α)) :
    Adapter α (BenchmarkInput α) (Data α (BlockQ4K α)) (PackedMemory α) where
  quantization := .weightQ4_KActivationQ8_K
  peakPerformance := peakRvvI8I16Mac
  validate := Q40.validateShape mr 32 256
  getIf := BenchmarkInput.q4K?
  expected := "expected Q4_K/Q8_K input"
  fresh request := freshPacked mr (ofShape mr request)
  pack := packQuantised fun request weight aq memory =>
    (prepare (ofRequest mr request weight (VecDot.quants aq)) (memory.bytes, memory.parts)).map
      fun (bytes, parts) => ⟨bytes, parts, memory.scratch⟩
  run _ request iterations memory :=
    (run memory.bytes memory.parts (ofShape mr request) iterations memory.scratch).map
      fun scratch => { memory with scratch }
  output memory x := memory.scratch.cell .output x
  fill x memory := { memory with scratch := memory.scratch.renew .output fun _ => some x }

variable [Inhabited α]

/-- `q4_K-q8_K-RVV-my`. -/
def rvvMy : Adapter α (BenchmarkInput α) (Data α (BlockQ4K α)) (PackedMemory α) :=
  rvvTiles 12 prepareMy fun bytes parts => runMy (.exact α) bytes parts

/-- `q4_K-q8_K-RVV-group`. -/
def rvvGroup : Adapter α (BenchmarkInput α) (Data α (BlockQ4K α)) (PackedMemory α) :=
  rvvTiles 4 prepareGroup fun bytes parts => runGroup (.exact α) bytes parts

end Adapters

section Reference

variable {request : BenchmarkRequest} {activation : ℕ → α} {weight : ℕ → BlockQ4K α}
variable {aq : ℕ → SummedQ8K α}

/-- The blocks that a pass of `quantize_row_q8_K` over the rows leaves. -/
structure QuantisedRows (request : BenchmarkRequest) (activation : ℕ → α) (aq : ℕ → SummedQ8K α) : Prop where
  run : quantizeQ8KRows request.m request.k (request.k / 256) activation = some aq
  summed : VecDot.AllSummed request aq
  bounded : ∀ row < request.m, ∀ b < request.k / 256, ∀ i < 256,
    |((aq (row * (request.k / 256) + b)).qs i).toInt| ≤ 127

/-- What the adapters leave in element `i`. -/
def heldAt (request : BenchmarkRequest) (weight : ℕ → BlockQ4K α) (aq : ℕ → SummedQ8K α) (i : ℕ) : α :=
  heldElement weight (VecDot.quants aq) (request.k / 256) (i / request.n) (i % request.n)

/-- The sum of sub-block `sb` in the products of one pair of blocks. -/
def subblockSum (w : BlockQ4K α) (a : BlockQ8K α) (sb : ℕ) : ℤ :=
  ∑ j ∈ range 32, (dotQuant w sb j).toNat * (a.qs (sb * 32 + j)).toInt

/-- Every one of them lies in 16 bits. -/
def SubblocksFit (request : BenchmarkRequest) (weight : ℕ → BlockQ4K α) (aq : ℕ → SummedQ8K α) : Prop :=
  ∀ row < request.m, ∀ column < request.n, ∀ b < request.k / 256, ∀ sb < 8,
    Fits 16 (subblockSum (weight (column * (request.k / 256) + b))
      (VecDot.quants aq (row * (request.k / 256) + b)) sb)

omit [LinearOrder α] [FloorRing α] in
/-- Then the held integers are the ones of the reference. -/
theorem dotQ4KQ8K_eq {w : BlockQ4K α} {a : BlockQ8K α}
    (fits : ∀ sb < 8, Fits 16 (subblockSum w a sb)) : dotQ4KQ8K w a = heldDot w a := by
  have held : heldSum w a .sum = ∑ sb ∈ range 8,
      ((unpackScales w.scales).scales sb).toNat * subblockSum w a sb := by
    refine sum_congr rfl fun sb hsb => ?_
    rw [← subblockSum, (wrap_eq_self_iff (by decide) _).mpr (fits sb (mem_range.mp hsb))]
  have inner : ∀ (sum : α) (sb : ℕ), (List.range 32).foldl (fun sum j =>
      sum + (a.qs (sb * 32 + j)).toInt * (w.d * ((unpackScales w.scales).scales sb).toNat *
        (dotQuant w sb j).toNat - w.dmin * ((unpackScales w.scales).mins sb).toNat)) sum =
      sum + (w.d * (((unpackScales w.scales).scales sb).toNat * subblockSum w a sb : ℤ) -
        w.dmin * (((unpackScales w.scales).mins sb).toNat *
          ∑ j ∈ range 32, (a.qs (sb * 32 + j)).toInt : ℤ)) := by
    intro sum sb
    rw [Folds.foldl_add_start, subblockSum]
    push_cast
    simp only [mul_sum, ← sum_sub_distrib]
    congr 1
    refine sum_congr rfl fun j _ => ?_
    ring
  rw [dotQ4KQ8K, heldDot, held]
  simp only [inner, Folds.foldl_add_start, zero_add, heldSum]
  push_cast
  rw [sum_sub_distrib, mul_sum, mul_sum]

theorem compute_eq (half : α → α) (quantised : QuantisedRows request activation aq)
    (fits : SubblocksFit request weight aq) {i : ℕ} (hi : i < request.m * request.n) :
    compute half .weightQ4_KActivationQ8_K (.q4KQ8K request.m request.n request.k activation weight) i =
      .finite (heldAt request weight aq i) := by
  obtain ⟨row, hr, column, hc, rfl⟩ := Layout.lt_iff.mp hi
  simp only [compute, computeQ4K, quantised.run, Option.map_some, Option.elim_some, heldAt,
    Layout.row hc, Layout.column hc]
  rw [Folds.foldl_add_eq, heldElement]
  congr 1
  refine sum_congr rfl fun b hb => ?_
  exact dotQ4KQ8K_eq (fits row hr column hc b (mem_range.mp hb))

variable [IsStrictOrderedRing α]

theorem quantised (request : BenchmarkRequest) (activation : ℕ → α) :
    ∃ aq, QuantisedRows request activation aq := by
  have rows : Ends (quantizeQ8KRows request.m request.k (request.k / 256) activation) _ :=
    quantizeRows_ends quantizeQ8K_ends activation fun _ => ⟨⟨0, fun _ => 0⟩, fun _ => 0⟩
  obtain ⟨aq, run, known⟩ := rows
  refine ⟨aq, run, fun row hr b hb => (known row hr b hb).2, fun row hr b hb i hi => ?_⟩
  exact abs_le.mpr ((known row hr b hb).1.range i hi)

end Reference

section Honours

variable {request : BenchmarkRequest} {activation : ℕ → α} {weight : ℕ → BlockQ4K α}
variable {aq : ℕ → SummedQ8K α} {mr : ℕ}

theorem QuantisedRows.packs {M : Type} (quantised : QuantisedRows request activation aq)
    (pack : BenchmarkRequest → (ℕ → BlockQ4K α) → (ℕ → SummedQ8K α) → M → Option M) :
    packQuantised pack request (activation, weight) = pack request weight aq := by
  funext memory
  rw [packQuantised, quantised.run, Option.bind_some]

theorem rvvUpstream_honours (quantised : QuantisedRows request activation aq) :
    ∃ Ready, Honours rvvUpstream request (.q4KQ8K request.m request.n request.k activation weight)
      (heldAt request weight aq) Ready := by
  let value := heldElement weight (VecDot.quants aq) (request.k / 256)
  let u := Pfng.VecDot.contents request (request.k / 256) weight
    (fun m b => aq (m * (request.k / 256) + b)) value
  have packs : Writes (Pfng.VecDot.bufferSize request (request.k / 256))
      (Pfng.VecDot.prepare request (request.k / 256) weight fun m b => aq (m * (request.k / 256) + b))
      u (Pfng.VecDot.Operands request (request.k / 256)) := Pfng.VecDot.prepare_writes
  have computes : Pfng.VecDot.Computes request (request.k / 256) weight
      (fun m b => aq (m * (request.k / 256) + b)) value (VecDot.vecDot (request.k / 256)) :=
    VecDot.vecDot_computes quantised.summed
  have runs := fun (_ iterations : ℕ) => Pfng.VecDot.run_effect computes iterations
  refine ⟨_, Honours.of_effects .output packs runs (fun _ known => known.1 rfl)
    (fun _ _ _ known written => known.1 written.1) rfl rfl (quantised.packs fun request weight aq =>
      Pfng.VecDot.prepare request (request.k / 256) weight fun m b => aq (m * (request.k / 256) + b))
    (fun _ => rfl) (fun x => ⟨_, rfl⟩) fun memory x hx left => ?_⟩
  obtain ⟨row, hr, column, hc, rfl⟩ := Layout.lt_iff.mp hx
  rw [heldAt, Layout.row hc, Layout.column hc]
  exact congrArg some (left.trans (Layout.matrix_at value hc))

theorem rvvTiles_honours {prepare : Problem α → Bytes × Parts α → Option (Bytes × Parts α)}
    {run : Bytes → Parts α → Problem α → ℕ → ScratchMemory α → Option (ScratchMemory α)}
    {body : Bytes → Parts α → ℕ → ℕ → ScratchMemory α → Option (ScratchMemory α)}
    (Prepared : Bytes → Parts α → Prop) (element : ℕ → ℕ → α) (pos : 0 < mr)
    (quantised : QuantisedRows request activation aq)
    (supported : (Q40.validateShape mr 32 256 request).supported = true)
    (packs : ∀ bytes parts, bytes.size = bufferSize mr (ofRequest mr request weight (VecDot.quants aq)) →
      parts.size = partSize mr (ofRequest mr request weight (VecDot.quants aq)) →
      Ends (prepare (ofRequest mr request weight (VecDot.quants aq)) (bytes, parts))
        fun s => Prepared s.1 s.2)
    (runs : ∀ bytes parts iterations, run bytes parts (ofShape mr request) iterations =
      forUp (fun _ => forUp (fun tile_m => forUp (body bytes parts tile_m) 0 (request.n / 32)) 0
        (request.m / mr)) 0 iterations)
    (tiles : ∀ bytes parts, Prepared bytes parts →
      ∀ i_mr < request.m / mr, ∀ i_nr < request.n / 32,
      Effect (scratchSize mr (ofRequest mr request weight (VecDot.quants aq)))
        (outputs (ofRequest mr request weight (VecDot.quants aq)) element) (fun _ _ => False)
        (body bytes parts i_mr i_nr)
        (outputs (ofRequest mr request weight (VecDot.quants aq)) element)
        (MatrixTile .output (request.n / 32 * 32) mr 32 i_mr i_nr)
        fun k x => k ≠ .output ∨ MatrixTile .output (request.n / 32 * 32) mr 32 i_mr i_nr k x)
    (value : ∀ row column, element row column =
      heldElement weight (VecDot.quants aq) (request.k / 256) row column) :
    ∃ Ready, Honours (rvvTiles mr prepare run) request
      (.q4KQ8K request.m request.n request.k activation weight) (heldAt request weight aq) Ready := by
  let p := ofRequest mr request weight (VecDot.quants aq)
  obtain ⟨_, wholeM, wholeN, _⟩ := Q40.validateShape_supported supported
  refine ⟨fun memory => Prepared memory.bytes memory.parts ∧ memory.scratch.size = scratchSize mr p,
    ⟨(activation, weight), rfl, ?_⟩, fun _ _ ready => ready, ?_⟩
  · have packed : Ends (packQuantised (fun request weight aq (memory : PackedMemory α) =>
        (prepare (ofRequest mr request weight (VecDot.quants aq)) (memory.bytes, memory.parts)).map
          fun (bytes, parts) => ⟨bytes, parts, memory.scratch⟩) request (activation, weight)
        (freshPacked mr (ofShape mr request))) fun memory =>
        Prepared memory.bytes memory.parts ∧ memory.scratch.size = scratchSize mr p := by
      rw [quantised.packs]
      exact (packs _ _ rfl rfl).map fun s prepared => ⟨prepared, rfl⟩
    exact packed
  · intro turn iterations memory ⟨prepared, sizes⟩
    have passes : Effect (scratchSize mr p) (outputs p element) (fun _ _ => False)
        (run memory.bytes memory.parts (ofShape mr request) iterations) (outputs p element)
        (fun k x => 0 < iterations ∧ k = .output ∧ x < request.m / mr * mr * (request.n / 32 * 32))
        fun k _ => k ≠ .output ∨ k = .output := by
      rw [runs]
      exact Effect.passTiles pos (by decide) (fun _ no => no rfl) (tiles _ _ prepared)
    refine (passes memory.scratch sizes fun _ _ no => no.elim).map fun scratch ⟨change, left⟩ => ⟨⟨prepared, change.size.trans sizes⟩, ?_⟩
    intro once x hx
    have inside : x < request.m / mr * mr * (request.n / 32 * 32) := by rwa [wholeM, wholeN]
    obtain ⟨row, hr, column, hc, rfl⟩ := Layout.lt_iff.mp hx
    have cell : scratch.cell .output (row * request.n + column) =
      outputs p element .output (row * request.n + column) := left .output _ ⟨once, rfl, inside⟩
    have place : Layout.matrix (request.n / 32 * 32) element (row * request.n + column) = element row column := by
      rw [wholeN]
      exact Layout.matrix_at element hc
    refine cell.trans (congrArg some (place.trans ?_))
    rw [heldAt, Layout.row hc, Layout.column hc, value]

variable [Inhabited α]

theorem rvvMy_honours (quantised : QuantisedRows request activation aq)
    (supported : (Q40.validateShape 12 32 256 request).supported = true) :
    ∃ Ready, Honours rvvMy request (.q4KQ8K request.m request.n request.k activation weight)
      (heldAt request weight aq) Ready := by
  let p := ofRequest 12 request weight (VecDot.quants aq)
  obtain ⟨⟨_, _, depth⟩, _, _, wholeK⟩ := Q40.validateShape_supported supported
  have pos : 0 < p.blocks := by
    change 0 < request.k / 256
    omega
  refine rvvTiles_honours (fun bytes parts =>
      Ready 12 p.activation (myEntry p.weight p.blocks) p.tilesM p.tilesN p.blocks bytes ∧
        Prepared 12 512 p (myBytes p) parts) (p.myElement (.exact α)) (by decide) quantised supported
    (fun bytes parts sizes partSizes => prepareMy_ends sizes partSizes) (fun _ _ _ => rfl)
    (fun bytes parts ⟨ready, prepared⟩ i_mr hm i_nr hn m sizes before => ?_)
    fun row column => Problem.myElement_exact pos
  refine (myTile_effect pos ready prepared hm hn m sizes before).imp fun m' ⟨run, rest⟩ => ⟨?_, rest⟩
  simp only [gemmMy, forUp, Nat.reduceDiv, Option.bind_fun_some]
  exact run

theorem rvvGroup_honours (quantised : QuantisedRows request activation aq)
    (supported : (Q40.validateShape 4 32 256 request).supported = true) :
    ∃ Ready, Honours rvvGroup request (.q4KQ8K request.m request.n request.k activation weight)
      (heldAt request weight aq) Ready := by
  let p := ofRequest 4 request weight (VecDot.quants aq)
  refine rvvTiles_honours (fun bytes parts =>
      Ready 4 p.activation (groupEntry p.weight p.blocks) p.tilesM p.tilesN p.blocks bytes ∧
        Prepared 4 384 p (groupBytes p) parts) (p.groupElement (.exact α)) (by decide) quantised supported
    (fun bytes parts sizes partSizes => prepareGroup_ends sizes partSizes) (fun _ _ _ => rfl)
    (fun bytes parts ⟨ready, prepared⟩ i_mr hm i_nr hn m sizes before => ?_)
    fun row column => Problem.groupElement_exact
  refine (groupTile_effect ready prepared hm hn m sizes before).imp fun m' ⟨run, rest⟩ => ⟨?_, rest⟩
  simp only [gemmGroup, forUp, Nat.reduceDiv, Option.bind_fun_some]
  exact run

end Honours

section Reports

variable {request : BenchmarkRequest} {weight : ℕ → BlockQ4K α} {aq : ℕ → SummedQ8K α}
variable [IsStrictOrderedRing α]

omit [IsStrictOrderedRing α] in
theorem fits_of_small {activation : ℕ → α} (quantised : QuantisedRows request activation aq)
    (small : ∀ x sb j, (dotQuant (weight x) sb j).toNat ≤ 8) : SubblocksFit request weight aq := by
  intro row hr column hc b hb sb hsb
  have term : ∀ j < 32, |((dotQuant (weight (column * (request.k / 256) + b)) sb j).toNat : ℤ) *
      ((VecDot.quants aq (row * (request.k / 256) + b)).qs (sb * 32 + j)).toInt| ≤ 1016 := by
    intro j hj
    rw [abs_mul, Nat.abs_cast]
    have steps : ((dotQuant (weight (column * (request.k / 256) + b)) sb j).toNat : ℤ) ≤ 8 := by
      exact_mod_cast small _ sb j
    exact mul_le_mul steps (quantised.bounded row hr b hb _ (by omega)) (abs_nonneg _) (by decide)
  exact sum_fits term (by decide)

end Reports

def smallWeights (_ : ℕ) : BlockQ4K ℚ := ⟨1 / 2, 1 / 4, fun _ => 0xc5, fun _ => 0x83⟩

end Pfng.Q4K
