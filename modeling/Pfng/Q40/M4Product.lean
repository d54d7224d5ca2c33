import Mathlib.Data.Rat.Floor
import Pfng.Q40.M4Run

/-! `q4_0-q8_0-IME-m4i` computes the product, whatever the order of the tiles. Its kernel adds the
product to what a tile holds. -/
namespace Pfng.Q40.ImmediateReduction
open Checked Ime BatchReduction

section Plain

variable {F H : Type} [OfWord F] [Inhabited F] [Inhabited H] {ops : FloatOps F H}
variable {request : Bench.BenchmarkRequest} {operands : Operands Word H}
variable {fourRowScale : ℕ → ℕ → Word}

theorem prepared_run (supported : (validateShape 4 16 32 request).supported = true)
    (orders : Orders ℕ (request.m / 4)) {iterations : ℕ} (some_iteration : 1 ≤ iterations)
    (previous : ℕ → Option F) (memory : M4Memory H F) (sizes : memory.size = m4Size request) :
    Ends ((prepare request operands fourRowScale memory).bind fun memory =>
        run ops request orders iterations (memory.renew (.floats .output) previous)) fun memory =>
      ∀ m < request.m, ∀ n < request.n, memory.cell (.floats .output) (m * request.n + n) =
        some ((decoded operands).partialSum ops request m n (request.k / 32)) := by
  obtain ⟨_, wholeM, wholeN, _⟩ := validateShape_supported supported
  have fresh : Effect (m4Size request) (m4Contents ops request operands fun _ => none)
      (M4Operands request .staged)
      (fun memory => some (memory.renew (.floats .output) previous)) _ _ _ :=
    Effect.renew fun _ cell => cell
  have whole := (prepare_effect ops request operands fourRowScale fun _ => none).seq
    (fresh.seq (run_effect wholeM wholeN orders iterations))
  refine (whole memory sizes fun _ _ no => no.elim).mono fun memory ⟨_, left⟩ => ?_
  intro m hm n hn
  rw [left (.floats .output) _ ⟨some_iteration, rfl, Layout.index_lt hm hn⟩]
  change some _ = some _
  rw [Layout.row hn, Layout.column hn]

/-- The kernel on a tile that holds `v`, for any float steps. -/
theorem prepared_m4Kernel (memory : M4Memory H F) (sizes : memory.size = m4Size request)
    {tile_m tile_n : ℕ} (htm : tile_m < request.m / 4) (ht : tile_n < request.n / 16) (v : ℕ → F) :
    Ends ((prepare request operands fourRowScale memory).bind fun memory =>
        m4Kernel ops .staged (tile_m * (request.k / 32) * 144) (tile_n * (request.k / 32)) .tile 0
          (request.k / 32) (memory.renew (.floats .tile) fun x => some (v x))) fun memory =>
      ∀ x < 64, memory.cell (.floats .tile) x = some (accumulated ops
        (fun b => blockSum (operands.column request (tile_n * 16 + mivColumn x) b)
          (operands.activation (tile_m * 4 + mivRow x) b))
        (fun b => (operands.column request (tile_n * 16 + mivColumn x) b).d)
        (fun b => OfWord.ofWord (operands.activation (tile_m * 4 + mivRow x) b).d) (v x)
        (request.k / 32)) := by
  have renewed : Effect (m4Size request) (m4Contents ops request operands fun _ => none)
      (M4Operands request .staged)
      (fun memory => some (memory.renew (.floats .tile) fun x => some (v x))) _ _ _ :=
    Effect.renew fun _ cell => cell
  refine (prepare_effect ops request operands fourRowScale (fun _ => none) memory sizes
    fun _ _ no => no.elim).bind fun prepared ⟨change, packed⟩ => ?_
  have sizes₁ := change.size.trans sizes
  obtain ⟨_, same, change', left⟩ := renewed prepared sizes₁ packed
  cases same
  have blocks := tileBlocks (change'.size.trans sizes₁) left htm ht
  have held : HoldsMiv .tile 0 v (prepared.renew (.floats .tile) fun x => some (v x)) := by
    intro x hx
    rw [Nat.zero_add]
    refine ⟨?_, rfl⟩
    change x < prepared.size _
    rw [sizes₁]
    exact hx
  refine Ends.mono (m4Kernel_ends blocks held) fun memory ⟨_, sums⟩ => ?_
  intro x hx
  have sum := (sums x hx).2
  rw [Nat.zero_add] at sum
  exact sum

end Plain

section Exact

variable {α : Type} [Field α] [OfWord α] [Inhabited α]

/-- The run leaves the product of the blocks, in any order of the tiles of rows; the kernel adds it
to a tile that is not zero. -/
theorem m4i_product (request : Bench.BenchmarkRequest) (operands : Operands Word α)
    (fourRowScale : ℕ → ℕ → Word) (supported : (validateShape 4 16 32 request).supported = true)
    (memory : M4Memory α α) (sizes : memory.size = m4Size request) :
    (∀ (orders : Orders ℕ (request.m / 4)) (iterations : ℕ), 1 ≤ iterations →
      ∀ previous : ℕ → Option α,
      Ends ((prepare request operands fourRowScale memory).bind fun memory =>
          run (FloatOps.exact α) request orders iterations
            (memory.renew (.floats .output) previous)) fun memory =>
        ∀ m < request.m, ∀ n < request.n, memory.cell (.floats .output) (m * request.n + n) =
          some (product (fun b => operands.weight (n * (request.k / 32) + b))
            ((decoded operands).activation m) (request.k / 32))) ∧
    ∀ tile_m < request.m / 4, ∀ tile_n < request.n / 16, ∀ v : ℕ → α,
      Ends ((prepare request operands fourRowScale memory).bind fun memory =>
          m4Kernel (FloatOps.exact α) .staged (tile_m * (request.k / 32) * 144)
            (tile_n * (request.k / 32)) .tile 0 (request.k / 32)
            (memory.renew (.floats .tile) fun x => some (v x))) fun memory =>
        ∀ x < 64, memory.cell (.floats .tile) x = some (v x + product
          (fun b => operands.weight ((tile_n * 16 + mivColumn x) * (request.k / 32) + b))
          ((decoded operands).activation (tile_m * 4 + mivRow x)) (request.k / 32)) := by
  constructor
  · intro orders iterations some_iteration previous
    refine (prepared_run supported orders some_iteration previous memory sizes).mono
      fun memory sums => ?_
    intro m hm n hn
    rw [sums m hm n hn, partialSum_exact]
    rfl
  · intro tile_m htm tile_n ht v
    refine (prepared_m4Kernel memory sizes htm ht v).mono fun memory sums => ?_
    intro x hx
    rw [sums x hx]
    exact congrArg some (accumulated_exact
      ((decoded operands).column request (tile_n * 16 + mivColumn x))
      ((decoded operands).activation (tile_m * 4 + mivRow x)) (v x) (request.k / 32))

end Exact

section Sample

/-- The words as the numbers that they count. -/
local instance : OfWord ℚ := ⟨fun w => w.toNat⟩

/-- A memory that nothing was written to. -/
def m4Unwritten (size : M4Buffer → ℕ) : M4Memory ℚ ℚ where
  size := size
  cell := fun k _ => match k with
    | .activation _ => none
    | .weights => none
    | .scales => none
    | .floats _ => none

theorem sample_m4i_product :
    (Ends ((prepare (sampleTiles 4 16) variedOperands (fun _ _ => 3)
        (m4Unwritten (m4Size (sampleTiles 4 16)))).bind fun memory =>
      run (FloatOps.exact ℚ) (sampleTiles 4 16) sampleOrders 2
        (memory.renew (.floats .output) fun _ => some 7)) fun memory =>
      memory.cell (.floats .output) (6 * 32 + 21) = some 40143) ∧
    Ends ((prepare (sampleTiles 4 16) variedOperands (fun _ _ => 3)
        (m4Unwritten (m4Size (sampleTiles 4 16)))).bind fun memory =>
      m4Kernel (FloatOps.exact ℚ) .staged 288 2 .tile 0 2
        (memory.renew (.floats .tile) fun x => some x)) fun memory =>
      memory.cell (.floats .tile) 37 = some 40893 := by
  have both := m4i_product (sampleTiles 4 16) variedOperands (fun _ _ => 3) (by decide)
    (m4Unwritten (m4Size (sampleTiles 4 16))) rfl
  constructor
  · refine (both.1 sampleOrders 2 (by decide) fun _ => some 7).mono fun memory h => ?_
    refine (h 6 (by decide) 21 (by decide)).trans ?_
    decide +kernel
  · refine (both.2 1 (by decide) 1 (by decide) fun x => x).mono fun memory h => ?_
    refine (h 37 (by decide)).trans ?_
    decide +kernel

end Sample

end Pfng.Q40.ImmediateReduction
