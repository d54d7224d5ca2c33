import Pfng.Q40.HalfPacking
import Pfng.Q40.Panels

/-! Panels over K that add to the output: what one pass over the tiles makes of it. -/
namespace Pfng.Q40.HalfBlocks
open Checked Ime BatchReduction

variable {F H : Type}

section Sums

variable (ops : FloatOps F H) (scale : H → H) (request : Bench.BenchmarkRequest) (operands : Operands H H)

def halfOperands : Operands F H where
  activation row block :=
    ⟨ops.widen (scale (operands.activation row block).d), (operands.activation row block).qs⟩
  weight i := ⟨scale (operands.weight i).d, (operands.weight i).qs⟩

/-- The output after the first `n` K blocks. -/
def sums (n x : ℕ) : Option F :=
  some ((halfOperands ops scale operands).partialSum ops request (x / request.n) (x % request.n) n)

variable (groups nr : ℕ)

/-- The buffers after the first `n` K blocks. -/
def sumContents (n : ℕ) : Contents HalfBuffer (HalfCell F H) :=
  halfContents request operands scale groups nr (fun _ => none) (sums ops scale request operands n)

abbrev OutputTile (tile : ℕ × ℕ) : Region HalfBuffer :=
  MatrixTile .output request.n (groups * 4) nr tile.1 tile.2

def Output : Region HalfBuffer := fun k x => k = .output ∧ x < request.m * request.n

def Tiles (tile : ℕ × ℕ) : Prop := tile.1 < request.m / (groups * 4) ∧ tile.2 < request.n / nr

end Sums

variable {ops : FloatOps F H} {scale : H → H} {request : Bench.BenchmarkRequest}
variable {operands : Operands H H} {groups nr n : ℕ}

theorem sumContents_operand {n' : ℕ} {k : HalfBuffer} {x : ℕ} (cell : HalfOperands request groups nr k x) :
    sumContents ops scale request operands groups nr n' k x =
      sumContents ops scale request operands groups nr n k x := by
  cases k with
  | output => exact cell.elim
  | fourRows => rfl
  | scalesA => rfl
  | quantsA => rfl
  | scalesB => rfl
  | quantsB => rfl

theorem operands_apart {k : HalfBuffer} {x : ℕ} (cell : HalfOperands request groups nr k x) :
    k ≠ .output := by
  rintro rfl
  exact cell

theorem prepared_effect {fourRowScale : ℕ → ℕ → BitVec 32} {place : ℕ → ℕ → ℕ → ℕ}
    (here : ∀ plane < 2, ∀ column < nr, ∀ j < 8, place plane column j = plane * (nr * 8) + (column * 8 + j)) :
    Effect (halfSize request groups nr) (sumContents ops scale request operands groups nr n)
      (fun _ _ => False)
      (fun memory => (packA request operands fourRowScale scale groups memory).bind
        (packB request operands scale nr place))
      (sumContents ops scale request operands groups nr n) (HalfOperands request groups nr)
      fun _ _ => True := packed_effect here

/-- Panel after panel the tiles take the K blocks of the panel; `known` says before which panels the
output holds the sums of the earlier ones. -/
theorem pass_effect {layout : PanelLayout (request.m / (groups * 4)) (request.k / 32)}
    {body : ℕ → ℕ × ℕ → HalfMemory F H → Option (HalfMemory F H)} {order : ℕ → List (ℕ × ℕ)}
    {known : ℕ → Prop} (wholeM : request.m / (groups * 4) * (groups * 4) = request.m)
    (wholeN : request.n / nr * nr = request.n) (posM : 0 < groups * 4) (posN : 0 < nr)
    (after : known layout.panels)
    (visits : ∀ p < layout.panels, (order p).Nodup ∧ ∀ tile, tile ∈ order p ↔ Tiles request groups nr tile)
    (each : ∀ p < layout.panels, ∀ tile, Tiles request groups nr tile →
      Effect (halfSize request groups nr)
        (sumContents ops scale request operands groups nr (layout.done p))
        (fun k x => HalfOperands request groups nr k x ∨ known p ∧ OutputTile request groups nr tile k x)
        (body p tile) (sumContents ops scale request operands groups nr (layout.done (p + 1)))
        (OutputTile request groups nr tile) (OutputTile request groups nr tile)) :
    Effect (halfSize request groups nr) (sumContents ops scale request operands groups nr 0)
      (fun k x => HalfOperands request groups nr k x ∨ known 0 ∧ Output request k x)
      (forUp (fun p => forEach (body p) (order p)) 0 layout.panels)
      (sumContents ops scale request operands groups nr (request.k / 32)) (Output request)
      fun k _ => k = .output := by
  have run := Effect.panelsFrom (N := fun _ _ => False) (A := HalfOperands request groups nr)
    (S := OutputTile request groups nr)
    (v := fun p => sumContents ops scale request operands groups nr (layout.done p)) known visits
    (fun p k x cell => sumContents_operand cell)
    (fun p hp tile member => (each p hp tile member).weaken (fun _ _ cell => ⟨cell, rfl⟩)
      (fun _ _ cell => .inl ⟨cell, rfl⟩) fun _ _ => .inr)
    (by
      intro k x cell
      refine ⟨id, ?_⟩
      rintro tile _ ⟨rfl, _⟩
      exact cell)
    fun tile member k x cell => ⟨id, fun tile' member' other =>
      matrixTile_apart wholeN member.2 member'.2 other cell⟩
  rw [PanelLayout.done_zero, PanelLayout.done_panels] at run
  refine run.weaken ?_ ?_ ?_
  · rintro k x (cell | ⟨begun, tile, member, cell⟩)
    · exact ⟨.inl cell, rfl⟩
    · exact ⟨.inr ⟨begun, (matrixTile_covers wholeM wholeN posM posN).mpr ⟨tile, member, cell⟩⟩, rfl⟩
  · intro k x cell
    exact .inl ⟨.inr ⟨after, (matrixTile_covers wholeM wholeN posM posN).mp cell⟩, rfl⟩
  · rintro k x (no | ⟨tile, _, rfl, _⟩)
    · exact no.elim
    · rfl

end Pfng.Q40.HalfBlocks
