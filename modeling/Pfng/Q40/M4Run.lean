import Pfng.Q40.M4Packing

/-! Both runs of the immediate reduction leave the same sums, whatever the float steps are. -/
namespace Pfng.Q40.ImmediateReduction
open Checked Ime BatchReduction

variable {F H : Type} [OfWord F] {ops : FloatOps F H} {request : Bench.BenchmarkRequest}
variable {operands : Operands Word H} {fourRowScale : ℕ → ℕ → Word} {c : ℕ → Option F}

section Tile

variable (ops request operands) in
/-- An element of a tile after its first `n` blocks. -/
def mivElement (tile_m tile_n n x : ℕ) : F :=
  (decoded operands).partialSum ops request (tile_m * 4 + mivRow x) (tile_n * 16 + mivColumn x) n

theorem holdsBlock_of_holds {a : Blocks} {m : M4Memory H F} {s tile_m tile_n block : ℕ}
    (sizes : m.size = m4Size request)
    (holds : Holds (m4Contents ops request operands c) (M4Operands request a) m)
    (live : LiveBlock request a s) (owner : blockOwner request a s = (tile_m, block))
    (ht : tile_n < request.n / 16) (hb : block < request.k / 32) :
    HoldsBlock a (s * 144) (tile_n * (request.k / 32) + block)
      (fun row => operands.activation (tile_m * 4 + row) block)
      (fun column => operands.column request (tile_n * 16 + column) block) m where
  activation o ho := by
    rw [sizes, holds]
    · refine ⟨live_lt live ho, ?_⟩
      change some _ = _
      rw [m4Byte, Layout.row ho, Layout.column ho, owner]
    · refine ⟨rfl, ?_⟩
      rwa [Layout.row ho]
  weights o ho := by
    have inside := Layout.index_lt (Layout.index_lt ht hb) ho
    rw [sizes, holds .weights _ inside]
    refine ⟨inside, ?_⟩
    change some _ = _
    rw [Layout.row ho, Layout.column ho, Layout.row hb, Layout.column hb]
  scales column hc := by
    have inside := Layout.index_lt (Layout.index_lt ht hb) hc
    rw [sizes, holds .scales _ inside]
    refine ⟨inside, ?_⟩
    change some _ = _
    rw [Layout.row hc, Layout.column hc, Layout.row hb, Layout.column hb]

/-- The unpacked tile is a tile of the output. -/
theorem unpackedCells_iff {tile_m tile_n : ℕ} {k : M4Buffer} {y : ℕ} :
    UnpackedCells (tile_m * 4 * request.n + tile_n * 16) request.n k y ↔
      MatrixTile (.floats .output) request.n 4 16 tile_m tile_n k y := by
  have address : ∀ row column, tile_m * 4 * request.n + tile_n * 16 + row * request.n + column =
      (tile_m * 4 + row) * request.n + (tile_n * 16 + column) := by
    intro row column
    ring
  constructor
  · rintro ⟨rfl, x, hx, rfl⟩
    have inside : mivRow x < 4 ∧ mivColumn x < 16 := by
      unfold mivRow mivColumn
      omega
    exact ⟨rfl, _, inside.1, _, inside.2, address _ _⟩
  · rintro ⟨rfl, row, hr, column, hc, rfl⟩
    have inside : column / 4 * 16 + row * 4 + column % 4 < 64 := by omega
    have element : mivRow (column / 4 * 16 + row * 4 + column % 4) = row ∧
        mivColumn (column / 4 * 16 + row * 4 + column % 4) = column := by
      unfold mivRow mivColumn
      omega
    refine ⟨rfl, _, inside, ?_⟩
    rw [element.1, element.2, address]

theorem unpackTile_ends [Inhabited F] {m : M4Memory H F} {f : M4Floats} {base tile_m tile_n : ℕ}
    (sizes : m.size = m4Size request) (wholeM : request.m / 4 * 4 = request.m)
    (wholeN : request.n / 16 * 16 = request.n) (htm : tile_m < request.m / 4)
    (ht : tile_n < request.n / 16)
    (held : HoldsMiv f base (mivElement ops request operands tile_m tile_n (request.k / 32)) m) :
    Ends (cUnpack f base (tile_m * 4 * request.n + tile_n * 16) request.n m) fun m' =>
      Within (MatrixTile (.floats .output) request.n 4 16 tile_m tile_n) m m' ∧
        Holds (m4Contents ops request operands c)
          (MatrixTile (.floats .output) request.n 4 16 tile_m tile_n) m' := by
  have place : ∀ x < 64, tile_m * 4 + mivRow x < request.m ∧ tile_n * 16 + mivColumn x < request.n ∧
      tile_m * 4 * request.n + tile_n * 16 + mivRow x * request.n + mivColumn x =
        (tile_m * 4 + mivRow x) * request.n + (tile_n * 16 + mivColumn x) := by
    intro x hx
    have row : mivRow x < 4 := Nat.div_lt_of_lt_mul (Nat.mod_lt x (by decide))
    have column : mivColumn x < 16 := by
      unfold mivColumn
      omega
    exact ⟨tile_column_lt wholeM htm row, tile_column_lt wholeN ht column, by ring⟩
  refine Ends.mono (cUnpack_ends (w := m4Contents ops request operands c) held ?_ ?_)
    fun m' ⟨change, left⟩ => ⟨change.mono fun _ _ => unpackedCells_iff.mp,
      left.mono fun _ _ => unpackedCells_iff.mpr⟩
  · intro x hx
    obtain ⟨row, column, address⟩ := place x hx
    rw [address, sizes]
    exact Layout.index_lt row column
  · intro x hx
    obtain ⟨_, column, address⟩ := place x hx
    rw [address]
    change some _ = some _
    rw [Layout.row column, Layout.column column]
    rfl

variable [Inhabited F] [Inhabited H]

theorem tileKernel_ends {a : Blocks} {m : M4Memory H F} {f : M4Floats}
    {s base tile_m tile_n block_k count : ℕ} (sizes : m.size = m4Size request)
    (holds : Holds (m4Contents ops request operands c) (M4Operands request a) m)
    (ht : tile_n < request.n / 16) (hk : block_k + count ≤ request.k / 32)
    (found : ∀ b < count, LiveBlock request a (s + b) ∧
      blockOwner request a (s + b) = (tile_m, block_k + b))
    (held : HoldsMiv f base (mivElement ops request operands tile_m tile_n block_k) m) :
    Ends (m4Kernel ops a (s * 144) (tile_n * (request.k / 32) + block_k) f base count m) fun m' =>
      Within (MivCells f base) m m' ∧
        HoldsMiv f base (mivElement ops request operands tile_m tile_n (block_k + count)) m' := by
  have blocks : ∀ b < count, HoldsBlock a (s * 144 + b * 144)
      (tile_n * (request.k / 32) + block_k + b)
      (fun row => operands.activation (tile_m * 4 + row) (block_k + b))
      (fun column => operands.column request (tile_n * 16 + column) (block_k + b)) m := by
    intro b hb
    rw [← Nat.add_mul, Nat.add_assoc]
    exact holdsBlock_of_holds sizes holds (found b hb).1 (found b hb).2 ht (by omega)
  refine (m4Kernel_ends blocks held).mono fun m' ⟨change, sums⟩ => ⟨change, ?_⟩
  intro x hx
  obtain ⟨inside, sum⟩ := sums x hx
  refine ⟨inside, sum.trans ?_⟩
  unfold mivElement Operands.partialSum
  rw [accumulated_add]
  rfl

end Tile

section Plain

theorem staged_found {tile_m : ℕ} (ht : tile_m < request.m / 4) : ∀ b < request.k / 32,
    LiveBlock request .staged (tile_m * (request.k / 32) + b) ∧
      blockOwner request .staged (tile_m * (request.k / 32) + b) = (tile_m, 0 + b) := by
  intro b hb
  rw [blockOwner, plainSlot, Layout.row hb, Layout.column hb, Nat.zero_add]
  exact ⟨Layout.index_lt ht hb, rfl⟩

theorem tileBlocks {m : M4Memory H F} {tile_m tile_n : ℕ} (sizes : m.size = m4Size request)
    (holds : Holds (m4Contents ops request operands c) (M4Operands request .staged) m)
    (htm : tile_m < request.m / 4) (ht : tile_n < request.n / 16) :
    ∀ b < request.k / 32, HoldsBlock .staged (tile_m * (request.k / 32) * 144 + b * 144)
      (tile_n * (request.k / 32) + b) (fun row => operands.activation (tile_m * 4 + row) b)
      (fun column => operands.column request (tile_n * 16 + column) b) m := by
  intro b hb
  obtain ⟨live, owner⟩ := staged_found htm b hb
  rw [Nat.zero_add] at owner
  rw [← Nat.add_mul]
  exact holdsBlock_of_holds sizes holds live owner ht hb

variable [Inhabited F] [Inhabited H]

theorem plainTile_effect (wholeM : request.m / 4 * 4 = request.m)
    (wholeN : request.n / 16 * 16 = request.n) {tile_m tile_n : ℕ} (htm : tile_m < request.m / 4)
    (ht : tile_n < request.n / 16) :
    Effect (m4Size request) (m4Contents ops request operands c) (M4Operands request .staged)
      (fun memory => (m4Kernel ops .staged (tile_m * (request.k / 32) * 144)
        (tile_n * (request.k / 32)) .tile 0 (request.k / 32)
        (memory.renew (.floats .tile) fun _ => some ops.zero)).bind
        (cUnpack .tile 0 (tile_m * 4 * request.n + tile_n * 16) request.n))
      (m4Contents ops request operands c) (MatrixTile (.floats .output) request.n 4 16 tile_m tile_n)
      (fun k x => k = .floats .tile ∨ MatrixTile (.floats .output) request.n 4 16 tile_m tile_n k x) := by
  have zeroed : Effect (m4Size request) (m4Contents ops request operands c)
      (M4Operands request .staged)
      (fun memory => some (memory.renew (.floats .tile) fun _ => some ops.zero)) _ _ _ :=
    Effect.renewed (fun _ => rfl) fun x cell => cell
  intro m sizes holds
  obtain ⟨_, same, change₀, left₀⟩ := zeroed m sizes holds
  cases same
  have sizes₀ := change₀.size.trans sizes
  have zeros : HoldsMiv .tile 0 (mivElement ops request operands tile_m tile_n 0)
      (m.renew (.floats .tile) fun _ => some ops.zero) := by
    intro x hx
    refine ⟨?_, left₀ (.floats .tile) _ (.inr rfl)⟩
    rwa [sizes₀, Nat.zero_add]
  have kernel := tileKernel_ends sizes₀ (left₀.mono fun _ _ => .inl) ht (Nat.zero_add _).le
    (staged_found htm) zeros
  rw [Nat.add_zero, Nat.zero_add] at kernel
  refine kernel.bind fun m₁ ⟨change₁, sums⟩ => ?_
  refine (unpackTile_ends (c := c) (change₁.size.trans sizes₀) wholeM wholeN htm ht sums).mono
    fun m₂ ⟨change₂, left₂⟩ => ⟨?_, left₂⟩
  refine ((change₀.mono fun _ _ => .inl).trans (change₁.mono ?_)).trans (change₂.mono fun _ _ => .inr)
  rintro k x ⟨rfl, _⟩
  exact .inl rfl

theorem run_effect (wholeM : request.m / 4 * 4 = request.m)
    (wholeN : request.n / 16 * 16 = request.n) (orders : Orders ℕ (request.m / 4)) (iterations : ℕ) :
    Effect (m4Size request) (m4Contents ops request operands c) (M4Operands request .staged)
      (run ops request orders iterations) (m4Contents ops request operands c)
      (fun k x => 0 < iterations ∧ k = .floats .output ∧ x < request.m * request.n)
      (fun k _ => k = .floats .tile ∨ k = .floats .output) := by
  have apart : ∀ k x, M4Operands request .staged k x → ¬ k = .floats .tile ∧ k ≠ .floats .output := by
    rintro k x cell
    constructor
    · rintro rfl
      exact cell
    · rintro rfl
      exact cell
  have scratch : ∀ x : ℕ, ¬ M4Buffer.floats .output = .floats .tile := by
    intro x
    nofun
  refine Effect.passes (fun iteration _ => Effect.tileRows wholeM (by decide) apart scratch
    (orders.complete iteration) fun tile_m htm => Effect.tileColumns wholeN (by decide) apart scratch
      fun tile_n ht => plainTile_effect wholeM wholeN htm ht) ?_
  rintro k x cell (rfl | rfl)
  · exact cell
  · exact cell

end Plain

namespace CacheBlocking

variable (ops request operands) in
/-- The tiles of C after their first `n` blocks. -/
def packedSums (n x : ℕ) : Option F :=
  some (mivElement ops request operands (x / 64 / (request.n / 16)) (x / 64 % (request.n / 16)) n
    (x % 64))

theorem packedSums_tile {tile_m tile_n n x : ℕ} (ht : tile_n < request.n / 16) (hx : x < 64) :
    packedSums ops request operands n (cTile request tile_m tile_n + x) =
      some (mivElement ops request operands tile_m tile_n n x) := by
  rw [packedSums, cTile, Layout.row hx, Layout.column hx, Layout.row ht, Layout.column ht]

abbrev CTile (request : Bench.BenchmarkRequest) (tile : ℕ × ℕ) : Region M4Buffer :=
  MivCells .packedC (cTile request tile.1 tile.2)

theorem cTile_apart {i j : ℕ × ℕ} (hi : i.2 < request.n / 16) (hj : j.2 < request.n / 16)
    (other : i ≠ j) {k : M4Buffer} {x : ℕ} (cell : CTile request i k x) : ¬ CTile request j k x := by
  obtain ⟨_, lane, hl, rfl⟩ := cell
  rintro ⟨_, lane', hl', same⟩
  have equal := Layout.unique hi hj (Layout.unique hl hl' same).1
  exact other (Prod.ext equal.1 equal.2)

theorem holdsMiv_of_holds {A : Region M4Buffer} {m : M4Memory H F} {n tile_m tile_n : ℕ}
    (sizes : m.size = m4Size request)
    (holds : Holds (m4Contents ops request operands (packedSums ops request operands n)) A m)
    (htm : tile_m < request.m / 4) (ht : tile_n < request.n / 16)
    (known : ∀ k x, CTile request (tile_m, tile_n) k x → A k x) :
    HoldsMiv .packedC (cTile request tile_m tile_n)
      (mivElement ops request operands tile_m tile_n n) m := by
  intro x hx
  rw [sizes]
  refine ⟨Layout.index_lt (Layout.index_lt htm ht) hx, ?_⟩
  refine (holds _ _ (known _ _ ⟨rfl, x, hx, rfl⟩)).trans ?_
  exact packedSums_tile ht hx

theorem contents_packedC {c' : ℕ → Option F} {k : M4Buffer} (other : k ≠ .floats .packedC) (x : ℕ) :
    m4Contents ops request operands c k x = m4Contents ops request operands c' k x := by
  cases k with
  | activation a => rfl
  | weights => rfl
  | scales => rfl
  | floats f =>
      cases f with
      | packedC => exact absurd rfl other
      | tile => rfl
      | output => rfl

variable [Inhabited F] [Inhabited H]

theorem tile_ends {p tile_m tile_n : ℕ} (hp : p < (layout request).panels)
    (htm : tile_m < request.m / 4) (ht : tile_n < request.n / 16) {m : M4Memory H F}
    (sizes : m.size = m4Size request)
    (holds : Holds (m4Contents ops request operands c) (M4Operands request .panels) m)
    (held : 0 < p → HoldsMiv .packedC (cTile request tile_m tile_n)
      (mivElement ops request operands tile_m tile_n ((layout request).done p)) m) :
    Ends (tile ops request p tile_m tile_n m) fun m' =>
      Within (CTile request (tile_m, tile_n)) m m' ∧ HoldsMiv .packedC (cTile request tile_m tile_n)
        (mivElement ops request operands tile_m tile_n ((layout request).done (p + 1))) m' := by
  obtain ⟨first, some_block, next⟩ := PanelLayout.done_succ hp
  have kernel : ∀ m₁ : M4Memory H F, Within (CTile request (tile_m, tile_n)) m m₁ →
      HoldsMiv .packedC (cTile request tile_m tile_n)
        (mivElement ops request operands tile_m tile_n ((layout request).done p)) m₁ →
      Ends (m4Kernel ops .panels ((layout request).slot p tile_m 0 * 144)
        (tile_n * (request.k / 32) + p * (layout request).kBlocksPerPanel) .packedC
        (cTile request tile_m tile_n) ((layout request).localBlocks p) m₁) fun m' =>
        Within (CTile request (tile_m, tile_n)) m m' ∧ HoldsMiv .packedC (cTile request tile_m tile_n)
          (mivElement ops request operands tile_m tile_n ((layout request).done (p + 1))) m' := by
    intro m₁ change begun
    have holds₁ : Holds (m4Contents ops request operands c) (M4Operands request .panels) m₁ := by
      intro k x cell
      rw [change.frame k x, holds k x cell]
      rintro ⟨rfl, _⟩
      exact cell
    rw [first] at begun
    refine (tileKernel_ends (change.size.trans sizes) holds₁ ht (PanelLayout.panel_le some_block)
      (PanelLayout.found hp htm) begun).mono fun m' ⟨change', added⟩ => ⟨change.trans change', ?_⟩
    rwa [next, first]
  unfold tile
  dsimp only
  rcases Nat.eq_zero_or_pos p with rfl | later
  · rw [if_pos (Nat.zero_mul _)]
    have zeros : Writes (m4Size request) (fun memory : M4Memory H F =>
        memory.storeLanes (.floats .packedC) (cTile request tile_m tile_n) 64 fun _ => some ops.zero)
        (m4Contents ops request operands (packedSums ops request operands 0)) _ :=
      Writes.storeLanes (fun x hx => Layout.index_lt (Layout.index_lt htm ht) hx) fun x hx => by
        have zero : mivElement ops request operands tile_m tile_n 0 x = ops.zero := rfl
        rw [← zero]
        exact (packedSums_tile ht hx).symm
    refine (zeros m sizes fun _ _ no => no.elim).bind fun m₁ ⟨change, left⟩ => ?_
    refine kernel m₁ change ?_
    rw [PanelLayout.done_zero]
    exact holdsMiv_of_holds (change.size.trans sizes) left htm ht fun _ _ cell => cell
  · have some_panel : p * (layout request).kBlocksPerPanel ≠ 0 :=
      (Nat.mul_pos later (layout request).pos).ne'
    rw [if_neg some_panel]
    exact kernel m (Within.refl _ m) (held later)

def PackedC (request : Bench.BenchmarkRequest) : Region M4Buffer := fun k x =>
  ∃ tile : ℕ × ℕ, (tile.1 < request.m / 4 ∧ tile.2 < request.n / 16) ∧ CTile request tile k x

variable (ops operands) in
theorem panels_effect (orders : BlockedOrders (request.m / 4) (request.n / 16)) (iteration : ℕ) :
    Effect (m4Size request)
      (m4Contents ops request operands (packedSums ops request operands ((layout request).done 0)))
      (M4Operands request .panels)
      (forUp (fun p => chunkedTiles (request.m / 4) (chunkTiles request)
        (fun chunk => orders.tiles.order (iteration, p, chunk)) (tile ops request p)) 0
        (layout request).panels)
      (m4Contents ops request operands
        (packedSums ops request operands ((layout request).done (layout request).panels)))
      (fun k x => M4Operands request .panels k x ∨ 0 < (layout request).panels ∧ PackedC request k x)
      (fun k x => False ∨ PackedC request k x) := by
  have flat : (fun p => chunkedTiles (request.m / 4) (chunkTiles request)
      (fun chunk => orders.tiles.order (iteration, p, chunk)) (tile ops request p)) =
      fun p => forEach (fun place : ℕ × ℕ => tile ops request p place.1 place.2)
        (tileVisits (request.m / 4) (chunkTiles request)
          (fun chunk => orders.tiles.order (iteration, p, chunk))) := by
    funext p
    exact chunkedTiles_eq _ _ _ _
  have complete : ∀ p chunk,
      (orders.tiles.order (iteration, p, chunk)).Perm (List.range (request.n / 16)) :=
    fun p chunk => orders.tiles.complete _
  rw [flat]
  refine Effect.panels (N := fun _ _ => False) (S := CTile request)
    (v := fun p => m4Contents ops request operands
      (packedSums ops request operands ((layout request).done p)))
    (fun place => place.1 < request.m / 4 ∧ place.2 < request.n / 16)
    (fun p _ => ⟨tileVisits_nodup (complete p),
      fun place => mem_tileVisits (Nat.le_max_left _ _) (complete p)⟩) ?_ ?_ ?_ ?_
  · intro p k x known
    refine contents_packedC ?_ x
    rintro rfl
    exact known
  · rintro p hp ⟨tile_m, tile_n⟩ ⟨htm, ht⟩ m sizes holds
    refine (tile_ends hp htm ht sizes (holds.mono fun _ _ => .inl) fun later =>
      holdsMiv_of_holds sizes holds htm ht fun _ _ cell => .inr ⟨later, cell⟩).mono
      fun m' ⟨change, sums⟩ => ⟨change.mono fun _ _ => .inr, ?_⟩
    rintro k x ⟨rfl, lane, hl, rfl⟩
    refine (sums lane hl).2.trans ?_
    exact (packedSums_tile ht hl).symm
  · intro k x known
    refine ⟨id, ?_⟩
    rintro place _ ⟨rfl, _⟩
    exact known
  · rintro i ⟨_, hi⟩ k x cell
    exact ⟨id, fun j hj other => cTile_apart hi hj.2 other cell⟩

variable (ops operands) in
omit [Inhabited H] in
theorem copies_effect (wholeM : request.m / 4 * 4 = request.m)
    (wholeN : request.n / 16 * 16 = request.n) {order : List ℕ}
    (complete : order.Perm (List.range (request.m / 4))) :
    Effect (m4Size request)
      (m4Contents ops request operands (packedSums ops request operands (request.k / 32)))
      (PackedC request)
      (forEach (fun tile_m => forUp (fun tile_n => cUnpack .packedC (cTile request tile_m tile_n)
        (tile_m * 4 * request.n + tile_n * 16) request.n) 0 (request.n / 16)) order)
      (m4Contents ops request operands (packedSums ops request operands (request.k / 32)))
      (fun k x => k = .floats .output ∧ x < request.m * request.n)
      (fun k _ => False ∨ k = .floats .output) := by
  have apart : ∀ k x, PackedC request k x → ¬ False ∧ k ≠ .floats .output := by
    rintro k x ⟨_, _, rfl, _⟩
    exact ⟨id, nofun⟩
  refine Effect.tileRows (N := fun _ _ => False) wholeM (by decide) apart (fun _ => id) complete
    fun tile_m htm => Effect.tileColumns wholeN (by decide) apart (fun _ => id)
      fun tile_n ht m sizes holds => ?_
  have sums := holdsMiv_of_holds sizes holds htm ht fun k x cell => ⟨(tile_m, tile_n), ⟨htm, ht⟩, cell⟩
  exact (unpackTile_ends sizes wholeM wholeN htm ht sums).mono fun m' ⟨change, left⟩ =>
    ⟨change.mono fun _ _ => .inr, left⟩

theorem run_effect (blocks : 0 < request.k / 32) (wholeM : request.m / 4 * 4 = request.m)
    (wholeN : request.n / 16 * 16 = request.n)
    (orders : BlockedOrders (request.m / 4) (request.n / 16)) (iterations : ℕ) :
    Effect (m4Size request) (m4Contents ops request operands c) (M4Operands request .panels)
      (run ops request orders iterations) (m4Contents ops request operands c)
      (fun k x => 0 < iterations ∧ k = .floats .output ∧ x < request.m * request.n)
      (fun k _ => k = .floats .packedC ∨ k = .floats .output) := by
  refine Effect.passes (fun iteration _ => ?_) ?_
  · have sums := panels_effect ops operands orders iteration
    rw [PanelLayout.done_panels] at sums
    have copies := copies_effect ops operands wholeM wholeN (orders.copies.complete iteration)
    refine (sums.seq (copies.weaken
      (B := fun k x => M4Operands request .panels k x ∨
        0 < (layout request).panels ∧ PackedC request k x)
      (fun _ _ cell => ⟨.inr ⟨PanelLayout.panels_pos blocks, cell⟩, rfl⟩)
      (fun _ _ cell => .inl ⟨cell, rfl⟩) fun _ _ cell => cell)).weaken ?_ ?_ ?_
    · intro k x cell
      refine ⟨cell, contents_packedC ?_ x⟩
      rintro rfl
      exact cell
    · rintro k x ⟨rfl, inside⟩
      exact .inl ⟨⟨rfl, inside⟩, rfl⟩
    · rintro k x ((no | ⟨_, _, rfl, _⟩) | no | rfl)
      · exact no.elim
      · exact .inl rfl
      · exact no.elim
      · exact .inr rfl
  · rintro k x cell (rfl | rfl)
    · exact cell
    · exact cell

/-- With panels every copied byte is the staged one, and the output is that of the run without them:
for any float steps, any order of the iterations and any previous contents. -/
theorem m4_cache_blocking_output (ops : FloatOps Word H) (request : Bench.BenchmarkRequest)
    (operands : Operands Word H) (fourRowScale : ℕ → ℕ → Word)
    (supported : (validateShape 4 16 32 request).supported = true)
    (plainOrders : Orders ℕ (request.m / 4))
    (orders : BlockedOrders (request.m / 4) (request.n / 16)) {iterations : ℕ}
    (some_iteration : 1 ≤ iterations) (previous previous' packed : ℕ → Option Word)
    (memory memory' : M4Memory H) (sizes : memory.size = m4Size request)
    (sizes' : memory'.size = m4Size request) :
    (Ends (prepare request operands fourRowScale memory') fun prepared =>
      ∀ p < (layout request).panels, ∀ tile_m < request.m / 4,
      ∀ local_block < (layout request).localBlocks p, ∀ o < 144,
        (prepared.cell (.activation .panels)
          ((layout request).slot p tile_m local_block * 144 + o)).isSome ∧
        prepared.cell (.activation .panels)
            ((layout request).slot p tile_m local_block * 144 + o) =
          prepared.cell (.activation .staged) ((tile_m * (request.k / 32) +
            (p * (layout request).kBlocksPerPanel + local_block)) * 144 + o)) ∧
    Ends ((ImmediateReduction.prepare request operands fourRowScale memory).bind fun memory =>
        ImmediateReduction.run ops request plainOrders iterations
          (memory.renew (.floats .output) previous))
      fun plain => Ends ((prepare request operands fourRowScale memory').bind fun memory =>
          run ops request orders iterations
            ((memory.renew (.floats .output) previous').renew (.floats .packedC) packed))
        fun blocked => ∀ x < request.m * request.n,
          (plain.cell (.floats .output) x).isSome ∧
            blocked.cell (.floats .output) x = plain.cell (.floats .output) x := by
  obtain ⟨⟨_, _, depth⟩, wholeM, wholeN, wholeK⟩ := validateShape_supported supported
  have blocks : 0 < request.k / 32 := by omega
  have prepared := prepare_panels_effect ops request operands fourRowScale fun _ => none
  constructor
  · refine (prepared memory' sizes' fun _ _ no => no.elim).mono fun memory stored => ?_
    intro p hp tile_m ht local_block hl o ho
    have left := stored.2
    have copied : LiveBlock request .panels
        (((layout request).slot p tile_m local_block * 144 + o) / 144) := by
      rw [Layout.row ho]
      exact ⟨p, hp, tile_m, ht, local_block, hl, rfl⟩
    have staged : LiveBlock request .staged (((tile_m * (request.k / 32) +
        (p * (layout request).kBlocksPerPanel + local_block)) * 144 + o) / 144) := by
      rw [Layout.row ho]
      exact Layout.index_lt ht (PanelLayout.block_lt hl)
    rw [left (.activation .panels) _ (.inr ⟨rfl, copied⟩),
      left (.activation .staged) _ (.inl ⟨rfl, staged⟩), staged_cell (PanelLayout.block_lt hl) ho]
    refine ⟨rfl, ?_⟩
    change some _ = _
    rw [m4Byte, Layout.row ho, Layout.column ho, blockOwner, PanelLayout.owner_slot ht hl]
  · have plain : Effect (m4Size request) (m4Contents ops request operands fun _ => none)
        (M4Operands request .staged)
        (fun memory => some (memory.renew (.floats .output) previous)) _ _ _ :=
      Effect.renew fun _ cell => cell
    have output : Effect (m4Size request) (m4Contents ops request operands fun _ => none)
        (M4Operands request .panels)
        (fun memory => some (memory.renew (.floats .output) previous')) _ _ _ :=
      Effect.renew fun _ cell => cell
    have fresh : Effect (m4Size request) (m4Contents ops request operands fun _ => none)
        (M4Operands request .panels)
        (fun memory => some (memory.renew (.floats .packedC) packed)) _ _ _ :=
      Effect.renew fun _ cell => cell
    have first := (prepare_effect ops request operands fourRowScale fun _ => none).seq
      (plain.seq (ImmediateReduction.run_effect wholeM wholeN plainOrders iterations))
    have panels := prepared.weaken (T := M4Operands request .panels) (fun _ _ no => ⟨no, rfl⟩)
      (fun _ _ cell => .inl ⟨.inr cell, rfl⟩) fun _ _ more => more
    have second := panels.seq (output.seq (fresh.seq (run_effect blocks wholeM wholeN orders iterations)))
    refine (first memory sizes fun _ _ no => no.elim).mono fun plain stored => ?_
    refine (second memory' sizes' fun _ _ no => no.elim).mono fun blocked stored' => ?_
    intro x hx
    rw [stored.2 (.floats .output) x ⟨some_iteration, rfl, hx⟩,
      stored'.2 (.floats .output) x ⟨some_iteration, rfl, hx⟩]
    exact ⟨rfl, rfl⟩

end CacheBlocking

def sampleRows : Bench.BenchmarkRequest := ⟨4, 16, 1056, 0, 1, 1, 1, 0, 0, true, []⟩

def sampleOps : FloatOps Word (BitVec 16) where
  zero := 0
  widen := BitVec.setWidth 32
  ofInt := BitVec.ofInt 32
  mul x y := x * y
  fma c x y := c + x * y

def unwritten (request : Bench.BenchmarkRequest) : M4Memory (BitVec 16) where
  size := m4Size request
  cell := fun k _ => match k with
    | .activation _ => none
    | .weights => none
    | .scales => none
    | .floats _ => none

theorem sample_m4_cache_blocking :
    Ends ((prepare sampleRows ⟨fun _ _ => ⟨2, fun _ => 127⟩, fun _ => ⟨1, fun _ => 0x99⟩⟩
        (fun _ _ => 3) (unwritten sampleRows)).bind fun memory =>
      run sampleOps sampleRows (.inOrder ℕ 1) 1 (memory.renew (.floats .output) fun _ => none))
      fun plain => Ends ((CacheBlocking.prepare sampleRows
          ⟨fun _ _ => ⟨2, fun _ => 127⟩, fun _ => ⟨1, fun _ => 0x99⟩⟩ (fun _ _ => 3)
          (unwritten sampleRows)).bind fun memory =>
        CacheBlocking.run sampleOps sampleRows (.inOrder 1 1) 1
          ((memory.renew (.floats .output) fun _ => some 5).renew (.floats .packedC) fun _ => some 7))
        fun blocked => blocked.cell (.floats .output) 0 = plain.cell (.floats .output) 0 := by
  refine (CacheBlocking.m4_cache_blocking_output sampleOps sampleRows
    ⟨fun _ _ => ⟨2, fun _ => 127⟩, fun _ => ⟨1, fun _ => 0x99⟩⟩ (fun _ _ => 3) (by decide)
    (.inOrder ℕ 1) (.inOrder 1 1) (by decide) (fun _ => none) (fun _ => some 5) (fun _ => some 7)
    (unwritten sampleRows) (unwritten sampleRows) rfl rfl).2.mono fun plain same => ?_
  exact same.mono fun blocked same => (same 0 (by decide)).2

end Pfng.Q40.ImmediateReduction
