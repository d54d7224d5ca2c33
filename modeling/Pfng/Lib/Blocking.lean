import Mathlib.Data.List.Nodup
import Mathlib.Data.List.ProdSigma
import Pfng.Lib.Layout
import Pfng.Lib.Memory

/-! Blocked loop nests. A nest that takes the rows of tiles in chunks, and for each chunk the columns
in any order, is one loop over a list in which every tile stands once. -/
namespace Checked

variable {σ ι α : Type*}

theorem forEach_append (body : ι → σ → Option σ) (order later : List ι) (s : σ) :
    forEach body (order ++ later) s = (forEach body order s).bind (forEach body later) := by
  induction order generalizing s with
  | nil => rfl
  | cons i order ih =>
      rw [List.cons_append, forEach, forEach, Option.bind_assoc]
      congr 1
      funext t
      exact ih t

theorem forEach_flatMap (body : ι → σ → Option σ) (f : α → List ι) (order : List α) :
    forEach body (order.flatMap f) = forEach (fun a => forEach body (f a)) order := by
  induction order with
  | nil => rfl
  | cons a order ih =>
      funext s
      rw [List.flatMap_cons, forEach_append, ih, forEach]

theorem forEach_map (body : ι → σ → Option σ) (f : α → ι) (order : List α) :
    forEach body (order.map f) = forEach (fun a => body (f a)) order := by
  induction order with
  | nil => rfl
  | cons a order ih =>
      funext s
      rw [List.map_cons, forEach, forEach, ih]

theorem forUp_product (body : ℕ × ℕ → σ → Option σ) (m n : ℕ) :
    forUp (fun i => forUp (fun j => body (i, j)) 0 n) 0 m =
      forEach body ((List.range m).product (List.range n)) := by
  rw [List.product, forEach_flatMap, forUp_eq_forEach, ← List.range_eq_range']
  congr 1
  funext i
  rw [forEach_map, forUp_eq_forEach, ← List.range_eq_range']

section Chunks

variable (rows chunk_tiles : ℕ) (order : ℕ → List ℕ)

/-- `for (begin = 0; begin < rows; begin += chunk_tiles)`. -/
def chunkCount : ℕ := (rows + chunk_tiles - 1) / chunk_tiles

theorem chunkCount_whole {rows chunk_tiles : ℕ} (pos : 0 < chunk_tiles)
    (whole : rows / chunk_tiles * chunk_tiles = rows) : chunkCount rows chunk_tiles = rows / chunk_tiles := by
  have last : chunk_tiles - 1 < chunk_tiles := by omega
  have split := Layout.row (q := rows / chunk_tiles) last
  rwa [whole, ← Nat.add_sub_assoc pos] at split

/-- The rows from `begin` to `min(rows, begin + chunk_tiles)` of each chunk, for every column of its
order. -/
def chunkedTiles (body : ℕ → ℕ → σ → Option σ) : σ → Option σ :=
  forUp (fun chunk => forEach (fun column => forUp (fun row => body row column) (chunk * chunk_tiles)
    (min rows (chunk * chunk_tiles + chunk_tiles) - chunk * chunk_tiles)) (order chunk))
    0 (chunkCount rows chunk_tiles)

/-- The tiles, row and column, as the nest takes them. -/
def tileVisits : List (ℕ × ℕ) :=
  (List.range (chunkCount rows chunk_tiles)).flatMap fun chunk => (order chunk).flatMap fun column =>
    (List.range' (chunk * chunk_tiles)
      (min rows (chunk * chunk_tiles + chunk_tiles) - chunk * chunk_tiles)).map fun row => (row, column)

theorem chunkedTiles_eq (body : ℕ → ℕ → σ → Option σ) :
    chunkedTiles rows chunk_tiles order body =
      forEach (fun tile => body tile.1 tile.2) (tileVisits rows chunk_tiles order) := by
  unfold chunkedTiles tileVisits
  rw [forUp_eq_forEach, ← List.range_eq_range', forEach_flatMap]
  congr 1
  funext chunk
  rw [forEach_flatMap]
  congr 1
  funext column
  rw [forEach_map, forUp_eq_forEach]

variable {rows chunk_tiles order} {columns : ℕ}

theorem mem_tileVisits (pos : 0 < chunk_tiles)
    (complete : ∀ chunk, (order chunk).Perm (List.range columns)) {tile : ℕ × ℕ} :
    tile ∈ tileVisits rows chunk_tiles order ↔ tile.1 < rows ∧ tile.2 < columns := by
  obtain ⟨row, column⟩ := tile
  simp only [tileVisits, List.mem_flatMap, List.mem_map, List.mem_range, List.mem_range'_1,
    (complete _).mem_iff, Prod.mk.injEq]
  constructor
  · rintro ⟨chunk, _, _, inside, _, ⟨_, last⟩, rfl, rfl⟩
    exact ⟨by omega, inside⟩
  · rintro ⟨hr, hc⟩
    have first := Nat.div_mul_le_self row chunk_tiles
    have last := Nat.lt_div_mul_add pos (a := row)
    refine ⟨row / chunk_tiles, ?_, column, hc, row, ⟨first, by omega⟩, rfl, rfl⟩
    rw [chunkCount, Nat.lt_div_iff_mul_lt pos]
    omega

theorem tileVisits_nodup (complete : ∀ chunk, (order chunk).Perm (List.range columns)) :
    (tileVisits rows chunk_tiles order).Nodup := by
  refine List.nodup_flatMap.mpr ⟨fun chunk _ => List.nodup_flatMap.mpr ⟨fun column _ => ?_, ?_⟩, ?_⟩
  · refine List.Nodup.map ?_ List.nodup_range'
    intro row row' same
    exact congrArg Prod.fst same
  · refine ((complete chunk).nodup_iff.mpr List.nodup_range).imp fun {column column'} other => ?_
    intro tile here there
    obtain ⟨_, _, rfl⟩ := List.mem_map.mp here
    obtain ⟨_, _, same⟩ := List.mem_map.mp there
    exact other (congrArg Prod.snd same).symm
  · refine List.nodup_range.imp fun {chunk chunk'} other => ?_
    intro tile here there
    obtain ⟨_, _, here⟩ := List.mem_flatMap.mp here
    obtain ⟨row, inside, rfl⟩ := List.mem_map.mp here
    obtain ⟨_, _, there⟩ := List.mem_flatMap.mp there
    obtain ⟨row', inside', same⟩ := List.mem_map.mp there
    have equal : row' = row := congrArg Prod.fst same
    rw [List.mem_range'_1] at inside inside'
    rcases Nat.lt_or_gt_of_ne other with before | after
    · have apart := Nat.mul_le_mul_right chunk_tiles (Nat.succ_le_of_lt before)
      rw [Nat.succ_mul] at apart
      omega
    · have apart := Nat.mul_le_mul_right chunk_tiles (Nat.succ_le_of_lt after)
      rw [Nat.succ_mul] at apart
      omega

end Chunks

section Panels

variable {κ : Type*} {V : κ → Type*} {size : κ → ℕ} {A N : Region κ} {S : ι → Region κ}

/-- Panels, each of which adds to every object of a family: `v p` is what the objects hold after `p`
panels, as far as it is `known`. -/
theorem Effect.panelsFrom {body : ℕ → ι → Memory κ V → Option (Memory κ V)} {v : ℕ → Contents κ V}
    {order : ℕ → List ι} {panels : ℕ} {member : ι → Prop} (known : ℕ → Prop)
    (visits : ∀ p < panels, (order p).Nodup ∧ ∀ i, i ∈ order p ↔ member i)
    (same : ∀ p k x, A k x → v (p + 1) k x = v p k x)
    (each : ∀ p < panels, ∀ i, member i →
      Effect size (v p) (fun k x => A k x ∨ known p ∧ S i k x) (body p i) (v (p + 1)) (S i)
        fun k x => N k x ∨ S i k x)
    (spared : ∀ k x, A k x → ¬ N k x ∧ ∀ i, member i → ¬ S i k x)
    (own : ∀ i, member i → ∀ k x, S i k x → ¬ N k x ∧ ∀ j, member j → i ≠ j → ¬ S j k x) :
    Effect size (v 0) (fun k x => A k x ∨ known 0 ∧ ∃ i, member i ∧ S i k x)
      (Checked.forUp (fun p => Checked.forEach (body p) (order p)) 0 panels)
      (v panels) (fun k x => A k x ∨ known panels ∧ ∃ i, member i ∧ S i k x)
      fun k x => N k x ∨ ∃ i, member i ∧ S i k x := by
  have panel : ∀ p < panels, Effect size (v p)
      (fun k x => A k x ∨ known p ∧ ∃ i, member i ∧ S i k x) (Checked.forEach (body p) (order p))
      (v (p + 1)) (fun k x => A k x ∨ known (p + 1) ∧ ∃ i, member i ∧ S i k x)
      fun k x => N k x ∨ ∃ i, member i ∧ S i k x := by
    intro p hp
    obtain ⟨once, mem⟩ := visits p hp
    have round := Effect.forEachOwn (fun i hi => each p hp i ((mem i).mp hi)) (by
      refine once.imp_of_mem fun {i j} hi hj other => ⟨?_, ?_⟩
      · rintro k x (hA | ⟨_, hS⟩) (hN | hS')
        · exact (spared k x hA).1 hN
        · exact (spared k x hA).2 i ((mem i).mp hi) hS'
        · exact (own j ((mem j).mp hj) k x hS).1 hN
        · exact (own j ((mem j).mp hj) k x hS).2 i ((mem i).mp hi) other.symm hS'
      · rintro k x hS (hN | hS')
        · exact (own i ((mem i).mp hi) k x hS).1 hN
        · exact (own i ((mem i).mp hi) k x hS).2 j ((mem j).mp hj) other hS')
    refine round.weaken ?_ ?_ ?_
    · rintro k x ⟨i, hi, hA | ⟨later, hS⟩⟩
      · exact ⟨.inl hA, rfl⟩
      · exact ⟨.inr ⟨later, i, (mem i).mp hi, hS⟩, rfl⟩
    · rintro k x (hA | ⟨_, i, hi, hS⟩)
      · refine .inr ⟨?_, .inl hA, (same p k x hA).symm⟩
        rintro ⟨i, hi, hN | hS⟩
        · exact (spared k x hA).1 hN
        · exact (spared k x hA).2 i ((mem i).mp hi) hS
      · exact .inl ⟨⟨i, (mem i).mpr hi, hS⟩, rfl⟩
    · rintro k x ⟨i, hi, hN | hS⟩
      · exact .inl hN
      · exact .inr ⟨i, (mem i).mp hi, hS⟩
  exact Effect.rounds v (fun p k x => A k x ∨ known p ∧ ∃ i, member i ∧ S i k x) panel

/-- Panels of which the first one finds nothing. -/
theorem Effect.panels {body : ℕ → ι → Memory κ V → Option (Memory κ V)} {v : ℕ → Contents κ V}
    {order : ℕ → List ι} {panels : ℕ} (member : ι → Prop)
    (visits : ∀ p < panels, (order p).Nodup ∧ ∀ i, i ∈ order p ↔ member i)
    (same : ∀ p k x, A k x → v (p + 1) k x = v p k x)
    (each : ∀ p < panels, ∀ i, member i →
      Effect size (v p) (fun k x => A k x ∨ 0 < p ∧ S i k x) (body p i) (v (p + 1)) (S i)
        fun k x => N k x ∨ S i k x)
    (spared : ∀ k x, A k x → ¬ N k x ∧ ∀ i, member i → ¬ S i k x)
    (own : ∀ i, member i → ∀ k x, S i k x → ¬ N k x ∧ ∀ j, member j → i ≠ j → ¬ S j k x) :
    Effect size (v 0) A (Checked.forUp (fun p => Checked.forEach (body p) (order p)) 0 panels)
      (v panels) (fun k x => A k x ∨ 0 < panels ∧ ∃ i, member i ∧ S i k x)
      fun k x => N k x ∨ ∃ i, member i ∧ S i k x := by
  have run := Effect.panelsFrom (0 < ·) visits same each spared own
  refine run.weaken ?_ (fun _ _ hS => .inl ⟨hS, rfl⟩) fun _ _ hM => hM
  rintro k x (hA | ⟨no, _⟩)
  · exact ⟨hA, rfl⟩
  · exact absurd no (Nat.lt_irrefl 0)

end Panels

section Matrix

variable {κ : Type*} {V : κ → Type*} {size : κ → ℕ} {u v : Contents κ V} {A N : Region κ} {out : κ}
variable {m n mr nr : ℕ}

/-- A tile of `mr` rows and `nr` columns of a row-major object with `n` columns. -/
def MatrixTile (out : κ) (n mr nr tile_m tile_n : ℕ) : Region κ := fun k x =>
  k = out ∧ ∃ row < mr, ∃ column < nr, x = (tile_m * mr + row) * n + (tile_n * nr + column)

/-- `mr` whole rows. -/
def MatrixRows (out : κ) (n mr tile_m : ℕ) : Region κ := fun k x =>
  k = out ∧ ∃ row < mr, ∃ column < n, x = (tile_m * mr + row) * n + column

theorem tile_column_lt {tile_n column : ℕ} (whole : n / nr * nr = n) (ht : tile_n < n / nr)
    (hc : column < nr) : tile_n * nr + column < n := by
  have inside := Layout.index_lt ht hc
  rwa [whole] at inside

theorem matrixTile_apart {i j : ℕ × ℕ} (whole : n / nr * nr = n) (hi : i.2 < n / nr)
    (hj : j.2 < n / nr) (other : i ≠ j) {k : κ} {x : ℕ} (cell : MatrixTile out n mr nr i.1 i.2 k x) :
    ¬ MatrixTile out n mr nr j.1 j.2 k x := by
  obtain ⟨rfl, row, hr, column, hc, rfl⟩ := cell
  rintro ⟨_, row', hr', column', hc', same⟩
  obtain ⟨rows, columns⟩ := Layout.unique (tile_column_lt whole hi hc) (tile_column_lt whole hj hc') same
  exact other (Prod.ext (Layout.unique hr hr' rows).1 (Layout.unique hc hc' columns).1)

/-- The tiles cover the whole object. -/
theorem matrixTile_covers (wholeM : m / mr * mr = m) (wholeN : n / nr * nr = n) (posM : 0 < mr)
    (posN : 0 < nr) {k : κ} {x : ℕ} : (k = out ∧ x < m * n) ↔
      ∃ tile : ℕ × ℕ, (tile.1 < m / mr ∧ tile.2 < n / nr) ∧ MatrixTile out n mr nr tile.1 tile.2 k x := by
  constructor
  · rintro ⟨rfl, inside⟩
    obtain ⟨row, hr, column, hc, rfl⟩ := Layout.lt_iff.mp inside
    refine ⟨(row / mr, column / nr), ⟨Layout.row_lt (by rwa [wholeM]), Layout.row_lt (by rwa [wholeN])⟩,
      rfl, row % mr, Nat.mod_lt _ posM, column % nr, Nat.mod_lt _ posN, ?_⟩
    rw [Nat.div_add_mod', Nat.div_add_mod']
  · rintro ⟨tile, ⟨hm, hn⟩, rfl, row, hr, column, hc, rfl⟩
    exact ⟨rfl, Layout.index_lt (tile_column_lt wholeM hm hr) (tile_column_lt wholeN hn hc)⟩

def TileRow (out : κ) (n mr nr tile_m tile_n row : ℕ) : Region κ := fun k x =>
  k = out ∧ ∃ column < nr, x = (tile_m * mr + row) * n + (tile_n * nr + column)

theorem tileRow_apart {tile_m tile_n row row' x : ℕ} {k : κ}
    (inside : ∀ column < nr, tile_n * nr + column < n) (other : row ≠ row')
    (cell : TileRow out n mr nr tile_m tile_n row k x) :
    ¬ TileRow out n mr nr tile_m tile_n row' k x := by
  obtain ⟨rfl, column, hc, rfl⟩ := cell
  rintro ⟨_, column', hc', same⟩
  have rows := (Layout.unique (inside column hc) (inside column' hc') same).1
  omega

theorem Writes.storeTileRow [DecidableEq κ] {base tile_m tile_n row : ℕ} {x : ℕ → V out}
    (here : base = (tile_m * mr + row) * n + tile_n * nr)
    (bound : ∀ column < nr, (tile_m * mr + row) * n + (tile_n * nr + column) < size out)
    (value : ∀ column < nr, x column = v out ((tile_m * mr + row) * n + (tile_n * nr + column))) :
    Writes size (fun memory => memory.storeLanes out base nr x) v
      (TileRow out n mr nr tile_m tile_n row) := by
  simp only [← Nat.add_assoc, ← here] at bound value
  refine (Writes.storeLanes bound value).weaken (fun _ _ no => no) fun k x => ?_
  simp only [TileRow, here, Nat.add_assoc]

/-- Rounds that write the rows of a tile, where each reads at most its own row of the object. -/
theorem Effect.tile {body : ℕ → Memory κ V → Option (Memory κ V)} {A : ℕ → Region κ}
    {tile_m tile_n : ℕ} (inside : ∀ column < nr, tile_n * nr + column < n)
    (each : ∀ row < mr, Effect size u (A row) (body row) v (TileRow out n mr nr tile_m tile_n row)
      (TileRow out n mr nr tile_m tile_n row))
    (apart : ∀ row < mr, ∀ k x, A row k x → k = out → TileRow out n mr nr tile_m tile_n row k x) :
    Effect size u (fun k x => ∃ row < mr, A row k x) (Checked.forUp body 0 mr) v
      (MatrixTile out n mr nr tile_m tile_n) (MatrixTile out n mr nr tile_m tile_n) := by
  refine (Effect.loopOwn each fun i j lt hj => ⟨?_, ?_⟩).weaken (fun _ _ known => ⟨known, rfl⟩) ?_ ?_
  · intro k x known written
    have own := apart j hj k x known written.1
    exact tileRow_apart inside (Nat.ne_of_gt lt) own written
  · intro k x written
    exact tileRow_apart inside (Nat.ne_of_lt lt) written
  · rintro k x ⟨rfl, row, hr, cell⟩
    exact .inl ⟨⟨row, hr, rfl, cell⟩, rfl⟩
  · rintro k x ⟨row, hr, rfl, cell⟩
    exact ⟨rfl, row, hr, cell⟩

/-- The tiles of columns fill the rows of a tile, one after another. -/
theorem Effect.tileColumns {body : ℕ → Memory κ V → Option (Memory κ V)} {tile_m : ℕ}
    (whole : n / nr * nr = n) (pos : 0 < nr) (apart : ∀ k x, A k x → ¬ N k x ∧ k ≠ out)
    (scratch : ∀ x, ¬ N out x)
    (each : ∀ tile_n < n / nr, Effect size u A (body tile_n) v (MatrixTile out n mr nr tile_m tile_n)
      fun k x => N k x ∨ MatrixTile out n mr nr tile_m tile_n k x) :
    Effect size u A (Checked.forUp body 0 (n / nr)) v (MatrixRows out n mr tile_m)
      fun k x => N k x ∨ MatrixRows out n mr tile_m k x := by
  have columns := Effect.loop each (by
      rintro tile_n _ k x known (hN | ⟨same, _⟩)
      · exact (apart k x known).1 hN
      · exact (apart k x known).2 same) (by
      rintro i j lt hj k x ⟨rfl, row, hr, column, hc, rfl⟩ (hN | ⟨_, row', _, column', hc', same⟩)
      · exact scratch _ hN
      · have columns := (Layout.unique (tile_column_lt whole (Nat.lt_trans lt hj) hc)
          (tile_column_lt whole hj hc') same).2
        exact Nat.ne_of_lt lt (Layout.unique hc hc' columns).1)
  refine columns.weaken (fun _ _ known => ⟨known, rfl⟩) ?_ ?_
  · rintro k x ⟨rfl, row, hr, column, hc, rfl⟩
    refine .inl ⟨⟨column / nr, Layout.row_lt (by rwa [whole]), rfl, row, hr, column % nr,
      Nat.mod_lt _ pos, ?_⟩, rfl⟩
    rw [Nat.div_add_mod']
  · rintro k x ⟨tile_n, ht, hN | ⟨rfl, row, hr, column, hc, rfl⟩⟩
    · exact .inl hN
    · exact .inr ⟨rfl, row, hr, _, tile_column_lt whole ht hc, rfl⟩

/-- The tiles of rows fill the whole object, in any order. -/
theorem Effect.tileRows {body : ℕ → Memory κ V → Option (Memory κ V)} {order : List ℕ}
    (whole : m / mr * mr = m) (pos : 0 < mr) (apart : ∀ k x, A k x → ¬ N k x ∧ k ≠ out)
    (scratch : ∀ x, ¬ N out x) (complete : order.Perm (List.range (m / mr)))
    (each : ∀ tile_m < m / mr, Effect size u A (body tile_m) v (MatrixRows out n mr tile_m)
      fun k x => N k x ∨ MatrixRows out n mr tile_m k x) :
    Effect size u A (Checked.forEach body order) v (fun k x => k = out ∧ x < m * n)
      fun k x => N k x ∨ k = out := by
  have mem : ∀ tile, tile ∈ order ↔ tile < m / mr := by
    intro tile
    rw [complete.mem_iff, List.mem_range]
  have rows := Effect.forEach (fun tile ht => each tile ((mem tile).mp ht)) (by
      rintro tile _ k x known (hN | ⟨same, _⟩)
      · exact (apart k x known).1 hN
      · exact (apart k x known).2 same) (by
      refine (complete.nodup_iff.mpr List.nodup_range).imp fun {i j} other k x => ?_
      rintro ⟨rfl, row, hr, column, hc, rfl⟩ (hN | ⟨_, row', hr', column', hc', same⟩)
      · exact scratch _ hN
      · exact other (Layout.unique hr hr' (Layout.unique hc hc' same).1).1)
  refine rows.weaken (fun _ _ known => ⟨known, rfl⟩) ?_ ?_
  · rintro k x ⟨rfl, inside⟩
    obtain ⟨row, hr, column, hc, rfl⟩ := Layout.lt_iff.mp inside
    have tile : row / mr < m / mr := Layout.row_lt (by rwa [whole])
    refine .inl ⟨⟨_, (mem _).mpr tile, rfl, row % mr, Nat.mod_lt _ pos, column, hc, ?_⟩, rfl⟩
    rw [Nat.div_add_mod']
  · rintro k x ⟨tile, _, hN | ⟨same, _⟩⟩
    · exact .inl hN
    · exact .inr same

/-- A nest over all tiles fills the whole object. -/
theorem Effect.tiles {body : ℕ → ℕ → Memory κ V → Option (Memory κ V)} {tilesM tilesN : ℕ}
    (posM : 0 < mr) (posN : 0 < nr) (scratch : ∀ x, ¬ N out x)
    (each : ∀ tile_m < tilesM, ∀ tile_n < tilesN, Effect size u (fun _ _ => False)
      (body tile_m tile_n) v (MatrixTile out (tilesN * nr) mr nr tile_m tile_n)
      fun k x => N k x ∨ MatrixTile out (tilesN * nr) mr nr tile_m tile_n k x) :
    Effect size u (fun _ _ => False)
      (Checked.forUp (fun tile_m => Checked.forUp (body tile_m) 0 tilesN) 0 tilesM) v
      (fun k x => k = out ∧ x < tilesM * mr * (tilesN * nr)) fun k x => N k x ∨ k = out := by
  have rowTiles : tilesM * mr / mr = tilesM := Nat.mul_div_cancel _ posM
  have columnTiles : tilesN * nr / nr = tilesN := Nat.mul_div_cancel _ posN
  have rows := Effect.tileRows (A := fun _ _ => False) (m := tilesM * mr)
    (by rw [rowTiles]) posM nofun scratch (by rw [rowTiles]) fun tile_m hm => by
      rw [rowTiles] at hm
      have columns := Effect.tileColumns (A := fun _ _ => False) (n := tilesN * nr)
        (by rw [columnTiles]) posN nofun scratch fun tile_n hn => by
          rw [columnTiles] at hn
          exact each tile_m hm tile_n hn
      rwa [columnTiles] at columns
  rwa [List.range_eq_range', ← forUp_eq_forEach] at rows

/-- Any number of passes over the tiles of a matrix. -/
theorem Effect.passTiles {body : ℕ → ℕ → Memory κ V → Option (Memory κ V)}
    {tilesM tilesN iterations : ℕ} (posM : 0 < mr) (posN : 0 < nr) (scratch : ∀ x, ¬ N out x)
    (each : ∀ tile_m < tilesM, ∀ tile_n < tilesN, Effect size v (fun _ _ => False)
      (body tile_m tile_n) v (MatrixTile out (tilesN * nr) mr nr tile_m tile_n)
      fun k x => N k x ∨ MatrixTile out (tilesN * nr) mr nr tile_m tile_n k x) :
    Effect size v (fun _ _ => False) (Checked.forUp (fun _ =>
        Checked.forUp (fun tile_m => Checked.forUp (body tile_m) 0 tilesN) 0 tilesM) 0 iterations) v
      (fun k x => 0 < iterations ∧ k = out ∧ x < tilesM * mr * (tilesN * nr))
      fun k x => N k x ∨ k = out := by
  have pass : Effect size v (fun _ _ => False) _ v _ _ := Effect.tiles posM posN scratch each
  exact Effect.passes (fun _ _ => pass) fun _ _ no => no.elim

/-- The nest, once or more often. -/
theorem Effect.repeatTiles {body : ℕ → ℕ → Memory κ V → Option (Memory κ V)}
    {tilesM tilesN iterations : ℕ} (posM : 0 < mr) (posN : 0 < nr) (once : 1 ≤ iterations)
    (scratch : ∀ x, ¬ N out x)
    (each : ∀ tile_m < tilesM, ∀ tile_n < tilesN, Effect size v (fun _ _ => False)
      (body tile_m tile_n) v (MatrixTile out (tilesN * nr) mr nr tile_m tile_n)
      fun k x => N k x ∨ MatrixTile out (tilesN * nr) mr nr tile_m tile_n k x) :
    Effect size v (fun _ _ => False) (Checked.forUp (fun _ =>
        Checked.forUp (fun tile_m => Checked.forUp (body tile_m) 0 tilesN) 0 tilesM) 0 iterations) v
      (fun k x => k = out ∧ x < tilesM * mr * (tilesN * nr)) fun k x => N k x ∨ k = out := by
  exact (Effect.passTiles posM posN scratch each).weaken (fun _ _ no => no.elim)
    (fun _ _ cell => .inl ⟨⟨once, cell⟩, rfl⟩) fun _ _ cell => cell

end Matrix

end Checked
