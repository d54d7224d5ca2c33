import Pfng.Lib.Layout
import Pfng.Q40.Ime1Activation

/-! Where the IME1 activation packing leaves the quants and scales of a row. -/
namespace Pfng.Q40
open Checked

variable {α : Type} [Field α] [LinearOrder α] [FloorRing α]

def blockOf (activation : ℕ → α) (blocks row block : ℕ) (i : ℕ) : α :=
  activation (row * (blocks * 32) + (block * 32 + i))

/-- The place of element `i` of one of four rows among their quants. -/
def place (row i : ℕ) : ℕ := i / 8 * 32 + row * 8 + i % 8

omit [Field α] [LinearOrder α] [FloorRing α] in
theorem place_lt {row i : ℕ} (hr : row < 4) (hi : i < 32) : place row i < 128 := by
  rw [place]
  omega

/-- The cells of `count` blocks of four rows from block `base` on. -/
def Slots (o : Object) (base count : ℕ) : Region (Object × View)
  | (o', .floats), x => o' = o ∧ base * 36 ≤ x ∧ x < (base + count) * 36
  | (o', .bytes), x => o' = o ∧ base * 144 ≤ x ∧ x < (base + count) * 144

omit [Field α] [LinearOrder α] [FloorRing α] in
theorem slots_apart {o : Object} {blocks i j : ℕ} (lt : i < j) {k : Object × View} {x : ℕ}
    (h : Slots o (i * blocks) blocks k x) : ¬ Slots o (j * blocks) blocks k x := by
  have next : i * blocks + blocks ≤ j * blocks := by
    rw [← Nat.succ_mul]
    exact Nat.mul_le_mul_right blocks lt
  obtain ⟨o', view⟩ := k
  cases view with
  | floats =>
      rintro ⟨_, low, _⟩
      obtain ⟨_, _, high⟩ := h
      omega
  | bytes =>
      rintro ⟨_, low, _⟩
      obtain ⟨_, _, high⟩ := h
      omega

/-- The quants of four rows of `count` blocks from block `base` on. -/
def Quants (o : Object) (base count : ℕ) : Region (Object × View) := fun k x =>
  k = (o, .bytes) ∧ ∃ row < 4, ∃ b < count, ∃ i < 32, x = (base + b) * 144 + 16 + place row i

section Quantize

variable {size : Object × View → ℕ} {u v : Contents (Object × View) (Cell α)}
variable {A : Region (Object × View)} {o : Object} {base blocks : ℕ} {activation : ℕ → α}

omit [Field α] [LinearOrder α] [FloorRing α] in
theorem storeM4Row_writes {s1 : ℕ} {lanes : ℕ → BitVec 8}
    (bound : s1 + 104 ≤ size (o, .bytes))
    (value : ∀ i < 32, lanes i = v (o, .bytes) (s1 + (i / 8 * 32 + i % 8))) :
    Writes size (storeM4Row o s1 lanes) v
      fun k x => k = (o, .bytes) ∧ ∃ i < 32, x = s1 + (i / 8 * 32 + i % 8) := by
  have stores : Writes size (storeM4Row o s1 lanes) v _ :=
    Writes.loop fun g hg => Writes.storeLanes (fun lane hl => by omega) fun lane hl => by
      have index : s1 + g * 32 + lane = s1 + ((g * 8 + lane) / 8 * 32 + (g * 8 + lane) % 8) := by
        omega
      rw [index]
      exact value _ (by omega)
  refine stores.weaken (fun _ _ no => no) fun k x => ?_
  constructor
  · rintro ⟨rfl, i, hi, rfl⟩
    exact ⟨i / 8, by omega, rfl, i % 8, by omega, by omega⟩
  · rintro ⟨g, hg, rfl, lane, hl, rfl⟩
    exact ⟨rfl, g * 8 + lane, by omega, by omega⟩

/-- The scales of the quantiser itself, beside the bytes of `v`. -/
def rawScales (activation : ℕ → α) (base blocks : ℕ) (v : Contents (Object × View) (Cell α)) :
    Contents (Object × View) (Cell α)
  | (_, .floats), x => rowScale (blockOf activation blocks (x % 36) (x / 36 - base))
  | (o, .bytes), x => v (o, .bytes) x

theorem quantizeA4rowI8_effect (floats : (base + blocks) * 36 ≤ size (o, .floats))
    (bytes : (base + blocks) * 144 ≤ size (o, .bytes))
    (value : ∀ row < 4, ∀ b < blocks, ∀ i < 32, v (o, .bytes) ((base + b) * 144 + 16 + place row i) =
      rowQuants (blockOf activation blocks row b) i) :
    Effect size u (fun _ _ => False) (quantizeA4rowI8 o base blocks activation) v
      (Quants o base blocks) (Slots o base blocks) := by
  have elements : ∀ row b, (fun lane => activation (row * (blocks * 32) + b * 32 + lane)) =
      blockOf activation blocks row b := by
    intro row b
    funext lane
    rw [blockOf, Nat.add_assoc]
  have stores : Writes size (quantizeA4rowI8 o base blocks activation)
      (rawScales activation base blocks v) _ :=
    Writes.loop fun row hr => Writes.loop fun b hb => Writes.seq
      (Writes.store (by omega) (by
        rw [elements, rawScales, Layout.column (by omega), Layout.row (by omega),
          Nat.add_sub_cancel_left]))
      (storeM4Row_writes (by omega) fun i hi => by
        rw [elements, rawScales, ← value row hr b hb i hi, place]
        congr 1
        omega)
  refine Effect.weaken stores (fun _ _ no => no.elim) ?_ ?_
  · rintro k x ⟨rfl, row, hr, b, hb, i, hi, rfl⟩
    refine .inl ⟨⟨row, hr, b, hb, .inr ⟨rfl, i, hi, ?_⟩⟩, rfl⟩
    rw [place]
    omega
  · rintro k x ⟨row, hr, b, hb, ⟨rfl, rfl⟩ | ⟨rfl, i, hi, rfl⟩⟩
    · refine ⟨rfl, ?_, ?_⟩
      · omega
      · omega
    · refine ⟨rfl, ?_, ?_⟩
      · omega
      · omega

end Quantize

/-- The place of element `i` among the quants of four or eight rows. -/
def placeIn (row i : ℕ) : ℕ := row / 4 * 128 + place (row % 4) i

/-- The packed activation, cell by cell, in blocks of `mr` rows, beside any `scratch`. -/
def packedContents (mr : ℕ) (half : α → α) (activation : ℕ → α) (blocks : ℕ)
    (scratch : Contents (Object × View) (Cell α)) : Contents (Object × View) (Cell α)
  | (.packed, .floats), x =>
      (quantizedActivation half activation blocks
        (x / (9 * mr) / blocks * mr + x % (9 * mr)) (x / (9 * mr) % blocks)).d
  | (.packed, .bytes), x =>
      let p := x % (36 * mr) - 4 * mr
      rowQuants (blockOf activation blocks (x / (36 * mr) / blocks * mr + (p / 128 * 4 + p % 32 / 8))
        (x / (36 * mr) % blocks)) (p % 128 / 32 * 8 + p % 8)
  | (.fourRows, view), x => scratch (.fourRows, view) x

section Contents

variable {mr blocks b row i : ℕ} (half : α → α) (activation : ℕ → α)
variable (scratch : Contents (Object × View) (Cell α)) (tile : ℕ)

theorem packedContents_floats (hb : b < blocks) (hr : row < mr) :
    packedContents mr half activation blocks scratch (.packed, .floats)
        ((tile * blocks + b) * (9 * mr) + row) =
      (quantizedActivation half activation blocks (tile * mr + row) b).d := by
  rw [packedContents, Layout.row (by omega), Layout.column (by omega), Layout.row hb,
    Layout.column hb]

omit [Field α] [LinearOrder α] [FloorRing α] in
theorem placeIn_lt (four : mr % 4 = 0) (hr : row < mr) (hi : i < 32) : placeIn row i < 32 * mr := by
  rw [placeIn, place]
  omega

theorem packedContents_bytes (four : mr % 4 = 0) (hb : b < blocks) (hr : row < mr) (hi : i < 32) :
    packedContents mr half activation blocks scratch (.packed, .bytes)
        ((tile * blocks + b) * (36 * mr) + (4 * mr + placeIn row i)) =
      rowQuants (blockOf activation blocks (tile * mr + row) b) i := by
  have inside := placeIn_lt four hr hi
  have cell : 4 * mr + placeIn row i < 36 * mr := by omega
  simp only [packedContents]
  rw [Layout.row cell, Layout.column cell, Layout.row hb, Layout.column hb, Nat.add_sub_cancel_left]
  congr 2
  · rw [placeIn, place]
    omega
  · rw [placeIn, place]
    omega

end Contents

/-- The scale that the memory holds for a block of a row, in blocks of `mr` rows. -/
def storedScale (mr blocks row b : ℕ) (memory : PackedMemory α) : Option α :=
  memory.load (.packed, .floats) ((row / mr * blocks + b) * (9 * mr) + row % mr)

/-- The quant that the memory holds for element `i` of a block of a row. -/
def storedQuant (mr blocks row b i : ℕ) (memory : PackedMemory α) : Option (BitVec 8) :=
  memory.load (.packed, .bytes) ((row / mr * blocks + b) * (36 * mr) + (4 * mr + placeIn (row % mr) i))

/-- What both packings leave. -/
structure Stored (mr : ℕ) (half : α → α) (activation : ℕ → α) (tiles blocks : ℕ)
    (memory : PackedMemory α) : Prop where
  scale : ∀ row < tiles * mr, ∀ b < blocks, storedScale mr blocks row b memory =
    some (quantizedActivation half activation blocks row b).d
  quant : ∀ row < tiles * mr, ∀ b < blocks, ∀ i < 32, storedQuant mr blocks row b i memory =
    some (rowQuants (blockOf activation blocks row b) i)

def Scales (mr blocks tile : ℕ) : Region (Object × View) := fun k x =>
  k = (.packed, .floats) ∧ ∃ b < blocks, ∃ row < mr, x = (tile * blocks + b) * (9 * mr) + row

def TileQuants (mr blocks tile : ℕ) : Region (Object × View) := fun k x =>
  k = (.packed, .bytes) ∧ ∃ b < blocks, ∃ row < mr, ∃ i < 32,
    x = (tile * blocks + b) * (36 * mr) + (4 * mr + placeIn row i)

section Stored

variable {mr tiles blocks : ℕ} {half : α → α} {activation : ℕ → α}
variable {scratch : Contents (Object × View) (Cell α)} {memory : PackedMemory α}

theorem stored_of_holds (four : mr % 4 = 0) (sizes : memory.size = packedSize mr tiles blocks)
    (holds : Holds (packedContents mr half activation blocks scratch)
      (fun k x => ∃ tile < tiles, Scales mr blocks tile k x ∨ TileQuants mr blocks tile k x) memory) :
    Stored mr half activation tiles blocks memory := by
  have places : ∀ row < tiles * mr, row / mr < tiles ∧ row % mr < mr ∧ row / mr * mr + row % mr = row := by
    intro row hr
    have pos : 0 < mr := Nat.pos_of_mul_pos_left (Nat.zero_lt_of_lt hr)
    exact ⟨Layout.row_lt hr, Nat.mod_lt row pos, Nat.div_add_mod' row mr⟩
  constructor
  · intro row hr b hb
    obtain ⟨tile, inside, same⟩ := places row hr
    have value := packedContents_floats half activation scratch (row / mr) hb inside
    rw [same] at value
    rw [storedScale, ← value]
    refine load_eq holds sizes ?_ ⟨row / mr, tile, .inl ⟨rfl, b, hb, row % mr, inside, rfl⟩⟩
    exact Layout.index_lt (Layout.index_lt tile hb) (by omega)
  · intro row hr b hb i hi
    obtain ⟨tile, inside, same⟩ := places row hr
    have value := packedContents_bytes half activation scratch (row / mr) four hb inside hi
    rw [same] at value
    rw [storedQuant, ← value]
    refine load_eq holds sizes ?_ ⟨row / mr, tile, .inr ⟨rfl, b, hb, row % mr, inside, i, hi, rfl⟩⟩
    have := placeIn_lt four inside hi
    exact Layout.index_lt (Layout.index_lt tile hb) (by omega)

end Stored

section Four

variable {tiles blocks : ℕ} {half : α → α} {activation : ℕ → α}
variable {scratch : Contents (Object × View) (Cell α)}

omit [Field α] [LinearOrder α] [FloorRing α] in
theorem blockOf_tile (activation : ℕ → α) (blocks first row b : ℕ) :
    blockOf (fun i => activation (first * (blocks * 32) + i)) blocks row b =
      blockOf activation blocks (first + row) b := by
  funext i
  rw [blockOf, blockOf, Nat.add_mul, Nat.add_assoc]

theorem initializeTile_effect {tile : ℕ} (ht : tile < tiles) :
    Effect (packedSize 4 tiles blocks) (packedContents 4 half activation blocks scratch)
      (fun _ _ => False)
      (initializeTile half activation blocks tile)
      (packedContents 4 half activation blocks scratch)
      (fun k x => Scales 4 blocks tile k x ∨ TileQuants 4 blocks tile k x)
      (Slots .packed (tile * blocks) blocks) := by
  have room : tile * blocks + blocks ≤ tiles * blocks := by
    rw [← Nat.succ_mul]
    exact Nat.mul_le_mul_right blocks ht
  have quants : Effect (packedSize 4 tiles blocks) (packedContents 4 half activation blocks scratch)
      (fun _ _ => False) (quantizeA4rowI8 .packed (tile * blocks) blocks
        (fun i => activation (tile * 4 * (blocks * 32) + i)))
      (packedContents 4 half activation blocks scratch) (Quants .packed (tile * blocks) blocks)
      (Slots .packed (tile * blocks) blocks) := by
    refine quantizeA4rowI8_effect ?_ ?_ ?_
    · exact Nat.mul_le_mul_right 36 room
    · exact Nat.mul_le_mul_right 144 room
    · intro row hr b hb i hi
      have value := packedContents_bytes half activation scratch tile (show 4 % 4 = 0 by decide) hb hr hi
      rw [placeIn, Nat.div_eq_of_lt hr, Nat.mod_eq_of_lt hr, Nat.zero_mul, Nat.zero_add,
        ← Nat.add_assoc] at value
      rw [value, blockOf_tile]
  have scales : Writes (packedSize 4 tiles blocks)
      (forUp (fun block => forUp (fun row memory =>
        memory.store (.packed, .floats) ((tile * blocks + block) * 36 + row)
          (quantizedActivation half activation blocks (tile * 4 + row) block).d) 0 4) 0 blocks)
      (packedContents 4 half activation blocks scratch) _ :=
    Writes.loop fun b hb => Writes.loop fun row hr => Writes.store
      (Layout.index_lt (Layout.index_lt ht hb) (by omega))
      (packedContents_floats half activation scratch tile hb hr).symm
  refine (Effect.seq quants (Effect.weaken scales (fun _ _ no => no.elim) ?_ fun _ _ h => h)).weaken
    (fun _ _ no => no.elim) (fun k x h => .inl ⟨h, rfl⟩) ?_
  · rintro k x (⟨rfl, b, hb, row, hr, rfl⟩ | ⟨rfl, b, hb, row, hr, i, hi, rfl⟩)
    · exact .inl ⟨⟨b, hb, row, hr, rfl, rfl⟩, rfl⟩
    · refine .inr ⟨?_, ⟨rfl, row, hr, b, hb, i, hi, ?_⟩, rfl⟩
      · rintro ⟨_, _, _, _, no, _⟩
        cases no
      · rw [placeIn, Nat.div_eq_of_lt hr, Nat.mod_eq_of_lt hr]
        omega
  · rintro k x (slots | ⟨b, hb, row, hr, rfl, rfl⟩)
    · exact slots
    · refine ⟨rfl, ?_, ?_⟩
      · omega
      · omega

/-- `initialize_q4_0_ime<4>` leaves the reference scales beside the quants of the quantiser. -/
theorem initializeM4_ends {memory : PackedMemory α} (sizes : memory.size = packedSize 4 tiles blocks) :
    Ends (initializeM4 half activation tiles blocks memory)
      (Stored 4 half activation tiles blocks) := by
  have run : Effect (packedSize 4 tiles blocks)
      (packedContents 4 half activation blocks memory.cell) (fun _ _ => False)
      (initializeM4 half activation tiles blocks)
      (packedContents 4 half activation blocks memory.cell)
      (fun k x => ∃ tile < tiles, Scales 4 blocks tile k x ∨ TileQuants 4 blocks tile k x)
      fun k x => ∃ tile < tiles, Slots .packed (tile * blocks) blocks k x := by
    refine Effect.loop (fun tile ht => initializeTile_effect ht) (fun _ _ _ _ no => no.elim) ?_
    intro i j lt _ k x cell
    refine slots_apart lt ?_
    rcases cell with ⟨rfl, b, hb, row, hr, rfl⟩ | ⟨rfl, b, hb, row, hr, e, he, rfl⟩
    · refine ⟨rfl, ?_, ?_⟩
      · omega
      · omega
    · have := placeIn_lt (show 4 % 4 = 0 by decide) hr he
      refine ⟨rfl, ?_, ?_⟩
      · omega
      · omega
  refine (run memory sizes fun _ _ no => no.elim).mono fun m ⟨change, holds⟩ => ?_
  exact stored_of_holds (by decide) (change.size.trans sizes) holds

end Four

section Eight

variable {tiles blocks : ℕ} (half : α → α) (activation : ℕ → α)

/-- The cells of half `h` of a tile of eight rows. -/
def Half (blocks tile h : ℕ) : Region (Object × View)
  | (.packed, .floats), x => ∃ b < blocks, ∃ row < 4, x = (tile * blocks + b) * 72 + (h * 4 + row)
  | (.packed, .bytes), x => ∃ b < blocks, ∃ r < 128,
      x = (tile * blocks + b) * 288 + (32 + h * 128 + r)
  | (.fourRows, _), _ => False

omit [Field α] [LinearOrder α] [FloorRing α] in
theorem half_unique {tile tile' h h' : ℕ} (hh : h < 2) (hh' : h' < 2) {k : Object × View} {x : ℕ}
    (one : Half blocks tile h k x) (two : Half blocks tile' h' k x) : tile = tile' ∧ h = h' := by
  obtain ⟨o, view⟩ := k
  cases o with
  | fourRows => exact one.elim
  | packed =>
      cases view with
      | floats =>
          obtain ⟨b, hb, row, hr, rfl⟩ := one
          obtain ⟨b', hb', row', hr', same⟩ := two
          obtain ⟨slot, cell⟩ := Layout.unique (by omega) (by omega) same
          exact ⟨(Layout.unique hb hb' slot).1, by omega⟩
      | bytes =>
          obtain ⟨b, hb, r, hr, rfl⟩ := one
          obtain ⟨b', hb', r', hr', same⟩ := two
          obtain ⟨slot, cell⟩ := Layout.unique (by omega) (by omega) same
          exact ⟨(Layout.unique hb hb' slot).1, by omega⟩

/-- The scratch that the quantiser leaves for half `h` of a tile. -/
def scratchOf (activation : ℕ → α) (blocks tile h : ℕ) : Contents (Object × View) (Cell α)
  | (_, .floats), _ => 0
  | (_, .bytes), y =>
      rowQuants (blockOf activation blocks (tile * 8 + h * 4 + (y % 144 - 16) % 32 / 8) (y / 144))
        ((y % 144 - 16) / 32 * 8 + (y % 144 - 16) % 8)

def HalfBlock (blocks tile h b : ℕ) : Region (Object × View)
  | (.packed, .floats), x => ∃ row < 4, x = (tile * blocks + b) * 72 + (h * 4 + row)
  | (.packed, .bytes), x => ∃ r < 128, x = (tile * blocks + b) * 288 + (32 + h * 128 + r)
  | (.fourRows, _), _ => False

theorem scratchOf_quant (blocks tile h b : ℕ) {row i : ℕ} (hr : row < 4) (hi : i < 32) :
    scratchOf activation blocks tile h (.fourRows, .bytes) (b * 144 + (16 + place row i)) =
      rowQuants (blockOf activation blocks (tile * 8 + h * 4 + row) b) i := by
  have inside := place_lt hr hi
  simp only [scratchOf]
  rw [Layout.row (show 16 + place row i < 144 by omega),
    Layout.column (show 16 + place row i < 144 by omega), Nat.add_sub_cancel_left, place]
  congr 2
  · omega
  · omega

/-- The packed activation while half `h` of a tile is copied. -/
def contentsM8 (half : α → α) (activation : ℕ → α) (blocks tile h : ℕ) :
    Contents (Object × View) (Cell α) :=
  packedContents 8 half activation blocks (scratchOf activation blocks tile h)

theorem contentsM8_bytes (tile : ℕ) {h b row i : ℕ} (hh : h < 2) (hb : b < blocks) (hr : row < 4)
    (hi : i < 32) :
    contentsM8 half activation blocks tile h (.packed, .bytes)
        ((tile * blocks + b) * 288 + 32 + h * 4 * 32 + place row i) =
      rowQuants (blockOf activation blocks (tile * 8 + h * 4 + row) b) i := by
  have value := packedContents_bytes half activation (scratchOf activation blocks tile h) tile
    (show 8 % 4 = 0 by decide) hb (show h * 4 + row < 8 by omega) hi
  have address : (tile * blocks + b) * 288 + 32 + h * 4 * 32 + place row i =
      (tile * blocks + b) * (36 * 8) + (4 * 8 + placeIn (h * 4 + row) i) := by
    rw [placeIn, show (h * 4 + row) / 4 = h by omega, show (h * 4 + row) % 4 = row by omega]
    omega
  rw [contentsM8, address, value, Nat.add_assoc]

theorem copyQuants_effect {tile h b : ℕ} (ht : tile < tiles) (hh : h < 2) (hb : b < blocks) :
    Effect (packedSize 8 tiles blocks) (contentsM8 half activation blocks tile h)
      (Quants .fourRows 0 blocks)
      (fun memory => (memory.loadLanes (.fourRows, .bytes) (b * 144 + 16) 128).bind fun quants =>
        memory.storeLanes (.packed, .bytes) ((tile * blocks + b) * 288 + 32 + h * 4 * 32) 128 quants)
      (contentsM8 half activation blocks tile h)
      (fun k x => k = (.packed, .bytes) ∧
        ∃ r < 128, x = (tile * blocks + b) * 288 + 32 + h * 4 * 32 + r)
      (fun k x => k = (.packed, .bytes) ∧
        ∃ r < 128, x = (tile * blocks + b) * 288 + 32 + h * 4 * 32 + r) := by
  have slot : tile * blocks + b < tiles * blocks := Layout.index_lt ht hb
  refine Effect.loadLanes ?_ fun r known => Fills.storeLanes ?_ ?_
  · change b * 144 + 16 + 128 ≤ blocks * 144
    omega
  · intro lane hl
    change _ < tiles * blocks * 288
    omega
  · intro lane hl
    have same : place (lane % 32 / 8) (lane / 32 * 8 + lane % 8) = lane := by
      rw [place]
      omega
    have row : lane % 32 / 8 < 4 := by omega
    have element : lane / 32 * 8 + lane % 8 < 32 := by omega
    have value := contentsM8_bytes half activation tile hh hb row element
    rw [same] at value
    rw [value, known lane hl]
    · have source := scratchOf_quant activation blocks tile h b row element
      rw [same, ← Nat.add_assoc] at source
      exact source
    · refine ⟨rfl, _, row, b, hb, _, element, ?_⟩
      rw [same]
      omega

theorem copyBlock_effect {tile h b : ℕ} (ht : tile < tiles) (hh : h < 2) (hb : b < blocks) :
    Effect (packedSize 8 tiles blocks) (contentsM8 half activation blocks tile h)
      (Quants .fourRows 0 blocks) (copyBlock half activation blocks tile h b)
      (contentsM8 half activation blocks tile h)
      (HalfBlock blocks tile h b) (HalfBlock blocks tile h b) := by
  have slot : tile * blocks + b < tiles * blocks := Layout.index_lt ht hb
  have cells : ∀ lane < 4, (tile * blocks + b) * 72 + h * 4 + lane <
      packedSize 8 tiles blocks (.packed, .floats) := by
    intro lane hl
    change _ < tiles * blocks * 72
    omega
  have scales : Writes (packedSize 8 tiles blocks)
      (forUp (fun row memory => memory.store (.packed, .floats)
        ((tile * blocks + b) * 72 + (h * 4 + row))
        (quantizedActivation half activation blocks (tile * 8 + (h * 4 + row)) b).d) 0 4)
      (contentsM8 half activation blocks tile h) _ :=
    Writes.loop fun row hr => Writes.store
      (by rw [← Nat.add_assoc]; exact cells row hr)
      (packedContents_floats half activation _ tile hb (by omega)).symm
  refine Effect.loadLanes ?_ fun r _ => ?_
  · change b * 36 + 4 ≤ blocks * 36
    omega
  · have copied : Effect (packedSize 8 tiles blocks) (contentsM8 half activation blocks tile h)
        (Quants .fourRows 0 blocks) _ _ (Quants .fourRows 0 blocks) _ :=
      Effect.clobber (k := (.packed, .floats)) (x := r) cells fun _ _ quants => by cases quants.1
    have scaled := Effect.keep (R := Quants .fourRows 0 blocks) scales (fun _ _ no => no.elim)
      (by rintro k x ⟨rfl, _⟩ ⟨_, _, no, _⟩; cases no)
    have filled := (copyQuants_effect half activation ht hh hb).keep
      (R := fun k x => Quants .fourRows 0 blocks k x ∨ ∃ row < 4, k = (.packed, .floats) ∧
        x = (tile * blocks + b) * 72 + (h * 4 + row)) (fun k x => Or.inl) (by
          rintro k x (⟨rfl, _⟩ | ⟨row, hr, rfl, _⟩) ⟨no, _⟩
          · cases no
          · cases no)
    refine (copied.seq (scaled.seq filled)).weaken (fun _ _ quants => ⟨quants, rfl⟩) ?_ ?_
    · rintro ⟨o, view⟩ x cell
      cases o with
      | fourRows => exact cell.elim
      | packed =>
          cases view with
          | floats =>
              obtain ⟨row, hr, rfl⟩ := cell
              exact .inl ⟨.inl (.inr ⟨row, hr, rfl, rfl⟩), rfl⟩
          | bytes =>
              obtain ⟨r, hr, rfl⟩ := cell
              exact .inl ⟨.inr ⟨rfl, r, hr, by omega⟩, rfl⟩
    · rintro k x (⟨rfl, lane, hl, rfl⟩ | ⟨row, hr, rfl, rfl⟩ | ⟨rfl, r, hr, rfl⟩)
      · exact ⟨lane, hl, by omega⟩
      · exact ⟨row, hr, rfl⟩
      · exact ⟨r, hr, by omega⟩

theorem halfBlock_half {tile h b : ℕ} (hb : b < blocks) {k : Object × View} {x : ℕ}
    (cell : HalfBlock blocks tile h b k x) : Half blocks tile h k x := by
  obtain ⟨o, view⟩ := k
  cases o with
  | fourRows => exact cell.elim
  | packed =>
      cases view with
      | floats => exact ⟨b, hb, cell⟩
      | bytes => exact ⟨b, hb, cell⟩

theorem halfBlock_apart {tile h i j : ℕ} (hh : h < 2) (lt : i < j) {k : Object × View} {x : ℕ}
    (one : HalfBlock blocks tile h i k x) : ¬ HalfBlock blocks tile h j k x := by
  obtain ⟨o, view⟩ := k
  cases o with
  | fourRows => exact one.elim
  | packed =>
      cases view with
      | floats =>
          obtain ⟨row, hr, rfl⟩ := one
          rintro ⟨row', hr', same⟩
          have slot := (Layout.unique (by omega) (by omega) same).1
          omega
      | bytes =>
          obtain ⟨r, hr, rfl⟩ := one
          rintro ⟨r', hr', same⟩
          have slot := (Layout.unique (by omega) (by omega) same).1
          omega

def Touched (blocks tile h : ℕ) : Region (Object × View) := fun k x =>
  Slots .fourRows 0 blocks k x ∨ Half blocks tile h k x

theorem initializeHalf_effect {tile h : ℕ} (ht : tile < tiles) (hh : h < 2) :
    Effect (packedSize 8 tiles blocks) (contentsM8 half activation blocks tile h) (fun _ _ => False)
      (initializeHalf half activation blocks tile h)
      (contentsM8 half activation blocks tile h) (Half blocks tile h) (Touched blocks tile h) := by
  have quants : Effect (packedSize 8 tiles blocks) (contentsM8 half activation blocks tile h)
      (fun _ _ => False) (quantizeA4rowI8 .fourRows 0 blocks
        (fun i => activation ((tile * 8 + h * 4) * (blocks * 32) + i)))
      (contentsM8 half activation blocks tile h) (Quants .fourRows 0 blocks)
      (Slots .fourRows 0 blocks) := by
    refine quantizeA4rowI8_effect ?_ ?_ ?_
    · rw [Nat.zero_add]
      exact Nat.le_refl _
    · rw [Nat.zero_add]
      exact Nat.le_refl _
    · intro row hr b hb i hi
      rw [Nat.zero_add, Nat.add_assoc, blockOf_tile]
      exact scratchOf_quant activation blocks tile h b hr hi
  have copies := Effect.loop (n := blocks) (fun b hb => copyBlock_effect half activation ht hh hb)
    (fun b _ k x quants cell => by
      obtain ⟨rfl, _⟩ := quants
      exact cell) fun i j lt _ k x cell => halfBlock_apart hh lt cell
  refine (quants.seq copies).weaken (fun _ _ no => no.elim) ?_ ?_
  · rintro ⟨o, view⟩ x cell
    refine .inl ⟨?_, rfl⟩
    cases o with
    | fourRows => exact cell.elim
    | packed =>
        cases view with
        | floats =>
            obtain ⟨b, hb, inside⟩ := cell
            exact ⟨b, hb, inside⟩
        | bytes =>
            obtain ⟨b, hb, inside⟩ := cell
            exact ⟨b, hb, inside⟩
  · rintro k x (slots | ⟨b, hb, cell⟩)
    · exact .inl slots
    · exact .inr (halfBlock_half hb cell)

theorem half_untouched {tile tile' h h' : ℕ} (hh : h < 2) (hh' : h' < 2)
    (other : tile ≠ tile' ∨ h ≠ h') {k : Object × View} {x : ℕ} (cell : Half blocks tile h k x) :
    ¬ Touched blocks tile' h' k x := by
  rintro (slots | cell')
  · obtain ⟨o, view⟩ := k
    cases o with
    | fourRows => exact cell
    | packed =>
        cases view with
        | floats => cases slots.1
        | bytes => cases slots.1
  · obtain ⟨same, same'⟩ := half_unique hh hh' cell cell'
    exact other.elim (fun ne => ne same) fun ne => ne same'

/-- `initialize_q4_0_ime<8>` leaves the same for tiles of eight rows. -/
theorem initializeM8_ends {memory : PackedMemory α} (sizes : memory.size = packedSize 8 tiles blocks) :
    Ends (initializeM8 half activation tiles blocks memory)
      (Stored 8 half activation tiles blocks) := by
  have each : ∀ tile < tiles, ∀ h < 2, Effect (packedSize 8 tiles blocks)
      (packedContents 8 half activation blocks memory.cell) (fun _ _ => False)
      (initializeHalf half activation blocks tile h)
      (packedContents 8 half activation blocks memory.cell) (Half blocks tile h)
      (Touched blocks tile h) := by
    intro tile ht h hh
    refine (initializeHalf_effect half activation ht hh).weaken (fun _ _ no => no.elim) ?_ fun _ _ h => h
    rintro ⟨o, view⟩ x cell
    refine .inl ⟨cell, ?_⟩
    cases o with
    | fourRows => exact cell.elim
    | packed => cases view <;> rfl
  have run := Effect.loop (n := tiles) (fun tile ht => Effect.loop (n := 2) (each tile ht) (fun _ _ _ _ no => no.elim)
    fun i j lt hj k x cell => half_untouched (by omega) hj (.inr (by omega)) cell)
    (fun _ _ _ _ no => no.elim) fun i j lt _ k x ⟨h, hh, cell⟩ ⟨h', hh', cell'⟩ =>
      half_untouched hh hh' (.inl (by omega)) cell cell'
  refine (run memory sizes fun _ _ no => no.elim).mono fun m ⟨change, holds⟩ => ?_
  refine stored_of_holds (by decide) (change.size.trans sizes) (holds.mono ?_)
  rintro k x ⟨tile, ht, ⟨rfl, b, hb, row, hr, rfl⟩ | ⟨rfl, b, hb, row, hr, i, hi, rfl⟩⟩
  · exact ⟨tile, ht, row / 4, by omega, b, hb, row % 4, by omega, by omega⟩
  · have := place_lt (show row % 4 < 4 by omega) hi
    refine ⟨tile, ht, row / 4, by omega, b, hb, place (row % 4) i, this, ?_⟩
    rw [placeIn]
    omega

end Eight

end Pfng.Q40
