import Pfng.Q4K.Accumulator
import Pfng.Q4K.Gemm

/-! What the two `prepare` functions leave beside the quants. -/
namespace Pfng.Q4K
open Checked Register Layout Finset

variable {α : Type} {size : Part → ℕ} {mr tiles blocks : ℕ}

/-- The scale of a column for either sum. -/
def Sums.scaleOf (v : BlockQ4K α) : Sums → α
  | .sum => v.d
  | .sumMin => v.dmin

/-- A member of `bsums` after `n` quants of sub-block `i`. -/
def bsumBits (qs : ℕ → BitVec 8) (i : ℕ) : ℕ → BitVec 16
  | 0 => 0
  | n+1 => bsumBits qs i n + (qs (i * 32 + n)).signExtend 16

theorem toInt_bsumBits (qs : ℕ → BitVec 8) (i n : ℕ) :
    (bsumBits qs i n).toInt = accumulate 16 (fun k => (qs (i * 32 + k)).toInt) n := by
  induction n with
  | zero => rfl
  | succ n ih =>
      rw [bsumBits, BitVec.toInt_add, ih, BitVec.toInt_signExtend_of_le (by decide)]
      rfl

theorem toInt_bsum (qs : ℕ → BitVec 8) (i : ℕ) :
    (bsumBits qs i 32).toInt = ∑ k ∈ range 32, (qs (i * 32 + k)).toInt := by
  rw [toInt_bsumBits, accumulate_exact_iff (by decide)]
  exact sum_fits (fun k _ => abs_toInt_le _) (by decide)

section Activation

/-- The members while the quants of row `x` of a slot are being added. -/
def addedBsums (mr : ℕ) (source : BlockQ8K α) (n : ℕ) : Contents Part (PartCell α)
  | .activationD, _ => source.d
  | .bsums, y => bsumBits source.qs (y % (8 * mr) / mr) (min 32 (n - 32 * (y % (8 * mr) / mr)))
  | .weightD _, _ => source.d
  | .scales, _ => 0

/-- The members of row `x`. -/
def BsumCells (mr slot x : ℕ) : Region Part := fun k y =>
  k = .bsums ∧ ∃ i < 8, y = slot * (8 * mr) + (i * mr + x)

theorem addedBsums_at (source : BlockQ8K α) {slot x i n : ℕ} (hx : x < mr) (hi : i < 8) :
    addedBsums mr source n .bsums (slot * (8 * mr) + (i * mr + x)) =
      bsumBits source.qs i (min 32 (n - 32 * i)) := by
  rw [addedBsums, column (index_lt hi hx), Layout.row hx]

theorem addedBsums_other (source : BlockQ8K α) {slot x i n : ℕ} (hx : x < mr) (hi : i < 8)
    (other : i ≠ n / 32) :
    addedBsums mr source (n + 1) .bsums (slot * (8 * mr) + (i * mr + x)) =
      addedBsums mr source n .bsums (slot * (8 * mr) + (i * mr + x)) := by
  rw [addedBsums_at source hx hi, addedBsums_at source hx hi]
  congr 1
  omega

theorem addQuant_effect (source : BlockQ8K α) {slot x n : ℕ} (hx : x < mr) (hn : n < 256)
    (room : (slot + 1) * (8 * mr) ≤ size .bsums) :
    Effect size (addedBsums mr source n) (BsumCells mr slot x)
      (fun parts : Parts α =>
        (parts.load .bsums (slot * (8 * mr) + (n / 32 * mr + x))).bind fun sum =>
        parts.store .bsums (slot * (8 * mr) + (n / 32 * mr + x))
          (sum + (source.qs n).signExtend 16))
      (addedBsums mr source (n + 1)) (BsumCells mr slot x) (BsumCells mr slot x) := by
  have hi : n / 32 < 8 := by omega
  have bound : slot * (8 * mr) + (n / 32 * mr + x) < size .bsums := by
    have inside := index_lt hi hx
    rw [Nat.add_mul, Nat.one_mul] at room
    omega
  have before : addedBsums mr source n .bsums (slot * (8 * mr) + (n / 32 * mr + x)) =
      bsumBits source.qs (n / 32) (n % 32) := by
    rw [addedBsums_at source hx hi]
    congr 1
    omega
  have after : addedBsums mr source (n + 1) .bsums (slot * (8 * mr) + (n / 32 * mr + x)) =
      bsumBits source.qs (n / 32) (n % 32) + (source.qs n).signExtend 16 := by
    rw [addedBsums_at source hx hi, show min 32 (n + 1 - 32 * (n / 32)) = n % 32 + 1 by omega,
      bsumBits, show n / 32 * 32 + n % 32 = n by omega]
  refine Effect.load bound ⟨rfl, n / 32, hi, rfl⟩ ?_
  rw [before]
  have stored : Fills size (addedBsums mr source n) (BsumCells mr slot x)
      (fun parts : Parts α => parts.store .bsums (slot * (8 * mr) + (n / 32 * mr + x))
        (bsumBits source.qs (n / 32) (n % 32) + (source.qs n).signExtend 16))
      (addedBsums mr source (n + 1)) _ := Fills.store bound after.symm
  refine Effect.weaken stored (fun _ _ known => ⟨known, rfl⟩) ?_ ?_
  · rintro k y ⟨rfl, i, hi', rfl⟩
    by_cases same : i = n / 32
    · subst same
      exact .inl ⟨⟨rfl, rfl⟩, rfl⟩
    · refine .inr ⟨?_, ⟨rfl, i, hi', rfl⟩, (addedBsums_other source hx hi' same).symm⟩
      rintro ⟨_, equal⟩
      exact same (Layout.unique hx hx (Nat.add_left_cancel equal)).1
  · rintro k y ⟨rfl, rfl⟩
    exact ⟨rfl, n / 32, hi, rfl⟩

theorem bsums_writes (source : BlockQ8K α) {slot x : ℕ} (hx : x < mr)
    (room : (slot + 1) * (8 * mr) ≤ size .bsums) :
    Writes size (fun parts : Parts α =>
        (forUp (fun i parts => parts.store .bsums (slot * (8 * mr) + (i * mr + x)) 0) 0 8 parts).bind
        (forUp (fun i parts =>
          (parts.load .bsums (slot * (8 * mr) + (i / 32 * mr + x))).bind fun sum =>
          parts.store .bsums (slot * (8 * mr) + (i / 32 * mr + x))
            (sum + (source.qs i).signExtend 16)) 0 256))
      (addedBsums mr source 256) (BsumCells mr slot x) := by
  have zero : Writes size (forUp (fun i (parts : Parts α) =>
      parts.store .bsums (slot * (8 * mr) + (i * mr + x)) 0) 0 8) (addedBsums mr source 0) _ :=
    Writes.loop fun i hi => Writes.store (by
      have inside := index_lt hi hx
      rw [Nat.add_mul, Nat.one_mul] at room
      omega) (by
      rw [addedBsums_at source hx hi, Nat.zero_sub, Nat.min_zero]
      rfl)
  have cleared : Effect size (addedBsums mr source 256) (fun _ _ => False) _
      (addedBsums mr source 0) (BsumCells mr slot x) (BsumCells mr slot x) :=
    Effect.weaken zero (fun _ _ no => no.elim)
      (by
        rintro k y ⟨rfl, i, hi, rfl⟩
        exact .inl ⟨⟨i, hi, rfl, rfl⟩, rfl⟩)
      (by
        rintro k y ⟨i, hi, rfl, rfl⟩
        exact ⟨rfl, i, hi, rfl⟩)
  have added := Effect.rounds (addedBsums mr source) (fun _ => BsumCells mr slot x)
    fun n (hn : n < 256) => addQuant_effect source hx hn room
  exact (cleared.seq added).weaken (fun _ _ no => no.elim) (fun _ _ cell => .inl ⟨cell, rfl⟩)
    fun _ _ cell => cell.elim id id

end Activation

section Contents

variable {p : Problem α} {scaleByte : ℕ → ℕ → BitVec 8} {live : ℕ}

/-- The packed members, cell by cell; `scaleByte slot` are the bytes of `scales` and `mins`. -/
def partContents (mr : ℕ) (p : Problem α) (scaleByte : ℕ → ℕ → BitVec 8) :
    Contents Part (PartCell α)
  | .activationD, y =>
      (p.activation ((y / mr / p.blocks * mr + y % mr) * p.blocks + y / mr % p.blocks)).d
  | .bsums, y =>
      bsumBits (p.activation ((y / (8 * mr) / p.blocks * mr + y % (8 * mr) % mr) * p.blocks +
        y / (8 * mr) % p.blocks)).qs (y % (8 * mr) / mr) 32
  | .weightD s, y => s.scaleOf (source p.weight p.blocks (y / 32) (y % 32))
  | .scales, y => scaleByte (y / 512) (y % 512)

/-- The packed cells; the kernels use the first `live` bytes of `scales` and `mins`. -/
def Packed (mr live : ℕ) (p : Problem α) : Region Part
  | .activationD, y => y < p.tilesM * p.blocks * mr
  | .bsums, y => y < p.tilesM * p.blocks * (8 * mr)
  | .weightD _, y => y < p.tilesN * p.blocks * 32
  | .scales, y => y / 512 < p.tilesN * p.blocks ∧ y % 512 < live

theorem contents_activationD {tile b x : ℕ} (hb : b < p.blocks) (hx : x < mr) :
    partContents mr p scaleByte .activationD ((tile * p.blocks + b) * mr + x) =
      (p.blockA (tile * mr + x) b).d := by
  rw [partContents, Layout.row hx, column hx, Layout.row hb, column hb]
  rfl

theorem contents_bsums {tile b x i : ℕ} (hb : b < p.blocks) (hx : x < mr) (hi : i < 8) :
    partContents mr p scaleByte .bsums ((tile * p.blocks + b) * (8 * mr) + (i * mr + x)) =
      bsumBits (p.blockA (tile * mr + x) b).qs i 32 := by
  have index := index_lt hi hx
  rw [partContents, Layout.row index, column index, Layout.row hx, column hx, Layout.row hb, column hb]
  rfl

theorem contents_weightD {tile b x : ℕ} (s : Sums) (hb : b < p.blocks) (hx : x < 32) :
    partContents mr p scaleByte (.weightD s) ((tile * p.blocks + b) * 32 + x) =
      s.scaleOf (p.blockW (tile * 32 + x) b) := by
  rw [partContents, Layout.row hx, column hx, source_slot p.weight hb]
  rfl

theorem contents_scales {slot y : ℕ} (hy : y < 512) :
    partContents mr p scaleByte .scales (slot * 512 + y) = scaleByte slot y := by
  rw [partContents, Layout.row hy, column hy]

theorem activationParts_writes {tile b x : ℕ} (ht : tile < p.tilesM) (hb : b < p.blocks)
    (hx : x < mr) :
    Writes (partSize mr p) (activationParts mr (p.blockA (tile * mr + x) b) (tile * p.blocks + b) x)
      (partContents mr p scaleByte) fun k y =>
        (k = .activationD ∧ y = (tile * p.blocks + b) * mr + x) ∨
          BsumCells mr (tile * p.blocks + b) x k y := by
  have slot := index_lt ht hb
  have room : (tile * p.blocks + b + 1) * (8 * mr) ≤ partSize mr p .bsums :=
    Nat.mul_le_mul_right _ slot
  have sums : Writes (partSize mr p) _ (partContents mr p scaleByte)
      (BsumCells mr (tile * p.blocks + b) x) :=
    Effect.weaken (bsums_writes (p.blockA (tile * mr + x) b) hx room) (fun _ _ no => no.elim)
      (by
        rintro k y ⟨rfl, i, hi, rfl⟩
        refine .inl ⟨⟨rfl, i, hi, rfl⟩, ?_⟩
        rw [addedBsums_at _ hx hi, contents_bsums hb hx hi]
        congr 1
        omega) fun _ _ cell => cell
  have scale : Writes (partSize mr p) (fun parts : Parts α => parts.store .activationD
      ((tile * p.blocks + b) * mr + x) (p.blockA (tile * mr + x) b).d)
      (partContents mr p scaleByte) _ :=
    Writes.store (index_lt slot hx) (contents_activationD hb hx).symm
  exact Writes.seq scale sums

/-- The loops over the activation, beside the quants. -/
def packActivationParts (mr : ℕ) (p : Problem α) : Parts α → Option (Parts α) :=
  forUp (fun tile => forUp (fun b => forUp (fun x =>
    activationParts mr (p.activation ((tile * mr + x) * p.blocks + b)) (tile * p.blocks + b) x)
    0 mr) 0 p.blocks) 0 p.tilesM

variable (live) in
theorem packActivationParts_effect :
    Effect (partSize mr p) (partContents mr p scaleByte) (fun _ _ => False) (packActivationParts mr p)
      (partContents mr p scaleByte)
      (fun k y => (k = .activationD ∨ k = .bsums) ∧ Packed mr live p k y)
      fun k _ => k = .activationD ∨ k = .bsums := by
  have loops : Writes (partSize mr p) (packActivationParts mr p) (partContents mr p scaleByte) _ :=
    Writes.loop fun tile ht => Writes.loop fun b hb => Writes.loop fun x hx =>
      activationParts_writes ht hb hx
  refine Effect.weaken loops (fun _ _ no => no.elim) ?_ ?_
  · rintro k y ⟨rfl | rfl, inside⟩
    · obtain ⟨slot, hs, x, hx, rfl⟩ := Layout.lt_iff.mp inside
      obtain ⟨tile, ht, b, hb, rfl⟩ := Layout.lt_iff.mp hs
      exact .inl ⟨⟨tile, ht, b, hb, x, hx, .inl ⟨rfl, rfl⟩⟩, rfl⟩
    · obtain ⟨slot, hs, r, hr, rfl⟩ := Layout.lt_iff.mp inside
      obtain ⟨tile, ht, b, hb, rfl⟩ := Layout.lt_iff.mp hs
      obtain ⟨i, hi, x, hx, rfl⟩ := Layout.lt_iff.mp hr
      exact .inl ⟨⟨tile, ht, b, hb, x, hx, .inr ⟨rfl, i, hi, rfl⟩⟩, rfl⟩
  · rintro k y ⟨_, _, _, _, _, _, ⟨rfl, _⟩ | ⟨rfl, _⟩⟩
    · exact .inl rfl
    · exact .inr rfl

variable (mr scaleByte) in
theorem storeScales_writes {tile b x : ℕ} (ht : tile < p.tilesN) (hb : b < p.blocks) (hx : x < 32) :
    Writes (partSize mr p) (storeScales (p.blockW (tile * 32 + x) b) (tile * p.blocks + b) x)
      (partContents mr p scaleByte) fun k y =>
        ∃ s, k = .weightD s ∧ y = (tile * p.blocks + b) * 32 + x := by
  have each : ∀ s : Sums, Writes (partSize mr p) (fun parts : Parts α => parts.store (.weightD s)
      ((tile * p.blocks + b) * 32 + x) (s.scaleOf (p.blockW (tile * 32 + x) b)))
      (partContents mr p scaleByte) _ := fun s =>
    Writes.store (index_lt (index_lt ht hb) hx) (contents_weightD s hb hx).symm
  have both : Writes (partSize mr p) (storeScales (p.blockW (tile * 32 + x) b) (tile * p.blocks + b) x)
      (partContents mr p scaleByte) _ := Writes.seq (each .sum) (each .sumMin)
  refine both.weaken (fun _ _ no => no) fun k y => ?_
  constructor
  · rintro ⟨s, rfl, rfl⟩
    cases s with
    | sum => exact .inl ⟨rfl, rfl⟩
    | sumMin => exact .inr ⟨rfl, rfl⟩
  · rintro (⟨rfl, rfl⟩ | ⟨rfl, rfl⟩)
    · exact ⟨.sum, rfl, rfl⟩
    · exact ⟨.sumMin, rfl, rfl⟩

section Fields

variable (w : ℕ → BitVec 8) {i : ℕ}

theorem q4Scale_low (hi : i < 4) : q4Scale w i = w i &&& 63 := by
  rw [q4Scale, if_pos hi]

theorem q4Scale_high : q4Scale w (i + 4) = w (8 + i) &&& 15 ||| (w i >>> 6) <<< 4 := by
  rw [q4Scale, if_neg (by omega), Nat.add_sub_cancel, show i + 4 + 4 = 8 + i by omega]

theorem q4Min_low (hi : i < 4) : q4Min w i = w (4 + i) &&& 63 := by
  rw [q4Min, if_pos hi, Nat.add_comm]

theorem q4Min_high : q4Min w (i + 4) = w (8 + i) >>> 4 ||| (w (4 + i) >>> 6) <<< 4 := by
  rw [q4Min, if_neg (by omega), show i + 4 + 4 = 8 + i by omega, Nat.add_comm i]

end Fields

/-- The bytes of the 12-row adapter. -/
def myBytes (p : Problem α) (slot y : ℕ) : BitVec 8 :=
  if y < 256 then q4Scale (source p.weight p.blocks slot (y % 32)).scales (y / 32)
  else q4Min (source p.weight p.blocks slot (y % 32)).scales ((y - 256) / 32)

theorem myBytes_scale {tile b x i : ℕ} (hb : b < p.blocks) (hi : i < 8) (hx : x < 32) :
    myBytes p (tile * p.blocks + b) (i * 32 + x) = q4Scale (p.blockW (tile * 32 + x) b).scales i := by
  rw [myBytes, if_pos (index_lt hi hx), Layout.row hx, column hx, source_slot p.weight hb]
  rfl

theorem myBytes_min {tile b x i : ℕ} (hb : b < p.blocks) (hx : x < 32) :
    myBytes p (tile * p.blocks + b) (256 + (i * 32 + x)) =
      q4Min (p.blockW (tile * 32 + x) b).scales i := by
  rw [myBytes, if_neg (by omega), Nat.add_sub_cancel_left, Layout.row hx,
    show (256 + (i * 32 + x)) % 32 = x by omega, source_slot p.weight hb]
  rfl

variable (mr) in
theorem myParts_writes {tile b x : ℕ} (ht : tile < p.tilesN) (hb : b < p.blocks) (hx : x < 32) :
    ∃ S : Region Part, Writes (partSize mr p)
        (myParts (p.blockW (tile * 32 + x) b) (tile * p.blocks + b) x)
        (partContents mr p (myBytes p)) S ∧
      ∀ k y, S k y ↔ (∃ s, k = .weightD s ∧ y = (tile * p.blocks + b) * 32 + x) ∨
        k = .scales ∧ ∃ i < 16, y = (tile * p.blocks + b) * 512 + (i * 32 + x) := by
  have slot : tile * p.blocks + b < p.tilesN * p.blocks := index_lt ht hb
  have bound : ∀ y < 512, (tile * p.blocks + b) * 512 + y < partSize mr p .scales :=
    fun y hy => index_lt slot hy
  have scale : ∀ i < 8, q4Scale (p.blockW (tile * 32 + x) b).scales i =
      partContents mr p (myBytes p) .scales ((tile * p.blocks + b) * 512 + (i * 32 + x)) := by
    intro i hi
    rw [contents_scales (by omega), myBytes_scale hb hi hx]
  have min : ∀ i < 8, q4Min (p.blockW (tile * 32 + x) b).scales i =
      partContents mr p (myBytes p) .scales ((tile * p.blocks + b) * 512 + (256 + (i * 32 + x))) := by
    intro i hi
    rw [contents_scales (by omega), myBytes_min hb hx]
  refine ⟨_, Writes.seq (storeScales_writes mr (myBytes p) ht hb hx) (Writes.loop fun i hi =>
    Writes.seq (Writes.store (bound _ (by omega)) ?_) (Writes.seq (Writes.store (bound _ (by omega)) ?_)
      (Writes.seq (Writes.store (bound _ (by omega)) ?_) (Writes.store (bound _ (by omega)) ?_)))), ?_⟩
  · rw [← scale i (by omega), q4Scale_low _ hi]
  · rw [← min i (by omega), q4Min_low _ hi]
  · rw [← scale (i + 4) (by omega), q4Scale_high]
  · rw [← min (i + 4) (by omega), q4Min_high]
  · intro k y
    refine or_congr Iff.rfl ?_
    constructor
    · rintro ⟨i, hi, ⟨rfl, rfl⟩ | ⟨rfl, rfl⟩ | ⟨rfl, rfl⟩ | ⟨rfl, rfl⟩⟩
      · exact ⟨rfl, i, by omega, rfl⟩
      · exact ⟨rfl, i + 8, by omega, by omega⟩
      · exact ⟨rfl, i + 4, by omega, rfl⟩
      · exact ⟨rfl, i + 12, by omega, by omega⟩
    · rintro ⟨rfl, i, hi, rfl⟩
      have four : i < 4 ∨ 4 ≤ i ∧ i < 8 ∨ 8 ≤ i ∧ i < 12 ∨ 12 ≤ i := by omega
      rcases four with low | low | low | low
      · exact ⟨i, low, .inl ⟨rfl, rfl⟩⟩
      · exact ⟨i - 4, by omega, .inr (.inr (.inl ⟨rfl, by omega⟩))⟩
      · exact ⟨i - 8, by omega, .inr (.inl ⟨rfl, by omega⟩)⟩
      · exact ⟨i - 12, by omega, .inr (.inr (.inr ⟨rfl, by omega⟩))⟩

/-- The loops over the weights of the 12-row adapter, beside the quants. -/
def packMyParts (p : Problem α) : Parts α → Option (Parts α) :=
  forUp (fun tile => forUp (fun b => forUp (fun x =>
    myParts (p.weight ((tile * 32 + x) * p.blocks + b)) (tile * p.blocks + b) x)
    0 32) 0 p.blocks) 0 p.tilesN

theorem packMyParts_effect :
    Effect (partSize mr p) (partContents mr p (myBytes p)) (fun _ _ => False) (packMyParts p)
      (partContents mr p (myBytes p))
      (fun k y => ((∃ s, k = .weightD s) ∨ k = .scales) ∧ Packed mr 512 p k y) fun _ _ => True := by
  have each := fun tile (ht : tile < p.tilesN) b (hb : b < p.blocks) x (hx : x < 32) =>
    myParts_writes mr ht hb hx
  choose! S writes cells using each
  have loops : Writes (partSize mr p) (packMyParts p) (partContents mr p (myBytes p)) _ :=
    Writes.loop fun tile ht => Writes.loop fun b hb => Writes.loop fun x hx => writes tile ht b hb x hx
  refine Effect.weaken loops (fun _ _ no => no.elim) ?_ fun _ _ _ => trivial
  rintro k y ⟨⟨s, rfl⟩ | rfl, inside⟩
  · obtain ⟨slot, hs, x, hx, rfl⟩ := Layout.lt_iff.mp inside
    obtain ⟨tile, ht, b, hb, rfl⟩ := Layout.lt_iff.mp hs
    exact .inl ⟨⟨tile, ht, b, hb, x, hx, (cells tile ht b hb x hx _ _).mpr (.inl ⟨s, rfl, rfl⟩)⟩, rfl⟩
  · obtain ⟨tile, ht, b, hb, slot⟩ := Layout.lt_iff.mp inside.1
    refine .inl ⟨⟨tile, ht, b, hb, y % 32, by omega, (cells tile ht b hb (y % 32) (by omega) _ _).mpr
      (.inr ⟨rfl, y % 512 / 32, by omega, by omega⟩)⟩, rfl⟩

/-- Byte `r` of the 48 that `pack_group_subblock` makes of sub-block `sb`. -/
def groupByte (records : ℕ → BlockQ4K α) (sb r : ℕ) : BitVec 8 :=
  if r < 16 then
    q4Scale (records r).scales sb ||| (q4Scale (records (r + 16)).scales sb >>> 4) <<< 6
  else if r < 32 then
    q4Min (records (r - 16)).scales sb ||| (q4Min (records r).scales sb >>> 4) <<< 6
  else q4Scale (records (r - 16)).scales sb &&& 0x0f |||
    (q4Min (records (r - 16)).scales sb &&& 0x0f) <<< 4

/-- The bytes of the grouped adapter; the last two sub-blocks lie in `mins`. -/
def groupBytes (p : Problem α) (slot y : ℕ) : BitVec 8 :=
  groupByte (source p.weight p.blocks slot) (y / 48) (y % 48)

theorem packGroupSubblock_writes {slot sb destination : ℕ} (hslot : slot < p.tilesN * p.blocks)
    (hs : sb < 8) (here : destination = slot * 512 + sb * 48) :
    Writes (partSize mr p) (packGroupSubblock (source p.weight p.blocks slot) sb destination)
      (partContents mr p (groupBytes p)) fun k y => k = .scales ∧ ∃ r < 48, y = destination + r := by
  have bound : ∀ r < 48, destination + r < partSize mr p .scales := by
    intro r hr
    have inside : slot * 512 + (sb * 48 + r) < p.tilesN * p.blocks * 512 := index_lt hslot (by omega)
    rw [here, Nat.add_assoc]
    exact inside
  have value : ∀ r < 48, groupByte (source p.weight p.blocks slot) sb r =
      partContents mr p (groupBytes p) .scales (destination + r) := by
    intro r hr
    rw [here, Nat.add_assoc, contents_scales (by omega), groupBytes, Layout.row hr, column hr]
  have loop : ∃ S : Region Part, Writes (partSize mr p)
      (packGroupSubblock (source p.weight p.blocks slot) sb destination)
      (partContents mr p (groupBytes p)) S ∧
      ∀ k y, (k = .scales ∧ ∃ r < 48, y = destination + r) ↔ S k y := by
    refine ⟨_, Writes.loop fun column hc => Writes.seq (Writes.store (bound _ (by omega)) ?_)
      (Writes.seq (Writes.store (bound _ (by omega)) ?_) (Writes.store (bound _ (by omega)) ?_)), ?_⟩
    · rw [← value column (by omega), groupByte, if_pos hc]
    · rw [← value (16 + column) (by omega), groupByte, if_neg (by omega), if_pos (by omega),
        Nat.add_sub_cancel_left, Nat.add_comm 16]
    · rw [← value (32 + column) (by omega), groupByte, if_neg (by omega), if_neg (by omega),
        show 32 + column - 16 = column + 16 by omega]
    · intro k y
      constructor
      · rintro ⟨rfl, r, hr, rfl⟩
        have third : r < 16 ∨ 16 ≤ r ∧ r < 32 ∨ 32 ≤ r := by omega
        rcases third with low | low | low
        · exact ⟨r, low, .inl ⟨rfl, rfl⟩⟩
        · exact ⟨r - 16, by omega, .inr (.inl ⟨rfl, by omega⟩)⟩
        · exact ⟨r - 32, by omega, .inr (.inr ⟨rfl, by omega⟩)⟩
      · rintro ⟨column, hc, ⟨rfl, rfl⟩ | ⟨rfl, rfl⟩ | ⟨rfl, rfl⟩⟩
        · exact ⟨rfl, column, by omega, rfl⟩
        · exact ⟨rfl, 16 + column, by omega, rfl⟩
        · exact ⟨rfl, 32 + column, by omega, rfl⟩
  obtain ⟨S, writes, same⟩ := loop
  exact Fills.weaken writes (fun _ _ no => no) same

theorem groupScales_writes {slot : ℕ} (hslot : slot < p.tilesN * p.blocks) :
    Writes (partSize mr p) (groupScales (source p.weight p.blocks slot) slot)
      (partContents mr p (groupBytes p)) fun k y => k = .scales ∧ ∃ r < 384, y = slot * 512 + r := by
  have first : ∀ sb < 4, Writes (partSize mr p)
      (packGroupSubblock (source p.weight p.blocks slot) (sb * 2) (slot * 512 + sb * 96))
      (partContents mr p (groupBytes p)) _ := fun sb hs =>
    packGroupSubblock_writes hslot (by omega) (by omega)
  have second : ∀ sb < 4, Writes (partSize mr p)
      (packGroupSubblock (source p.weight p.blocks slot) (sb * 2 + 1) (slot * 512 + (sb * 96 + 48)))
      (partContents mr p (groupBytes p)) _ := fun sb hs =>
    packGroupSubblock_writes hslot (by omega) (by omega)
  have loop : Writes (partSize mr p) (groupScales (source p.weight p.blocks slot) slot)
      (partContents mr p (groupBytes p)) _ :=
    Writes.loop fun sb hs => Writes.seq (first sb hs) (second sb hs)
  refine loop.weaken (fun _ _ no => no) fun k y => ?_
  constructor
  · rintro ⟨rfl, r, hr, rfl⟩
    by_cases low : r % 96 < 48
    · exact ⟨r / 96, by omega, .inl ⟨rfl, r % 96, low, by omega⟩⟩
    · exact ⟨r / 96, by omega, .inr ⟨rfl, r % 96 - 48, by omega, by omega⟩⟩
  · rintro ⟨sb, hs, ⟨rfl, r, hr, rfl⟩ | ⟨rfl, r, hr, rfl⟩⟩
    · exact ⟨rfl, sb * 96 + r, by omega, by omega⟩
    · exact ⟨rfl, sb * 96 + 48 + r, by omega, by omega⟩

variable (mr) in
theorem groupParts_writes {tile b x : ℕ} (ht : tile < p.tilesN) (hb : b < p.blocks) (hx : x < 32) :
    ∃ S : Region Part, Writes (partSize mr p)
        (groupParts (fun column => p.blockW (tile * 32 + column) b) (tile * p.blocks + b) x)
        (partContents mr p (groupBytes p)) S ∧
      ∀ k y, (∃ s, k = .weightD s ∧ y = (tile * p.blocks + b) * 32 + x) ∨
        (x = 0 ∧ k = .scales ∧ ∃ r < 384, y = (tile * p.blocks + b) * 512 + r) → S k y := by
  have slot : tile * p.blocks + b < p.tilesN * p.blocks := index_lt ht hb
  have records : (fun column => p.blockW (tile * 32 + column) b) =
      source p.weight p.blocks (tile * p.blocks + b) := by
    funext column
    exact (source_slot p.weight hb).symm
  have column := storeScales_writes mr (groupBytes p) ht hb hx
  by_cases first : x = 0
  · have run : groupParts (fun column => p.blockW (tile * 32 + column) b) (tile * p.blocks + b) x =
        fun parts => (storeScales (p.blockW (tile * 32 + x) b) (tile * p.blocks + b) x parts).bind
          (groupScales (source p.weight p.blocks (tile * p.blocks + b)) (tile * p.blocks + b)) := by
      funext parts
      rw [groupParts, records]
      simp only [if_pos first]
    refine ⟨_, run ▸ Writes.seq column (groupScales_writes slot), ?_⟩
    rintro k y (cell | ⟨_, cell⟩)
    · exact .inl cell
    · exact .inr cell
  · have run : groupParts (fun column => p.blockW (tile * 32 + column) b) (tile * p.blocks + b) x =
        storeScales (p.blockW (tile * 32 + x) b) (tile * p.blocks + b) x := by
      funext parts
      rw [groupParts]
      simp only [if_neg first]
      exact Option.bind_fun_some _
    refine ⟨_, run ▸ column, ?_⟩
    rintro k y (cell | ⟨no, _⟩)
    · exact cell
    · exact absurd no first

/-- The loops over the weights of the grouped adapter, beside the quants. -/
def packGroupParts (p : Problem α) : Parts α → Option (Parts α) :=
  forUp (fun tile => forUp (fun b => forUp (fun x =>
    groupParts (fun column => p.weight ((tile * 32 + column) * p.blocks + b)) (tile * p.blocks + b) x)
    0 32) 0 p.blocks) 0 p.tilesN

theorem packGroupParts_effect :
    Effect (partSize mr p) (partContents mr p (groupBytes p)) (fun _ _ => False) (packGroupParts p)
      (partContents mr p (groupBytes p))
      (fun k y => ((∃ s, k = .weightD s) ∨ k = .scales) ∧ Packed mr 384 p k y) fun _ _ => True := by
  have each := fun tile (ht : tile < p.tilesN) b (hb : b < p.blocks) x (hx : x < 32) =>
    groupParts_writes mr ht hb hx
  choose! S writes cells using each
  have loops : Writes (partSize mr p) (packGroupParts p) (partContents mr p (groupBytes p)) _ :=
    Writes.loop fun tile ht => Writes.loop fun b hb => Writes.loop fun x hx => writes tile ht b hb x hx
  refine Effect.weaken loops (fun _ _ no => no.elim) ?_ fun _ _ _ => trivial
  rintro k y ⟨⟨s, rfl⟩ | rfl, inside⟩
  · obtain ⟨slot, hs, x, hx, rfl⟩ := Layout.lt_iff.mp inside
    obtain ⟨tile, ht, b, hb, rfl⟩ := Layout.lt_iff.mp hs
    exact .inl ⟨⟨tile, ht, b, hb, x, hx, cells tile ht b hb x hx _ _ (.inl ⟨s, rfl, rfl⟩)⟩, rfl⟩
  · obtain ⟨tile, ht, b, hb, slot⟩ := Layout.lt_iff.mp inside.1
    refine .inl ⟨⟨tile, ht, b, hb, 0, by omega, cells tile ht b hb 0 (by omega) _ _
      (.inr ⟨rfl, rfl, y % 512, inside.2, by omega⟩)⟩, rfl⟩

/-- Members as the kernels find them. -/
structure Prepared (mr live : ℕ) (p : Problem α) (scaleByte : ℕ → ℕ → BitVec 8) (parts : Parts α) :
    Prop where
  sizes : parts.size = partSize mr p
  holds : Holds (partContents mr p scaleByte) (Packed mr live p) parts

theorem prepared_ends {packWeights : Parts α → Option (Parts α)} {parts : Parts α}
    (weights : Effect (partSize mr p) (partContents mr p scaleByte) (fun _ _ => False) packWeights
      (partContents mr p scaleByte)
      (fun k y => ((∃ s, k = .weightD s) ∨ k = .scales) ∧ Packed mr live p k y) fun _ _ => True)
    (sizes : parts.size = partSize mr p) :
    Ends ((packWeights parts).bind (packActivationParts mr p)) (Prepared mr live p scaleByte) := by
  have activation : Effect (partSize mr p) (partContents mr p scaleByte)
      (fun k y => ((∃ s, k = .weightD s) ∨ k = .scales) ∧ Packed mr live p k y)
      (packActivationParts mr p) (partContents mr p scaleByte) (Packed mr live p) _ :=
    (packActivationParts_effect live).weaken (fun _ _ no => no.elim) (by
      intro k y inside
      cases k with
      | activationD => exact .inl ⟨⟨.inl rfl, inside⟩, rfl⟩
      | bsums => exact .inl ⟨⟨.inr rfl, inside⟩, rfl⟩
      | weightD s => exact .inr ⟨by simp, ⟨.inl ⟨s, rfl⟩, inside⟩, rfl⟩
      | scales => exact .inr ⟨by simp, ⟨.inr rfl, inside⟩, rfl⟩) fun _ _ cell => cell
  refine (weights.seq activation parts sizes fun _ _ no => no.elim).mono fun parts' ⟨change, left⟩ => ?_
  exact ⟨change.size.trans sizes, left⟩

theorem prepareMy_ends {bytes : Bytes} {parts : Parts α} (sizes : bytes.size = bufferSize 12 p)
    (partSizes : parts.size = partSize 12 p) :
    Ends (prepareMy p (bytes, parts)) fun s =>
      Ready 12 p.activation (myEntry p.weight p.blocks) p.tilesM p.tilesN p.blocks s.1 ∧
        Prepared 12 512 p (myBytes p) s.2 := by
  have quants := packed_run sizes rfl rfl (packMy_writes p.activation p.weight rfl)
  have members := prepared_ends packMyParts_effect partSizes
  have run : prepareMy p (bytes, parts) = pair
      (fun m => (packMy p.weight p.tilesN p.blocks m).bind
        (packActivation 12 p.activation p.tilesM p.blocks))
      (fun m => (packMyParts p m).bind (packActivationParts 12 p)) (bytes, parts) := by
    simp only [prepareMy, prepareActivation, forUp_pair]
    exact pair_bind _ _ _ _ _ _
  rw [run]
  exact pair_ends quants members

theorem prepareGroup_ends {bytes : Bytes} {parts : Parts α} (sizes : bytes.size = bufferSize 4 p)
    (partSizes : parts.size = partSize 4 p) :
    Ends (prepareGroup p (bytes, parts)) fun s =>
      Ready 4 p.activation (groupEntry p.weight p.blocks) p.tilesM p.tilesN p.blocks s.1 ∧
        Prepared 4 384 p (groupBytes p) s.2 := by
  have quants := packed_run sizes rfl rfl (packGroup_writes p.activation p.weight rfl)
  have members := prepared_ends packGroupParts_effect partSizes
  have run : prepareGroup p (bytes, parts) = pair
      (fun m => (packGroup p.weight p.tilesN p.blocks m).bind
        (packActivation 4 p.activation p.tilesM p.blocks))
      (fun m => (packGroupParts p m).bind (packActivationParts 4 p)) (bytes, parts) := by
    simp only [prepareGroup, prepareActivation, forUp_pair]
    exact pair_bind _ _ _ _ _ _
  rw [run]
  exact pair_ends quants members

namespace Prepared

variable {parts : Parts α} {tile b : ℕ}

theorem activationD (h : Prepared mr live p scaleByte parts) (ht : tile < p.tilesM)
    (hb : b < p.blocks) {x : ℕ} (hx : x < mr) :
    parts.load .activationD ((tile * p.blocks + b) * mr + x) =
      some (p.blockA (tile * mr + x) b).d := by
  have inside : (tile * p.blocks + b) * mr + x < partSize mr p .activationD :=
    index_lt (index_lt ht hb) hx
  rw [load_eq h.holds h.sizes inside inside, contents_activationD hb hx]

theorem bsums (h : Prepared mr live p scaleByte parts) (ht : tile < p.tilesM) (hb : b < p.blocks)
    {x i : ℕ} (hx : x < mr) (hi : i < 8) :
    parts.load .bsums ((tile * p.blocks + b) * (8 * mr) + (i * mr + x)) =
      some (bsumBits (p.blockA (tile * mr + x) b).qs i 32) := by
  have inside : (tile * p.blocks + b) * (8 * mr) + (i * mr + x) < partSize mr p .bsums :=
    index_lt (index_lt ht hb) (index_lt hi hx)
  rw [load_eq h.holds h.sizes inside inside, contents_bsums hb hx hi]

theorem weightD (h : Prepared mr live p scaleByte parts) (s : Sums) (ht : tile < p.tilesN)
    (hb : b < p.blocks) :
    Ends (parts.loadLanes (.weightD s) ((tile * p.blocks + b) * 32) 32) fun w =>
      ∀ lane < 32, w lane = s.scaleOf (p.blockW (tile * 32 + lane) b) := by
  have slot : tile * p.blocks + b < p.tilesN * p.blocks := index_lt ht hb
  have room : (tile * p.blocks + b) * 32 + 32 ≤ partSize mr p (.weightD s) := by
    have last := Nat.mul_le_mul_right 32 slot
    rwa [Nat.succ_mul] at last
  obtain ⟨w, run, lanes⟩ := loadLanes_eq h.holds h.sizes room fun lane hl => index_lt slot hl
  refine ⟨w, run, fun lane hl => ?_⟩
  rw [lanes lane hl, contents_weightD s hb hl]

theorem scales (h : Prepared mr live p scaleByte parts) (ht : tile < p.tilesN) (hb : b < p.blocks)
    {y n : ℕ} (hy : y + n ≤ live) (hlive : live ≤ 512) :
    Ends (parts.loadLanes .scales ((tile * p.blocks + b) * 512 + y) n) fun w =>
      ∀ lane < n, w lane = scaleByte (tile * p.blocks + b) (y + lane) := by
  have slot : tile * p.blocks + b < p.tilesN * p.blocks := index_lt ht hb
  have room : (tile * p.blocks + b) * 512 + y + n ≤ partSize mr p .scales := by
    have last : (tile * p.blocks + b + 1) * 512 ≤ p.tilesN * p.blocks * 512 :=
      Nat.mul_le_mul_right 512 slot
    rw [Nat.succ_mul] at last
    refine Nat.le_trans ?_ last
    rw [Nat.add_assoc]
    exact Nat.add_le_add_left (hy.trans hlive) _
  obtain ⟨w, run, lanes⟩ := loadLanes_eq h.holds h.sizes room fun lane hl => by
    have inside : y + lane < 512 := by omega
    rw [Nat.add_assoc]
    exact ⟨by rwa [Layout.row inside], by
      rw [column inside]
      omega⟩
  refine ⟨w, run, fun lane hl => ?_⟩
  rw [lanes lane hl, Nat.add_assoc, contents_scales (by omega)]

end Prepared

end Contents

end Pfng.Q4K
