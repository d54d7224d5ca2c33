import Pfng.Q40.M4
import Pfng.Q40.Windows

/-! What the kernel with immediate reduction adds to a tile, and what `c_unpack_ime_m4_n16` makes of
it. -/
namespace Pfng.Q40.ImmediateReduction
open Checked Ime BatchReduction Words

variable {F H : Type}

/-- Byte `o` of an activation block of four rows. -/
def activationByte (a : ℕ → BlockQ80 Word) (o : ℕ) : BitVec 8 :=
  if o < 16 then byteOf (a (o / 4)).d (o % 4)
  else (a ((o - 16) % 32 / 8)).qs ((o - 16) / 32 * 8 + (o - 16) % 8)

def mivRow (x : ℕ) : ℕ := x % 16 / 4

def mivColumn (x : ℕ) : ℕ := x / 16 * 4 + x % 4

section Block

variable {m : M4Memory H F} {a : Blocks} {rows : ℕ → BlockQ80 Word} {columns : ℕ → BlockQ40 H}

/-- The bytes and the scales of one K block. -/
structure HoldsBlock (a : Blocks) (blockA blockB : ℕ) (rows : ℕ → BlockQ80 Word)
    (columns : ℕ → BlockQ40 H) (m : M4Memory H F) : Prop where
  activation : ∀ o < 144, blockA + o < m.size (.activation a) ∧
    m.cell (.activation a) (blockA + o) = some (activationByte rows o)
  weights : ∀ o < 256, blockB * 256 + o < m.size .weights ∧ m.cell .weights (blockB * 256 + o) =
    some (packedByte .ime1 (columns (weightColumn .ime1 o)) (weightDepth .ime1 o))
  scales : ∀ column < 16, blockB * 16 + column < m.size .scales ∧
    m.cell .scales (blockB * 16 + column) = some (columns column).d

theorem dots_ends {blockA blockB : ℕ} (holds : HoldsBlock a blockA blockB rows columns m) :
    Ends (dots a blockA blockB m) fun inner_acc => ∀ g < 4, ∀ lane < 16,
      inner_acc g lane = blockSum (columns (g * 4 + lane % 4)) (rows (lane / 4)) := by
  have weights : ∀ inner < 2, Ends
      (m.fetchRows .weights id (blockB * 256 + inner * 128) 32 4 32) fun packed =>
        ∀ g < 4, ∀ lane < 32, packed g lane =
          packedByte .ime1 (columns (g * 4 + lane / 8)) (inner * 16 + lane % 8) := by
    intro inner hi
    have place : ∀ g < 4, ∀ lane < 32, inner * 128 + g * 32 + lane < 256 ∧
        weightColumn .ime1 (inner * 128 + g * 32 + lane) = g * 4 + lane / 8 ∧
        weightDepth .ime1 (inner * 128 + g * 32 + lane) = inner * 16 + lane % 8 := by
      intro g hg lane hl
      simp only [weightColumn, weightDepth, kBytesPerMIV, MatrixUnit.width, MatrixUnit.depth]
      omega
    have cell : ∀ g < 4, ∀ lane < 32,
        blockB * 256 + inner * 128 + g * 32 + lane < m.size .weights ∧
        m.cell .weights (blockB * 256 + inner * 128 + g * 32 + lane) =
          some (packedByte .ime1 (columns (g * 4 + lane / 8)) (inner * 16 + lane % 8)) := by
      intro g hg lane hl
      obtain ⟨inside, column, depth⟩ := place g hg lane hl
      have byte := holds.weights _ inside
      rwa [column, depth, ← Nat.add_assoc, ← Nat.add_assoc] at byte
    exact fetchRows_ends (fun g hg lane hl => (cell g hg lane hl).1)
      fun g hg lane hl => (cell g hg lane hl).2
  have quants : ∀ inner < 2, Ends
      (m.fetchRows (.activation a) id (blockA + 16 + inner * 64) 32 2 32) fun A =>
        ∀ j < 2, ∀ lane < 32, A j lane =
          (rows (lane / 8)).qs (inner * 16 + (j * 8 + lane % 8)) := by
    intro inner hi
    have place : ∀ j < 2, ∀ lane < 32, 16 + inner * 64 + j * 32 + lane < 144 ∧
        ¬ 16 + inner * 64 + j * 32 + lane < 16 ∧
        (16 + inner * 64 + j * 32 + lane - 16) % 32 / 8 = lane / 8 ∧
        (16 + inner * 64 + j * 32 + lane - 16) / 32 * 8 +
          (16 + inner * 64 + j * 32 + lane - 16) % 8 = inner * 16 + (j * 8 + lane % 8) := by
      intro j hj lane hl
      omega
    have cell : ∀ j < 2, ∀ lane < 32,
        blockA + 16 + inner * 64 + j * 32 + lane < m.size (.activation a) ∧
        m.cell (.activation a) (blockA + 16 + inner * 64 + j * 32 + lane) =
          some ((rows (lane / 8)).qs (inner * 16 + (j * 8 + lane % 8))) := by
      intro j hj lane hl
      obtain ⟨inside, isQuant, row, depth⟩ := place j hj lane hl
      have byte := holds.activation _ inside
      rwa [activationByte, if_neg isQuant, row, depth, ← Nat.add_assoc, ← Nat.add_assoc,
        ← Nat.add_assoc] at byte
    exact fetchRows_ends (fun j hj lane hl => (cell j hj lane hl).1)
      fun j hj lane hl => (cell j hj lane hl).2
  have run : Ends (dots a blockA blockB m) fun inner_acc =>
      ∀ g < 4, Windows rows (fun column => columns (g * 4 + column)) 2 (inner_acc g) := by
    refine loop_ends (fun inner (acc : ℕ → ℕ → ℤ) =>
      ∀ g < 4, Windows rows (fun column => columns (g * 4 + column)) inner (acc g))
      (fun g _ => .zero) fun inner hi acc before => ?_
    refine (weights inner hi).bind fun packed weight => ?_
    refine (quants inner hi).map fun A quant => ?_
    intro g hg
    refine (before g hg).next ⟨?_, ?_, weight g hg⟩
    · intro lane hl
      rw [quant 0 (by decide) lane hl, Nat.zero_mul, Nat.zero_add]
    · intro lane hl
      rw [quant 1 (by decide) lane hl, Nat.one_mul]
  exact run.mono fun inner_acc sums g hg lane hl => (sums g hg).sum hl

/-- The last four lanes repeat the first ones. -/
theorem blockScales_ends [Inhabited H] {blockA blockB : ℕ}
    (holds : HoldsBlock a blockA blockB rows columns m) {g : ℕ} (hg : g < 4) :
    Ends (blockScales blockB g m) fun s => ∀ lane < 8, s lane = (columns (g * 4 + lane % 4)).d := by
  have cell : ∀ lane < 4, blockB * 16 + 4 * g + lane < m.size .scales ∧
      m.cell .scales (blockB * 16 + 4 * g + lane) = some (columns (g * 4 + lane)).d := by
    intro lane hl
    have scale := holds.scales (g * 4 + lane) (by omega)
    rw [← Nat.add_assoc] at scale
    rwa [Nat.mul_comm 4 g]
  have back : ∀ lane < 8, 3 < lane → blockB * 16 + 4 * g + lane - 4 =
      blockB * 16 + 4 * g + lane % 4 := by
    intro lane hl on
    omega
  refine (fetchLanes_ends (fun lane hl => (cell lane hl).1) fun lane hl => (cell lane hl).2).bind
    fun s first => ?_
  refine (fetchMasked_ends (f := fun lane => (columns (g * 4 + lane % 4)).d) ?_ ?_).mono
    fun s' all => ?_
  · intro lane hl on
    rw [back lane hl (of_decide_eq_true on)]
    exact (cell _ (Nat.mod_lt lane (by decide))).1
  · intro lane hl on
    rw [back lane hl (of_decide_eq_true on)]
    exact (cell _ (Nat.mod_lt lane (by decide))).2
  · intro lane hl
    rw [all lane hl]
    split
    · rfl
    · next off =>
        have low : lane < 4 := by
          rw [decide_eq_true_eq] at off
          omega
        rw [first lane low, Nat.mod_eq_of_lt low]

theorem aScale_eq (a_scale : ℕ → F) {lane : ℕ} (hl : lane < 16) :
    aScale a_scale lane = a_scale (lane / 4) := by
  unfold aScale
  split
  · split
    · rw [show lane / 4 = 0 by omega]
    · rw [show lane / 4 = 1 by omega]
  · split
    · rw [show lane / 4 = 2 by omega]
    · rw [show lane / 4 = 3 by omega]

theorem aScales_ends {blockA blockB : ℕ} (holds : HoldsBlock a blockA blockB rows columns m) :
    Ends (m.fetchRows (.activation a) id blockA 4 4 4) fun d =>
      ∀ row < 4, ofBytes (d row) = (rows row).d := by
  have bytes : ∀ row < 4, ∀ i < 4, blockA + row * 4 + i < m.size (.activation a) ∧
      m.cell (.activation a) (blockA + row * 4 + i) = some (byteOf (rows row).d i) := by
    intro row hr i hi
    have scale : row * 4 + i < 16 := by omega
    have byte := holds.activation (row * 4 + i) (by omega)
    rwa [activationByte, if_pos scale, Layout.row hi, Layout.column hi, ← Nat.add_assoc] at byte
  refine (fetchRows_ends (fun row hr i hi => (bytes row hr i hi).1)
    fun row hr i hi => (bytes row hr i hi).2).mono fun d known => ?_
  intro row hr
  exact ofBytes_byteOf _ fun i hi => known row hr i hi

theorem reduceBlock_ends [Inhabited F] [Inhabited H] [OfWord F] {ops : FloatOps F H} {quantA quantB bk : ℕ}
    {acc : ℕ → ℕ → F}
    (holds : HoldsBlock a (quantA + bk * 144) (quantB + bk) rows columns m) :
    Ends (reduceBlock ops a quantA quantB bk m acc) fun acc' => ∀ g < 4, ∀ lane < 16,
      acc' g lane = ops.fma (acc g lane)
        (ops.ofInt (blockSum (columns (g * 4 + lane % 4)) (rows (lane / 4))))
        (ops.mul (ops.widen (columns (g * 4 + lane % 4)).d) (OfWord.ofWord (rows (lane / 4)).d)) := by
  refine (aScales_ends holds).bind fun d floats => ?_
  refine (dots_ends holds).bind fun inner_acc sums => ?_
  refine (fetchAll_ends fun g hg => blockScales_ends holds hg).map fun s scales => ?_
  intro g hg lane hl
  dsimp only
  rw [sums g hg lane hl, scales g hg (lane % 8) (Nat.mod_lt lane (by decide)), aScale_eq _ hl,
    floats _ (Nat.div_lt_of_lt_mul hl), Nat.mod_mod_of_dvd lane (by decide : 4 ∣ 8)]

end Block

section Tile

def MivCells (f : M4Floats) (base : ℕ) : Region M4Buffer := fun k x =>
  k = .floats f ∧ ∃ lane < 64, x = base + lane

def HoldsMiv (f : M4Floats) (base : ℕ) (v : ℕ → F) (m : M4Memory H F) : Prop :=
  ∀ x < 64, base + x < m.size (.floats f) ∧ m.cell (.floats f) (base + x) = some (v x)

variable {m : M4Memory H F} {f : M4Floats} {base : ℕ} {v : ℕ → F}

theorem miv_place {g lane : ℕ} (hl : lane < 16) :
    mivRow (g * 16 + lane) = lane / 4 ∧ mivColumn (g * 16 + lane) = g * 4 + lane % 4 := by
  have four : lane % 4 = (g * 16 + lane) % 4 := by omega
  rw [mivRow, mivColumn, Layout.column hl, Layout.row hl, four]
  exact ⟨rfl, rfl⟩

/-- The kernel adds its blocks to every element of a tile. -/
theorem m4Kernel_ends [Inhabited F] [Inhabited H] [OfWord F] {ops : FloatOps F H} {a : Blocks}
    {quantA quantB BlockCountK : ℕ} {rows : ℕ → ℕ → BlockQ80 Word} {columns : ℕ → ℕ → BlockQ40 H}
    (blocks : ∀ bk < BlockCountK,
      HoldsBlock a (quantA + bk * 144) (quantB + bk) (rows bk) (columns bk) m)
    (held : HoldsMiv f base v m) :
    Ends (m4Kernel ops a quantA quantB f base BlockCountK m) fun m' =>
      Within (MivCells f base) m m' ∧ HoldsMiv f base (fun x => accumulated ops
        (fun b => blockSum (columns b (mivColumn x)) (rows b (mivRow x)))
        (fun b => (columns b (mivColumn x)).d) (fun b => OfWord.ofWord (rows b (mivRow x)).d) (v x)
        BlockCountK)
        m' := by
  have lanes : ∀ g < 4, ∀ lane < 16, base + g * 16 + lane < m.size (.floats f) ∧
      m.cell (.floats f) (base + g * 16 + lane) = some (v (g * 16 + lane)) := by
    intro g hg lane hl
    rw [Nat.add_assoc]
    exact held _ (Layout.index_lt hg hl)
  refine (fetchRows_ends (fun g hg lane hl => (lanes g hg lane hl).1)
    fun g hg lane hl => (lanes g hg lane hl).2).bind fun loaded before => ?_
  have run : Ends (forUp (fun bk => reduceBlock ops a quantA quantB bk m) 0 BlockCountK loaded) _ :=
    loop_ends (fun bk (acc : ℕ → ℕ → F) => ∀ g < 4, ∀ lane < 16, acc g lane = accumulated ops
        (fun b => blockSum (columns b (g * 4 + lane % 4)) (rows b (lane / 4)))
        (fun b => (columns b (g * 4 + lane % 4)).d) (fun b => OfWord.ofWord (rows b (lane / 4)).d)
        (v (g * 16 + lane)) bk) before fun bk hb acc known => by
      refine (reduceBlock_ends (blocks bk hb)).mono fun acc' added => ?_
      intro g hg lane hl
      rw [added g hg lane hl, known g hg lane hl]
      rfl
  refine run.bind fun summed sums => ?_
  have stores : Fills m.size (Function.update m.cell (.floats f) fun x => some
        (summed ((x - base) / 16) ((x - base) % 16))) (fun _ _ => False)
      (fun memory : M4Memory H F => memory.storeRows (.floats f) base 16 4 16 fun g lane =>
        some (summed g lane))
      (Function.update m.cell (.floats f) fun x => some
        (summed ((x - base) / 16) ((x - base) % 16))) _ :=
    Fills.storeRows (fun g hg lane hl => (lanes g hg lane hl).1) fun g hg lane hl => by
      rw [Function.update_self, Nat.add_assoc, Nat.add_sub_cancel_left, Layout.row hl,
        Layout.column hl]
  refine (stores m rfl fun _ _ no => no.elim).mono fun m' ⟨change, left⟩ => ⟨change.mono ?_, ?_⟩
  · rintro k x ⟨rfl, g, hg, lane, hl, rfl⟩
    exact ⟨rfl, _, Layout.index_lt hg hl, Nat.add_assoc _ _ _⟩
  · intro x hx
    obtain ⟨g, hg, lane, hl, rfl⟩ := Layout.lt_iff (m := 4) (n := 16).mp hx
    obtain ⟨row, column⟩ := miv_place (g := g) hl
    refine ⟨by rw [change.size]; exact (held _ hx).1, ?_⟩
    rw [← Nat.add_assoc, left _ _ ⟨rfl, g, hg, lane, hl, rfl⟩, Function.update_self, Nat.add_assoc,
      Nat.add_sub_cancel_left, Layout.row hl, Layout.column hl, sums g hg lane hl]
    dsimp only
    rw [row, column]

def UnpackedCells (c ldc : ℕ) : Region M4Buffer := fun k y =>
  k = .floats .output ∧ ∃ x < 64, y = c + mivRow x * ldc + mivColumn x

theorem cUnpack_ends [Inhabited F] {c ldc : ℕ} {w : Contents M4Buffer (M4Cell H F)} (held : HoldsMiv f base v m)
    (room : ∀ x < 64, c + mivRow x * ldc + mivColumn x < m.size (.floats .output))
    (value : ∀ x < 64, w (.floats .output) (c + mivRow x * ldc + mivColumn x) = some (v x)) :
    Ends (cUnpack f base c ldc m) fun m' =>
      Within (UnpackedCells c ldc) m m' ∧ Holds w (UnpackedCells c ldc) m' := by
  refine (fetchLanes_ends (fun x hx => (held x hx).1) fun x hx => (held x hx).2).bind
    fun tile same => ?_
  have place : ∀ chunk < 8, ∀ half < 2, ∀ lane < 4, chunk * 8 + (half * 4 + lane) < 64 ∧
      mivRow (chunk * 8 + (half * 4 + lane)) = chunk % 2 * 2 + half ∧
      mivColumn (chunk * 8 + (half * 4 + lane)) = chunk / 2 * 4 + lane := by
    intro chunk hc half hh lane hl
    unfold mivRow mivColumn
    omega
  have half : ∀ chunk < 8, ∀ half < 2, Writes m.size (fun memory : M4Memory H F =>
      memory.storeLanes (.floats .output) (c + (chunk % 2 * 2 + half) * ldc + chunk / 2 * 4) 4
        fun lane => some (tile (chunk * 8 + (half * 4 + lane)))) w fun k y =>
      k = .floats .output ∧ ∃ lane < 4, y = c + (chunk % 2 * 2 + half) * ldc + chunk / 2 * 4 + lane := by
    intro chunk hc half hh
    refine Writes.storeLanes ?_ ?_
    · intro lane hl
      obtain ⟨inside, row, column⟩ := place chunk hc half hh lane hl
      have bound := room _ inside
      rwa [row, column, ← Nat.add_assoc] at bound
    · intro lane hl
      obtain ⟨inside, row, column⟩ := place chunk hc half hh lane hl
      have element := value _ inside
      rw [row, column, ← Nat.add_assoc] at element
      rw [same _ inside, element]
  have first : ∀ chunk < 8, Writes m.size (fun memory : M4Memory H F =>
      memory.storeLanes (.floats .output) (c + chunk % 2 * 2 * ldc + chunk / 2 * 4) 4
        fun lane => some (tile (chunk * 8 + lane))) w fun k y =>
      k = .floats .output ∧ ∃ lane < 4, y = c + chunk % 2 * 2 * ldc + chunk / 2 * 4 + lane := by
    intro chunk hc
    have store := half chunk hc 0 (by decide)
    simp only [Nat.zero_mul, Nat.zero_add, Nat.add_zero] at store
    exact store
  have second : ∀ chunk < 8, Writes m.size (fun memory : M4Memory H F =>
      memory.storeLanes (.floats .output) (c + (chunk % 2 * 2 + 1) * ldc + chunk / 2 * 4) 4
        fun lane => some (tile (chunk * 8 + (4 + lane)))) w fun k y =>
      k = .floats .output ∧ ∃ lane < 4, y = c + (chunk % 2 * 2 + 1) * ldc + chunk / 2 * 4 + lane := by
    intro chunk hc
    have store := half chunk hc 1 (by decide)
    simp only [Nat.one_mul] at store
    exact store
  have stores := Writes.loop fun chunk hc => (first chunk hc).seq (second chunk hc)
  refine (stores.weaken (T := UnpackedCells c ldc) (fun _ _ no => no) ?_) m rfl fun _ _ no => no.elim
  intro k y
  constructor
  · rintro ⟨rfl, x, hx, rfl⟩
    have chunk : x / 8 < 8 := by omega
    have lane : x % 4 < 4 := Nat.mod_lt x (by decide)
    rcases Nat.lt_or_ge (x % 8) 4 with low | high
    · have split : x / 8 * 8 + (0 * 4 + x % 4) = x := by omega
      obtain ⟨_, row, column⟩ := place (x / 8) chunk 0 (by decide) (x % 4) lane
      rw [split] at row column
      refine ⟨x / 8, chunk, .inl ⟨rfl, x % 4, lane, ?_⟩⟩
      rw [row, column, Nat.add_zero, ← Nat.add_assoc]
    · have split : x / 8 * 8 + (1 * 4 + x % 4) = x := by omega
      obtain ⟨_, row, column⟩ := place (x / 8) chunk 1 (by decide) (x % 4) lane
      rw [split] at row column
      refine ⟨x / 8, chunk, .inr ⟨rfl, x % 4, lane, ?_⟩⟩
      rw [row, column, ← Nat.add_assoc]
  · rintro ⟨chunk, hc, ⟨rfl, lane, hl, rfl⟩ | ⟨rfl, lane, hl, rfl⟩⟩
    · obtain ⟨inside, row, column⟩ := place chunk hc 0 (by decide) lane hl
      refine ⟨rfl, _, inside, ?_⟩
      rw [row, column, Nat.add_zero, Nat.add_assoc]
    · obtain ⟨inside, row, column⟩ := place chunk hc 1 (by decide) lane hl
      refine ⟨rfl, _, inside, ?_⟩
      rw [row, column, Nat.add_assoc]

end Tile

end Pfng.Q40.ImmediateReduction
