import Pfng.Q40.M4Kernel

/-! What the two `prepare`s of the immediate reduction leave: `initialize_q4_0_ime<4>` stages whole
rows of activation blocks, and the copies put each of them into a slot of its panel. -/
namespace Pfng.Q40.ImmediateReduction
open Checked Ime BatchReduction Words

variable {F H : Type} [OfWord F]

section Contents

variable (ops : FloatOps F H) (request : Bench.BenchmarkRequest) (operands : Operands Word H)

def blockOwner (a : Blocks) (s : ℕ) : ℕ × ℕ :=
  match a with
  | .staged => plainSlot request s
  | .panels => (CacheBlocking.layout request).owner s

def LiveBlock (a : Blocks) (s : ℕ) : Prop :=
  match a with
  | .staged => s < request.m / 4 * (request.k / 32)
  | .panels => (CacheBlocking.layout request).Live s

def m4Byte (a : Blocks) (x : ℕ) : BitVec 8 :=
  activationByte (fun row => operands.activation ((blockOwner request a (x / 144)).1 * 4 + row)
    (blockOwner request a (x / 144)).2) (x % 144)

/-- The buffers, cell by cell; `c` is what `packed_c` holds. -/
def m4Contents (c : ℕ → Option F) : Contents M4Buffer (M4Cell H F)
  | .activation a, x => some (m4Byte request operands a x)
  | .weights, x => some (packedByte .ime1 (operands.column request
      (x / 256 / (request.k / 32) * 16 + weightColumn .ime1 (x % 256)) (x / 256 % (request.k / 32)))
      (weightDepth .ime1 (x % 256)))
  | .scales, x => some (operands.column request (x / 16 / (request.k / 32) * 16 + x % 16)
      (x / 16 % (request.k / 32))).d
  | .floats .tile, _ => some ops.zero
  | .floats .packedC, x => c x
  | .floats .output, x =>
      some ((decoded operands).partialSum ops request (x / request.n) (x % request.n) (request.k / 32))

/-- The packed operands. -/
def M4Operands (a : Blocks) : Region M4Buffer
  | .activation a', x => a' = a ∧ LiveBlock request a (x / 144)
  | .weights, x => x < request.n / 16 * (request.k / 32) * 256
  | .scales, x => x < request.n / 16 * (request.k / 32) * 16
  | .floats _, _ => False

end Contents

variable {ops : FloatOps F H} {request : Bench.BenchmarkRequest} {operands : Operands Word H}
variable {fourRowScale : ℕ → ℕ → Word} {c : ℕ → Option F}

theorem live_lt {a : Blocks} {s : ℕ} (live : LiveBlock request a s) {o : ℕ} (ho : o < 144) :
    s * 144 + o < m4Size request (.activation a) := by
  cases a with
  | staged => exact Layout.index_lt live ho
  | panels =>
      obtain ⟨p, hp, tile_m, ht, local_block, hl, rfl⟩ := live
      have slot := PanelLayout.slot_lt hp ht hl
      rw [← Nat.mul_comm (request.m / 4), ← Nat.mul_assoc] at slot
      exact Layout.index_lt slot ho

theorem live_cell {a : Blocks} {x : ℕ} (live : LiveBlock request a (x / 144)) :
    x < m4Size request (.activation a) := by
  have inside := live_lt live (Nat.mod_lt x (by decide))
  rwa [Nat.div_add_mod'] at inside

section Initialize

def BlockBytes (s : ℕ) : Region M4Buffer := fun k x =>
  k = .activation .staged ∧ ∃ o < 144, x = s * 144 + o

def QuantBytes (s : ℕ) : Region M4Buffer := fun k x =>
  k = .activation .staged ∧ ∃ i < 128, x = s * 144 + 16 + i

def ScaleBytes (s : ℕ) : Region M4Buffer := fun k x =>
  k = .activation .staged ∧ ∃ o < 16, x = s * 144 + o

theorem staged_cell {tile block o : ℕ} (hb : block < request.k / 32) (ho : o < 144) :
    m4Contents ops request operands c (.activation .staged)
        ((tile * (request.k / 32) + block) * 144 + o) =
      some (activationByte (fun row => operands.activation (tile * 4 + row) block) o) := by
  change some _ = _
  rw [m4Byte, Layout.row ho, Layout.column ho, blockOwner, plainSlot, Layout.row hb,
    Layout.column hb]

variable (ops operands fourRowScale c) in
theorem quantizeFourRows_effect {tile block : ℕ} (ht : tile < request.m / 4)
    (hb : block < request.k / 32) :
    Effect (m4Size request) (m4Contents ops request operands c) (fun _ _ => False)
      (quantizeFourRows request operands fourRowScale tile block)
      (m4Contents ops request operands c) (QuantBytes (tile * (request.k / 32) + block))
      (BlockBytes (tile * (request.k / 32) + block)) := by
  have room : ∀ o < 144, (tile * (request.k / 32) + block) * 144 + o <
      m4Size request (.activation .staged) := fun o ho => Layout.index_lt (Layout.index_lt ht hb) ho
  have own : Effect (m4Size request) (m4Contents ops request operands c) (fun _ _ => False)
      (fun memory => memory.storeLanes (.activation .staged)
        ((tile * (request.k / 32) + block) * 144) 16
        fun i => some (byteOf (fourRowScale (tile * 4 + i / 4) block) (i % 4))) _ _ _ :=
    Effect.clobber (fun lane hl => room lane (by omega)) fun _ _ no => no
  have quants : Writes (m4Size request) (fun memory : M4Memory H F => memory.storeLanes
      (.activation .staged) ((tile * (request.k / 32) + block) * 144 + 16) 128 fun i =>
        some ((operands.activation (tile * 4 + i % 32 / 8) block).qs (i / 32 * 8 + i % 8)))
      (m4Contents ops request operands c) (QuantBytes (tile * (request.k / 32) + block)) := by
    refine Writes.storeLanes (fun i hi => ?_) fun i hi => ?_
    · rw [Nat.add_assoc]
      exact room (16 + i) (by omega)
    · have isQuant : ¬ 16 + i < 16 := by omega
      rw [Nat.add_assoc, staged_cell hb (by omega), activationByte, if_neg isQuant,
        Nat.add_sub_cancel_left]
  refine (own.seq quants).weaken (fun _ _ no => no.elim) (fun _ _ cell => .inl ⟨cell, rfl⟩) ?_
  rintro k x (⟨rfl, o, ho, rfl⟩ | ⟨rfl, i, hi, rfl⟩)
  · exact ⟨rfl, o, by omega, rfl⟩
  · exact ⟨rfl, 16 + i, by omega, Nat.add_assoc _ _ _⟩

theorem replaceScales_writes {tile block : ℕ} (ht : tile < request.m / 4)
    (hb : block < request.k / 32) :
    Writes (m4Size request) (replaceScales request operands tile block)
      (m4Contents ops request operands c) (ScaleBytes (tile * (request.k / 32) + block)) := by
  have stores : Writes (m4Size request) (replaceScales request operands tile block)
      (m4Contents ops request operands c) _ :=
    Writes.loop fun row hr => Writes.storeLanes (fun i hi => by
      rw [Nat.add_assoc]
      exact Layout.index_lt (Layout.index_lt ht hb) (by omega)) fun i hi => by
        have scale : row * 4 + i < 16 := by omega
        rw [Nat.add_assoc, staged_cell hb (by omega), activationByte, if_pos scale, Layout.row hi,
          Layout.column hi]
  refine stores.weaken (fun _ _ no => no) fun k x => ?_
  constructor
  · rintro ⟨rfl, o, ho, rfl⟩
    exact ⟨o / 4, by omega, rfl, o % 4, by omega, by omega⟩
  · rintro ⟨row, hr, rfl, i, hi, rfl⟩
    exact ⟨rfl, row * 4 + i, by omega, Nat.add_assoc _ _ _⟩

theorem stageTile_writes {tile : ℕ} (ht : tile < request.m / 4) :
    Writes (m4Size request) (fun memory : M4Memory H F =>
      (forUp (fun block => quantizeFourRows request operands fourRowScale tile block) 0
        (request.k / 32) memory).bind
      (forUp (fun block => replaceScales request operands tile block) 0 (request.k / 32)))
      (m4Contents ops request operands c)
      (fun k x => ∃ block < request.k / 32, BlockBytes (tile * (request.k / 32) + block) k x) := by
  have apart : ∀ i j, i < j → j < request.k / 32 → ∀ k x,
      QuantBytes (tile * (request.k / 32) + i) k x →
        ¬ BlockBytes (tile * (request.k / 32) + j) k x := by
    rintro i j lt _ k x ⟨rfl, o, ho, rfl⟩ ⟨_, o', ho', same⟩
    rw [Nat.add_assoc] at same
    have equal := (Layout.unique (by omega : 16 + o < 144) ho' same).1
    omega
  have quants := Effect.loop (fun block hb => quantizeFourRows_effect ops operands
    fourRowScale c ht hb) (fun _ _ _ _ no => no.elim) apart
  have scales : Writes (m4Size request) (forUp (fun block => replaceScales request operands tile block)
      0 (request.k / 32)) (m4Contents ops request operands c) _ :=
    Writes.loop fun block hb => replaceScales_writes ht hb
  refine (quants.seqOwn scales (fun _ _ no => no.elim) ?_).weaken ?_ ?_ ?_
  · rintro k x ⟨block, _, rfl, o, ho, rfl⟩ ⟨block', _, _, o', ho', same⟩
    rw [Nat.add_assoc] at same
    have equal := (Layout.unique (by omega : 16 + o < 144) (by omega : o' < 144) same).2
    omega
  · rintro k x (no | no)
    · exact no.elim
    · exact no.elim
  · rintro k x ⟨block, hb, rfl, o, ho, rfl⟩
    refine .inl ⟨?_, rfl⟩
    rcases Nat.lt_or_ge o 16 with scale | quant
    · exact .inr ⟨block, hb, rfl, o, scale, rfl⟩
    · exact .inl ⟨block, hb, rfl, o - 16, by omega, by omega⟩
  · rintro k x (cell | ⟨block, hb, rfl, o, ho, rfl⟩)
    · exact cell
    · exact ⟨block, hb, rfl, o, by omega, rfl⟩

def M4Weights (request : Bench.BenchmarkRequest) : Region M4Buffer
  | .weights, x => x < request.n / 16 * (request.k / 32) * 256
  | .scales, x => x < request.n / 16 * (request.k / 32) * 16
  | _, _ => False

theorem packBlocks_writes :
    Writes (m4Size request) (packBlocks request operands) (m4Contents ops request operands c)
      (M4Weights request) := by
  have stores : Writes (m4Size request) (packBlocks request operands)
      (m4Contents ops request operands c) _ :=
    Writes.loop fun tile ht => Writes.loop fun block hb => Writes.seq
      (Writes.storeLanes (fun row hr => Layout.index_lt (Layout.index_lt ht hb) hr) fun row hr => by
        change _ = some _
        rw [Layout.row hr, Layout.column hr, Layout.row hb, Layout.column hb]
        rfl)
      (Writes.storeLanes (fun o ho => Layout.index_lt (Layout.index_lt ht hb) ho) fun o ho => by
        rw [packQ4N16_eq _ ho]
        change _ = some _
        rw [Layout.row ho, Layout.column ho, Layout.row hb, Layout.column hb]
        rfl)
  refine stores.weaken (fun _ _ no => no) fun k x => ?_
  constructor
  · intro cell
    unfold M4Weights at cell
    split at cell
    · obtain ⟨s, hs, o, ho, rfl⟩ := Layout.lt_iff.mp cell
      obtain ⟨tile, ht, block, hb, rfl⟩ := Layout.lt_iff.mp hs
      exact ⟨tile, ht, block, hb, .inr ⟨rfl, o, ho, rfl⟩⟩
    · obtain ⟨s, hs, row, hr, rfl⟩ := Layout.lt_iff.mp cell
      obtain ⟨tile, ht, block, hb, rfl⟩ := Layout.lt_iff.mp hs
      exact ⟨tile, ht, block, hb, .inl ⟨rfl, row, hr, rfl⟩⟩
    · exact cell.elim
  · rintro ⟨tile, ht, block, hb, ⟨rfl, row, hr, rfl⟩ | ⟨rfl, o, ho, rfl⟩⟩
    · exact Layout.index_lt (Layout.index_lt ht hb) hr
    · exact Layout.index_lt (Layout.index_lt ht hb) ho

theorem initialize_writes :
    Writes (m4Size request) (initializeQ40Ime4 request operands fourRowScale)
      (m4Contents ops request operands c) (M4Operands request .staged) := by
  have staged : Writes (m4Size request) (forUp (fun tile memory =>
      (forUp (fun block => quantizeFourRows request operands fourRowScale tile block) 0
        (request.k / 32) memory).bind
      (forUp (fun block => replaceScales request operands tile block) 0 (request.k / 32)))
      0 (request.m / 4)) (m4Contents ops request operands c) _ :=
    Writes.loop fun tile ht => stageTile_writes ht
  refine (Writes.seq staged packBlocks_writes).weaken (fun _ _ no => no) fun k x => ?_
  constructor
  · intro cell
    unfold M4Operands at cell
    split at cell
    · obtain ⟨rfl, live⟩ := cell
      obtain ⟨tile, ht, block, hb, same⟩ := Layout.lt_iff.mp live
      refine .inl ⟨tile, ht, block, hb, rfl, x % 144, Nat.mod_lt x (by decide), ?_⟩
      rw [← same, Nat.div_add_mod']
    · exact .inr cell
    · exact .inr cell
    · exact cell.elim
  · rintro (⟨tile, ht, block, hb, rfl, o, ho, rfl⟩ | cell)
    · refine ⟨rfl, ?_⟩
      rw [Layout.row ho]
      exact Layout.index_lt ht hb
    · unfold M4Weights at cell
      split at cell
      · exact cell
      · exact cell
      · exact cell.elim

end Initialize

section Panels

variable (request) in
def PanelBytes (p tile_m : ℕ) : Region M4Buffer := fun k x => k = .activation .panels ∧
  ∃ lane < (CacheBlocking.layout request).localBlocks p * 144,
    x = (CacheBlocking.layout request).slot p tile_m 0 * 144 + lane

variable (ops operands c) in
/-- A copied byte stays that of its tile and K block. -/
theorem copyPanel_fills {p tile_m : ℕ} (hp : p < (CacheBlocking.layout request).panels)
    (ht : tile_m < request.m / 4) :
    Fills (m4Size request) (m4Contents ops request operands c) (M4Operands request .staged)
      (fun memory => memory.copyLanes (.activation .staged) (.activation .panels) id some
        ((tile_m * (request.k / 32) + p * (CacheBlocking.layout request).kBlocksPerPanel) * 144)
        ((CacheBlocking.layout request).slot p tile_m 0 * 144)
        ((CacheBlocking.layout request).localBlocks p * 144))
      (m4Contents ops request operands c) (PanelBytes request p tile_m) := by
  have source : ∀ b o, (tile_m * (request.k / 32) +
      p * (CacheBlocking.layout request).kBlocksPerPanel) * 144 + (b * 144 + o) =
      (tile_m * (request.k / 32) + (p * (CacheBlocking.layout request).kBlocksPerPanel + b)) * 144 +
        o := by
    intro b o
    ring
  have target : ∀ b o, (CacheBlocking.layout request).slot p tile_m 0 * 144 + (b * 144 + o) =
      (CacheBlocking.layout request).slot p tile_m b * 144 + o := by
    intro b o
    rw [← Nat.add_assoc, ← Nat.add_mul]
    rfl
  have byte : ∀ lane < (CacheBlocking.layout request).localBlocks p * 144,
      m4Contents ops request operands c (.activation .panels)
        ((CacheBlocking.layout request).slot p tile_m 0 * 144 + lane) =
      m4Contents ops request operands c (.activation .staged) ((tile_m * (request.k / 32) +
        p * (CacheBlocking.layout request).kBlocksPerPanel) * 144 + lane) := by
    intro lane hl
    obtain ⟨b, hb, o, ho, rfl⟩ := Layout.lt_iff.mp hl
    rw [source, target, staged_cell (PanelLayout.block_lt hb) ho]
    change some _ = _
    rw [m4Byte, Layout.row ho, Layout.column ho, blockOwner, PanelLayout.owner_slot ht hb]
  have known : ∀ lane < (CacheBlocking.layout request).localBlocks p * 144,
      LiveBlock request .staged (((tile_m * (request.k / 32) +
        p * (CacheBlocking.layout request).kBlocksPerPanel) * 144 + lane) / 144) := by
    intro lane hl
    obtain ⟨b, hb, o, ho, rfl⟩ := Layout.lt_iff.mp hl
    rw [source, Layout.row ho]
    exact Layout.index_lt ht (PanelLayout.block_lt hb)
  refine Fills.copyLanes (fun lane => m4Byte request operands .staged ((tile_m * (request.k / 32) +
      p * (CacheBlocking.layout request).kBlocksPerPanel) * 144 + lane))
    (fun lane hl => live_cell (known lane hl)) ?_ (fun lane hl => ⟨⟨rfl, known lane hl⟩, rfl⟩) byte
  intro lane hl
  obtain ⟨b, hb, o, ho, rfl⟩ := Layout.lt_iff.mp hl
  rw [target]
  exact live_lt (a := .panels) ⟨p, hp, tile_m, ht, b, hb, rfl⟩ ho

variable (ops operands c) in
/-- The copies read only staged bytes, and fill every slot of a block. -/
theorem copyPanels_fills :
    Fills (m4Size request) (m4Contents ops request operands c) (M4Operands request .staged)
      (CacheBlocking.copyPanels request) (m4Contents ops request operands c)
      (fun k x => k = .activation .panels ∧ LiveBlock request .panels (x / 144)) := by
  have apart : ∀ p tile_m k x, M4Operands request .staged k x → ¬ PanelBytes request p tile_m k x := by
    rintro p tile_m k x cell ⟨rfl, _⟩
    cases cell.1
  have copies := Fills.loop (fun p hp => Fills.loop (fun tile_m ht =>
    copyPanel_fills ops operands c hp ht)
    fun tile_m _ k x cell => apart p tile_m k x cell) (by
      rintro p _ k x cell ⟨tile_m, _, copied⟩
      exact apart p tile_m k x cell copied)
  refine copies.weaken (fun _ _ cell => cell) fun k x => ?_
  constructor
  · rintro ⟨rfl, p, hp, tile_m, ht, b, hb, same⟩
    refine ⟨p, hp, tile_m, ht, rfl, b * 144 + x % 144,
      Layout.index_lt hb (Nat.mod_lt x (by decide)), ?_⟩
    rw [← Nat.add_assoc, ← Nat.add_mul]
    change _ = (CacheBlocking.layout request).slot p tile_m b * 144 + _
    rw [← same, Nat.div_add_mod']
  · rintro ⟨p, hp, tile_m, ht, rfl, lane, hl, rfl⟩
    obtain ⟨b, hb, o, ho, rfl⟩ := Layout.lt_iff.mp hl
    refine ⟨rfl, p, hp, tile_m, ht, b, hb, ?_⟩
    rw [← Nat.add_assoc, ← Nat.add_mul, Layout.row ho]
    rfl

end Panels

variable (ops request operands fourRowScale c) in
theorem prepare_effect :
    Effect (m4Size request) (m4Contents ops request operands c) (fun _ _ => False)
      (prepare request operands fourRowScale) (m4Contents ops request operands c)
      (M4Operands request .staged) fun _ _ => True :=
  Effect.weaken initialize_writes (fun _ _ no => no.elim) (fun _ _ cell => .inl ⟨cell, rfl⟩)
    fun _ _ _ => trivial

variable (ops request operands fourRowScale c) in
/-- With panels the staged blocks stay beside their copies. -/
theorem prepare_panels_effect :
    Effect (m4Size request) (m4Contents ops request operands c) (fun _ _ => False)
      (CacheBlocking.prepare request operands fourRowScale) (m4Contents ops request operands c)
      (fun k x => M4Operands request .staged k x ∨ M4Operands request .panels k x)
      fun _ _ => True := by
  have kept := Effect.keep (R := M4Operands request .staged) (copyPanels_fills ops operands c)
    (fun _ _ cell => cell) (by
      rintro k x cell ⟨rfl, _⟩
      cases cell.1)
  have staged : Effect (m4Size request) (m4Contents ops request operands c) (fun _ _ => False)
      (initializeQ40Ime4 request operands fourRowScale) _ _ _ := initialize_writes
  refine (staged.seq kept).weaken (fun _ _ no => no.elim) ?_ fun _ _ _ => trivial
  rintro k x (cell | cell)
  · exact .inl ⟨.inl cell, rfl⟩
  · refine .inl ⟨?_, rfl⟩
    unfold M4Operands at cell
    split at cell
    · obtain ⟨rfl, live⟩ := cell
      exact .inr ⟨rfl, live⟩
    · exact .inl cell
    · exact .inl cell
    · exact cell.elim

end Pfng.Q40.ImmediateReduction
