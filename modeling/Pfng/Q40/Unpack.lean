import Pfng.Q40.M8bProduct

/-! `unpack_q4_0_ime_m8b_rvv` and the copy of it in the cache-blocking kernel. Every byte of the
unpacked buffer counts its stores. -/
namespace Pfng.Q40.BatchReduction
open Checked Ime

variable {F H : Type}

/-- `vse8` to the unpacked buffer. -/
def storeUnpacked (base : ℕ) (v : ℕ → BitVec 8) (memory : BatchMemory F H) :
    Option (BatchMemory F H) :=
  memory.storeLanes .unpacked base 128 fun lane =>
    ⟨some (v lane), (memory.cell .unpacked (base + lane)).writes + 1⟩

/-- `unpack_q4_0_ime_m8b_rvv`: the low nibbles of 128 packed bytes, then the high ones. -/
def unpackQ40 (packed_b_qs unpacked_b_qs block_count : ℕ) :
    BatchMemory F H → Option (BatchMemory F H) :=
  forUp (fun block => forUp (fun inner memory =>
    let packed_inner := packed_b_qs + block * 256 + inner * 128
    let unpacked_inner := unpacked_b_qs + block * 512 + inner * 256
    (memory.fetchLanes (.bytes .packedB) id packed_inner 128).bind fun packed =>
    (storeUnpacked unpacked_inner (lowWeights packed) memory).bind
    (storeUnpacked (unpacked_inner + 128) (highWeights packed))) 0 2) 0 block_count

/-- `new int8_t[n * k]`: nothing is written yet. -/
def newUnpacked (memory : BatchMemory F H) : BatchMemory F H := memory.renew .unpacked fun _ => ⟨none, 0⟩

section Effects

variable {ops : FloatOps F H} {request : Bench.BenchmarkRequest} {operands : Operands F H}
variable {slot : ℕ → ℕ × ℕ} {c : ℕ → Option F} {slots : ℕ}

def beforeUnpack (v : Contents Buffer (Cell F H)) : Contents Buffer (Cell F H) :=
  Function.update v .unpacked fun _ => ⟨none, 0⟩

/-- `n` bytes of the unpacked buffer. -/
def UnpackedFrom (base n : ℕ) : Region Buffer := fun k x => k = .unpacked ∧ ∃ o < n, x = base + o

theorem storeUnpacked_effect (size : Buffer → ℕ) (v : Contents Buffer (Cell F H)) {base : ℕ}
    {x : ℕ → BitVec 8} (bound : base + 128 ≤ size .unpacked)
    (value : ∀ lane < 128, v .unpacked (base + lane) = ⟨some (x lane), 1⟩) :
    Effect size (beforeUnpack v) (UnpackedFrom base 128) (storeUnpacked base x) v
      (UnpackedFrom base 128) (UnpackedFrom base 128) := by
  intro m sizes holds
  refine (Fills.storeLanes (u := v) (A := fun _ _ => False) (v := v) (fun lane hl => ?_)
    (fun lane hl => ?_) : Fills size v _ _ v _) m sizes fun _ _ no => no.elim
  · exact (Nat.add_lt_add_left hl base).trans_le bound
  · have cell := holds .unpacked (base + lane) ⟨rfl, lane, hl, rfl⟩
    rw [beforeUnpack, Function.update_self] at cell
    rw [cell, value lane hl]

theorem unpackedFrom_apart {base base' n n' : ℕ} (apart : base + n ≤ base') {k : Buffer} {x : ℕ}
    (cell : UnpackedFrom base' n' k x) : ¬ UnpackedFrom base n k x := by
  rintro ⟨_, o, ho, same⟩
  obtain ⟨_, o', _, rfl⟩ := cell
  omega

theorem half_room {block inner total : ℕ} (hb : block < total) (hi : inner < 2) :
    block * 512 + inner * 256 + 128 + 128 ≤ total * 512 ∧
      ∀ lane < 128, block * 256 + inner * 128 + lane < total * 256 := by
  constructor
  · omega
  · intro lane hl
    omega

theorem half_before {i j inner inner' : ℕ} (hi : inner < 2)
    (later : i < j ∨ i = j ∧ inner < inner') :
    i * 512 + inner * 256 + 256 ≤ j * 512 + inner' * 256 := by
  omega

theorem half_place (first : ℕ) {count block inner o : ℕ} (hb : block < count) (hi : inner < 2)
    (ho : o < 256) :
    block * 512 + inner * 256 + o < count * 512 ∧ (first + block) * 512 + inner * 256 + o =
      first * 512 + (block * 512 + inner * 256 + o) := by
  omega

def PackedBytes (request : Bench.BenchmarkRequest) : Region Buffer := fun k x =>
  k = .bytes .packedB ∧ x < request.n / 16 * (request.k / 32) * 256

theorem unpackHalf_effect {block inner : ℕ} (hb : block < request.n / 16 * (request.k / 32))
    (hi : inner < 2) (room : request.n / 16 * (request.k / 32) * 512 ≤ request.n * request.k) :
    Effect (bufferSize request .ime1 slots)
      (beforeUnpack (contents ops request operands .ime1 slot c))
      (fun k x => PackedBytes request k x ∨ UnpackedFrom (block * 512 + inner * 256) 256 k x)
      (fun memory => (memory.fetchLanes (.bytes .packedB) id (block * 256 + inner * 128) 128).bind
        fun packed => (storeUnpacked (block * 512 + inner * 256) (lowWeights packed) memory).bind
          (storeUnpacked (block * 512 + inner * 256 + 128) (highWeights packed)))
      (contents ops request operands .ime1 slot c)
      (UnpackedFrom (block * 512 + inner * 256) 256) (UnpackedFrom (block * 512 + inner * 256) 256) := by
  let rows := fun lane => operands.column request
    (block / (request.k / 32) * 16 + lane / 32 * 4 + lane % 32 / 8) (block % (request.k / 32))
  have value : ∀ half < 2, ∀ lane < 128,
      contents ops request operands .ime1 slot c .unpacked
        (block * 512 + (inner * 256 + half * 128 + lane)) =
        ⟨some (weightByte (rows lane) (inner * 16 + (half * 8 + lane % 8))), 1⟩ := by
    intro half hh lane hl
    have inside : inner * 256 + half * 128 + lane < 512 := by omega
    have column : weightColumn .ime1 (inner * 256 + half * 128 + lane) = lane / 32 * 4 + lane % 32 / 8 := by
      simp only [weightColumn, kBytesPerMIV, MatrixUnit.width, MatrixUnit.depth]
      omega
    have depth : unpackedDepth .ime1 (inner * 256 + half * 128 + lane) =
        inner * 16 + (half * 8 + lane % 8) := by
      simp only [unpackedDepth, kBytesPerMIV, MatrixUnit.width, MatrixUnit.depth]
      omega
    change (⟨some _, 1⟩ : Counted _) = _
    rw [show kNr .ime1 * 32 = 512 from rfl, Layout.row inside, Layout.column inside, column, depth,
      ← Nat.add_assoc]
    rfl
  obtain ⟨inBuffer, packedRoom⟩ := half_room hb hi
  have highRoom := inBuffer.trans room
  have lowRoom := (Nat.le_add_right _ 128).trans highRoom
  refine Effect.fetchLanes (f := fun lane =>
    packedByte .ime1 (rows lane) (inner * 16 + lane % 8)) ?_ ?_ fun packed known => ?_
  · exact packedRoom
  · intro lane hl
    have inside : inner * 128 + lane < 256 := by omega
    have column : weightColumn .ime1 (inner * 128 + lane) = lane / 32 * 4 + lane % 32 / 8 := by
      simp only [weightColumn, kBytesPerMIV, MatrixUnit.width, MatrixUnit.depth]
      omega
    have depth : weightDepth .ime1 (inner * 128 + lane) = inner * 16 + lane % 8 := by
      simp only [weightDepth, kBytesPerMIV, MatrixUnit.width, MatrixUnit.depth]
      omega
    refine ⟨.inl ⟨rfl, packedRoom lane hl⟩, ?_⟩
    · rw [Nat.add_assoc]
      change some _ = _
      rw [show kNr .ime1 * 16 = 256 from rfl, Layout.row inside, Layout.column inside, column, depth,
        ← Nat.add_assoc]
      rfl
  · have low := storeUnpacked_effect (bufferSize request .ime1 slots)
      (contents ops request operands .ime1 slot c) (x := lowWeights packed) lowRoom fun lane hl => by
          have byte := value 0 (by decide) lane hl
          simp only [Nat.zero_mul, Nat.add_zero, Nat.zero_add] at byte
          rw [← Nat.add_assoc] at byte
          rw [byte, lowWeights, known lane hl, packedByte_low, weightByte]
    have high := storeUnpacked_effect (bufferSize request .ime1 slots)
      (contents ops request operands .ime1 slot c) (x := highWeights packed) highRoom fun lane hl => by
          have byte := value 1 (by decide) lane hl
          rw [Nat.one_mul, Nat.one_mul, ← Nat.add_assoc, ← Nat.add_assoc] at byte
          rw [byte, highWeights, known lane hl, packedByte_high, weightByte,
            show MatrixUnit.depth .ime1 = 8 from rfl, Nat.add_left_comm]
    refine (low.seqOwn high (fun k x cell => unpackedFrom_apart (Nat.le_refl _) cell)
      fun k x cell cell' => unpackedFrom_apart (Nat.le_refl _) cell' cell).weaken ?_ ?_ ?_
    · rintro k x (⟨rfl, o, ho, rfl⟩ | ⟨rfl, o, ho, rfl⟩)
      · exact ⟨.inr ⟨rfl, o, by omega, rfl⟩, rfl⟩
      · exact ⟨.inr ⟨rfl, 128 + o, by omega, Nat.add_assoc _ _ _⟩, rfl⟩
    · rintro k x ⟨rfl, o, ho, rfl⟩
      rcases Nat.lt_or_ge o 128 with first | second
      · exact .inl ⟨.inl ⟨rfl, o, first, rfl⟩, rfl⟩
      · exact .inl ⟨.inr ⟨rfl, o - 128, by omega, by omega⟩, rfl⟩
    · rintro k x (⟨rfl, o, ho, rfl⟩ | ⟨rfl, o, ho, rfl⟩)
      · exact ⟨rfl, o, by omega, rfl⟩
      · exact ⟨rfl, 128 + o, by omega, Nat.add_assoc _ _ _⟩

variable (ops operands slot c slots) in
/-- A range of blocks: each of its bytes is stored once. -/
theorem unpackQ40_effect (first : ℕ) {count : ℕ} (inside : first + count ≤ request.n / 16 * (request.k / 32))
    (room : request.n / 16 * (request.k / 32) * 512 ≤ request.n * request.k) :
    Effect (bufferSize request .ime1 slots)
      (beforeUnpack (contents ops request operands .ime1 slot c))
      (fun k x => PackedBytes request k x ∨ UnpackedFrom (first * 512) (count * 512) k x)
      (unpackQ40 (first * 256) (first * 512) count) (contents ops request operands .ime1 slot c)
      (UnpackedFrom (first * 512) (count * 512)) (UnpackedFrom (first * 512) (count * 512)) := by
  have halves : ∀ block < count, ∀ inner < 2, Effect (bufferSize request .ime1 slots)
      (beforeUnpack (contents ops request operands .ime1 slot c))
      (fun k x => PackedBytes request k x ∨
        UnpackedFrom ((first + block) * 512 + inner * 256) 256 k x)
      (fun memory => (memory.fetchLanes (.bytes .packedB) id
        (first * 256 + block * 256 + inner * 128) 128).bind fun packed =>
          (storeUnpacked (first * 512 + block * 512 + inner * 256) (lowWeights packed) memory).bind
          (storeUnpacked (first * 512 + block * 512 + inner * 256 + 128) (highWeights packed)))
      (contents ops request operands .ime1 slot c)
      (UnpackedFrom ((first + block) * 512 + inner * 256) 256)
      (UnpackedFrom ((first + block) * 512 + inner * 256) 256) := by
    intro block hb inner hi
    rw [← Nat.add_mul, ← Nat.add_mul]
    exact unpackHalf_effect (by omega) hi room
  have apart : ∀ base base', base + 256 ≤ base' →
      (∀ k x, (PackedBytes request k x ∨ UnpackedFrom base' 256 k x) → ¬ UnpackedFrom base 256 k x) ∧
        ∀ k x, UnpackedFrom base 256 k x → ¬ UnpackedFrom base' 256 k x := by
    intro base base' later
    constructor
    · rintro k x (⟨rfl, _⟩ | cell)
      · rintro ⟨no, _⟩
        cases no
      · exact unpackedFrom_apart later cell
    · exact fun k x cell cell' => unpackedFrom_apart later cell' cell
  have whole := Effect.loopOwn (fun block hb => Effect.loopOwn (halves block hb)
    fun i j lt hj => apart _ _ (half_before (lt.trans hj) (.inr ⟨rfl, lt⟩))) fun i j lt hj => by
      constructor
      · rintro k x ⟨inner, hi, cell⟩ ⟨inner', hi', cell'⟩
        exact (apart _ _ (half_before hi' (.inl (Nat.add_lt_add_left lt first)))).1 k x cell cell'
      · rintro k x ⟨inner, hi, cell⟩ ⟨inner', hi', cell'⟩
        exact (apart _ _ (half_before hi (.inl (Nat.add_lt_add_left lt first)))).2 k x cell cell'
  have split : ∀ o < count * 512, o / 512 < count ∧ o % 512 / 256 < 2 ∧
      first * 512 + o = (first + o / 512) * 512 + o % 512 / 256 * 256 + o % 256 := by
    intro o ho
    clear inside room
    omega
  refine whole.weaken ?_ ?_ ?_
  · rintro k x ⟨block, hb, inner, hi, packed | ⟨rfl, o, ho, rfl⟩⟩
    · exact ⟨.inl packed, rfl⟩
    · obtain ⟨bound, same⟩ := half_place first hb hi ho
      exact ⟨.inr ⟨rfl, _, bound, same⟩, rfl⟩
  · rintro k x ⟨rfl, o, ho, rfl⟩
    obtain ⟨hb, hi, same⟩ := split o ho
    exact .inl ⟨⟨_, hb, _, hi, rfl, _, Nat.mod_lt _ (by decide), same⟩, rfl⟩
  · rintro k x ⟨block, hb, inner, hi, rfl, o, ho, rfl⟩
    obtain ⟨bound, same⟩ := half_place first hb hi ho
    exact ⟨rfl, _, bound, same⟩

theorem newUnpacked_effect {live : ℕ → Prop} {c' : BatchMemory F H → Option (BatchMemory F H)}
    (unpacks : Effect (bufferSize request .ime1 slots)
      (beforeUnpack (contents ops request operands .ime1 slot c))
      (fun k x => PackedBytes request k x ∨ k = .unpacked) c'
      (contents ops request operands .ime1 slot c) (UnpackedCells request .ime1)
      fun k _ => k = .unpacked) :
    Effect (bufferSize request .ime1 slots) (contents ops request operands .ime1 slot c)
      (operandCells request .ime1 live) (fun memory => c' (newUnpacked memory))
      (contents ops request operands .ime1 slot c)
      (fun k x => operandCells request .ime1 live k x ∨ UnpackedCells request .ime1 k x)
      fun k _ => k = .unpacked := by
  have other : ∀ {k : Buffer} {x : ℕ}, operandCells request .ime1 live k x → k ≠ .unpacked := by
    rintro k x cell rfl
    exact cell
  have same : ∀ {k : Buffer} (x : ℕ), k ≠ .unpacked →
      contents ops request operands .ime1 slot c k x =
        beforeUnpack (contents ops request operands .ime1 slot c) k x := by
    intro k x apart
    rw [beforeUnpack, Function.update_of_ne apart]
  have fresh : Effect (bufferSize request .ime1 slots)
      (beforeUnpack (contents ops request operands .ime1 slot c)) (operandCells request .ime1 live)
      (fun memory => some (newUnpacked memory)) _ _ _ :=
    Effect.renewed (fun x => by rw [beforeUnpack, Function.update_self]) fun x cell => cell
  refine (fresh.seq (unpacks.weaken (B := fun k x => operandCells request .ime1 live k x ∨ k = .unpacked)
    (w := contents ops request operands .ime1 slot c)
    (T := fun k x => operandCells request .ime1 live k x ∨ UnpackedCells request .ime1 k x) ?_ ?_
    fun _ _ cell => cell)).weaken ?_ (fun _ _ cell => .inl ⟨cell, rfl⟩) fun _ _ cell => cell.elim id id
  · rintro k x (⟨rfl, inside⟩ | unpacked)
    · exact ⟨.inl inside, rfl⟩
    · exact ⟨.inr unpacked, rfl⟩
  · rintro k x (cell | unpacked)
    · exact .inr ⟨other cell, .inl cell, (same x (other cell)).symm⟩
    · exact .inl ⟨unpacked, rfl⟩
  · intro k x cell
    exact ⟨cell, same x (other cell)⟩

end Effects

theorem unpacked_room {request : Bench.BenchmarkRequest}
    (wholeN : request.n / 16 * 16 = request.n) (wholeK : request.k / 32 * 32 = request.k) :
    request.n / 16 * (request.k / 32) * 512 = request.n * request.k := by
  calc request.n / 16 * (request.k / 32) * 512
      = request.n / 16 * 16 * (request.k / 32 * 32) := by ring
    _ = request.n * request.k := by rw [wholeN, wholeK]

end Pfng.Q40.BatchReduction
