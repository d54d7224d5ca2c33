import Pfng.Tcm.Alignment
import Pfng.Tcm.ArenaSpec

/-! The arena invariant: the free blocks and the live allocations tile the arena. It is
what both arena operations preserve, and it bounds every array index they use. -/
namespace Pfng.Tcm
open Checked

structure Invariant (arena : Arena) (free : List Block) (records : List Allocation) : Prop where
  holds : Holds arena free records
  tiles : Extent.Tiles arena.bytes free (records.map Allocation.block)
  pointers : ∀ r ∈ records, r.pointer = arena.base + r.block.offset
  unmapped : arena.base = 0 → arena.bytes = 0
  in_range : arena.base + arena.bytes < 2^64

def Sound (arena : Arena) : Prop := Invariant arena arena.free arena.records

theorem Invariant.sound {arena : Arena} {free : List Block} {records : List Allocation}
    (h : Invariant arena free records) : Sound arena := by
  unfold Sound
  rwa [h.holds.free_eq, h.holds.records_eq]

theorem sound_unmapped : Sound Arena.unmapped := by
  have start : Invariant Arena.unmapped [] [] :=
    ⟨⟨Stored.nil, Stored.nil⟩, Extent.Tiles.empty, by simp, fun _ => rfl, Nat.two_pow_pos 64⟩
  exact start.sound

namespace Invariant

variable {arena : Arena} {free : List Block} {records : List Allocation}
variable {bytes alignment : ℕ}

theorem records_length_le (h : Invariant arena free records) : records.length ≤ kMaxAllocations := by
  rw [h.holds.records.length]
  exact h.holds.records.fits

theorem freeCount_lt (h : Invariant arena free records) : arena.freeCount < kMaxFreeBlocks := by
  have gaps := h.tiles.free_length_le
  have live := h.records_length_le
  rw [h.holds.free.length, List.length_map] at gaps
  simp only [kMaxFreeBlocks]
  omega

theorem stop_lt (h : Invariant arena free records) {e : Block} (he : e ∈ free) :
    arena.base + e.stop < 2^64 := by
  have := h.tiles.free_stop_le he
  have := h.in_range
  omega

theorem base_pos (h : Invariant arena free records) {e : Block} (he : e ∈ free) :
    0 < arena.base := by
  by_contra zero
  have none := h.unmapped (by omega)
  have inside := h.tiles.free_stop_le he
  have pos := h.tiles.separated.nonempty e he
  simp only [Extent.stop] at inside
  omega

theorem record_inside (h : Invariant arena free records) {r : Allocation} (hr : r ∈ records) :
    0 < arena.base ∧ arena.base ≤ r.pointer ∧ r.pointer < arena.base + arena.bytes := by
  have hb : r.block ∈ records.map Allocation.block := List.mem_map_of_mem hr
  have stop := h.tiles.live_stop_le hb
  have pos := h.tiles.live_nonempty r.block hb
  have start := h.pointers r hr
  have mapped := h.unmapped
  simp only [Extent.stop] at stop
  omega

theorem reset {newBase newBytes : ℕ} (mapped : 0 < newBase)
    (pos : 0 < newBytes) (range : newBase + newBytes < 2^64) :
    Ends (arena.reset newBase newBytes) fun next =>
      Invariant next [⟨0, newBytes⟩] [] ∧ next.base = newBase ∧ next.bytes = newBytes := by
  have first : Stored arena.freeBlocks 0 ([] ++ []) := Stored.nil
  rw [Arena.reset, if_neg (by omega)]
  refine (Stored.push (l := []) first (by decide)).map fun blocks stored => ⟨?_, rfl, rfl⟩
  refine ⟨⟨stored, Stored.nil⟩, Extent.Tiles.whole pos, by simp, fun zero => ?_, range⟩
  dsimp only at zero
  omega

/-- What a fresh record `⟨aligned, bytes⟩` cut out of the free block `e` does to the invariant. -/
theorem carve (h : Invariant arena free records) {p q : List Block} {e : Block} {aligned : ℕ}
    {next : Arena} (split : free = p ++ e :: q) (low : e.offset ≤ aligned)
    (high : aligned + bytes ≤ e.stop) (pos : 0 < bytes) (base : next.base = arena.base)
    (total : next.bytes = arena.bytes)
    (holds : Holds next (p ++ (e.carve aligned bytes ++ q))
      (records ++ [⟨arena.base + aligned, ⟨aligned, bytes⟩⟩])) :
    Invariant next (p ++ (e.carve aligned bytes ++ q))
      (records ++ [⟨arena.base + aligned, ⟨aligned, bytes⟩⟩]) := by
  subst split
  refine ⟨holds, ?_, fun r hr => ?_, ?_, ?_⟩
  · rw [total, List.map_append]
    exact h.tiles.carve low high pos
  · rw [base]
    rcases List.mem_append.mp hr with old | new
    · exact h.pointers r old
    · obtain rfl := List.mem_singleton.mp new
      rfl
  · rw [base, total]
    exact h.unmapped
  · rw [base, total]
    exact h.in_range

/-- Either no free block has room at an aligned address, or the first one that has gives its
lowest aligned address. -/
theorem allocateFrom_spec (h : Invariant arena free records) (pos : 0 < bytes)
    (pow : isPowerOfTwo alignment = true) (small : alignment < 2^64) :
    (allocateFrom arena bytes alignment = some (0, arena) ∧
      (records.length = kMaxAllocations ∨ ∀ f ∈ free, ∀ x, alignment ∣ x →
        arena.base + f.offset ≤ x → arena.base + f.stop < x + bytes)) ∨
    ∃ p e q aligned next, free = p ++ e :: q ∧ records.length ≠ kMaxAllocations ∧
      (∀ f ∈ p, ∀ x, alignment ∣ x → arena.base + f.offset ≤ x →
        arena.base + f.stop < x + bytes) ∧
      e.offset ≤ aligned ∧ aligned + bytes ≤ e.stop ∧ alignment ∣ arena.base + aligned ∧
      (∀ x, alignment ∣ x → arena.base + e.offset ≤ x → arena.base + aligned ≤ x) ∧
      allocateFrom arena bytes alignment = some (arena.base + aligned, next) ∧
      next.base = arena.base ∧ next.bytes = arena.bytes ∧
      Invariant next (p ++ (e.carve aligned bytes ++ q))
        (records ++ [⟨arena.base + aligned, ⟨aligned, bytes⟩⟩]) := by
  have full : arena.allocationCount = records.length := h.holds.records.length.symm
  by_cases stuck : arena.base = 0 ∨ arena.allocationCount = kMaxAllocations
  · refine .inl ⟨by rw [allocateFrom, if_pos stuck], ?_⟩
    rcases stuck with zero | all
    · exact .inr fun f hf => absurd (h.base_pos hf) (by omega)
    · exact .inl (full.symm.trans all)
  · rw [not_or, full] at stuck
    have run : allocateFrom arena bytes alignment =
        scanFree arena (alignedOffset arena.base alignment) bytes ([] : List Block).length free.length := by
      rw [allocateFrom, if_neg (by rw [full]; tauto), h.holds.free.length, List.length_nil]
    have reject : ∀ f ∈ free, Misfit f (alignedOffset arena.base alignment f) bytes →
        ∀ x, alignment ∣ x → arena.base + f.offset ≤ x → arena.base + f.stop < x + bytes :=
      fun f hf bad x hx low => misfit bad pos pow small (h.base_pos hf) (h.stop_lt hf) hx low
    rcases scanFree_spec (p := []) (alignedOffset arena.base alignment) bytes h.holds.free with ⟨none, scan⟩ | ⟨p, e, q, rfl, before, fits, scan⟩
    · exact .inl ⟨run.trans scan, .inr fun f hf => reject f hf (none f hf)⟩
    · have he : e ∈ p ++ e :: q := by simp
      obtain ⟨multiple, low, high, least⟩ :=
        not_misfit fits pow small (h.base_pos he) (h.stop_lt he)
      have slot : arena.allocationCount < kMaxAllocations := by
        have := h.records_length_le
        omega
      obtain ⟨⟨_, next⟩, taken, rfl, base, total, holds⟩ :=
        takeBlock_spec h.holds h.freeCount_lt slot fits
      exact .inr ⟨p, e, q, _, next, rfl, stuck.2,
        fun f hf => reject f (by simp [hf]) (before f hf), low, high, multiple, least,
        (run.trans scan).trans taken, base, total, h.carve rfl low high pos base total holds⟩

/-- Either no live allocation starts at `pointer`, or exactly that one is given back. -/
theorem deallocateIn_spec (h : Invariant arena free records) (pointer : ℕ) :
    ((∀ r ∈ records, r.pointer ≠ pointer) ∧ deallocateIn arena pointer = some arena) ∨
    ∃ r a s free' next, records = r ++ a :: s ∧ a.pointer = pointer ∧
      deallocateIn arena pointer = some next ∧ next.base = arena.base ∧
      next.bytes = arena.bytes ∧ Invariant next free' (swapRemove r s) := by
  have run : findAllocation arena pointer 0 arena.allocationCount =
      findAllocation arena pointer ([] : List Allocation).length records.length := by
    rw [h.holds.records.length, List.length_nil]
  rcases findAllocation_spec (r := []) pointer h.holds.records with
    ⟨none, scan⟩ | ⟨r, a, s, rfl, here, scan⟩
  · exact .inl ⟨none, by rw [deallocateIn, run, scan]; rfl⟩
  · obtain ⟨p, q, rfl, below, above, next, dropped, base, total, holds⟩ :=
      dropAllocation_spec h.holds h.freeCount_lt
    refine .inr ⟨r, a, s, _, next, rfl, here, ?_, base, total, holds, ?_, fun b hb => ?_, ?_, ?_⟩
    · rw [deallocateIn, run, scan]
      exact dropped
    · -- the given-back block comes first in the live list, whose order does not matter
      have same : ((r ++ a :: s).map Allocation.block).Perm
          (a.block :: (r ++ s).map Allocation.block) := by
        simp only [List.map_append, List.map_cons]
        exact List.perm_middle
      have live := h.tiles.perm same
      have later := (Extent.separated_append.mp h.tiles.separated).2.1.le_offset above
      rw [total]
      exact (live.join below later).perm ((swapRemove_perm r s).symm.map _)
    · rw [base]
      refine h.pointers b ?_
      have := (swapRemove_perm r s).mem_iff.mp hb
      simp only [List.mem_append, List.mem_cons] at this ⊢
      tauto
    · rw [base, total]
      exact h.unmapped
    · rw [base, total]
      exact h.in_range

end Invariant

end Pfng.Tcm
