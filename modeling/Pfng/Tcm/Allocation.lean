import Pfng.Tcm.Safety

/-! Allocation is complete, aligned and lowest-address-first: what `allocateFrom` returns is
said without the free list. -/
namespace Pfng.Tcm
open Checked

/-- An aligned address from which `bytes` lie in the arena and meet no live allocation. -/
def Placeable (arena : Arena) (bytes alignment address : ℕ) : Prop :=
  alignment ∣ address ∧ arena.base ≤ address ∧ address + bytes ≤ arena.base + arena.bytes ∧
    ∀ b ∈ arena.live, Extent.Apart ⟨address - arena.base, bytes⟩ b

variable {p : Platform} {state : Manager} {arena : Arena} {bytes alignment : ℕ}

theorem Placeable.inside {address : ℕ} (h : Placeable arena bytes alignment address)
    (sound : Sound arena) (pos : 0 < bytes) :
    ∃ f ∈ arena.free, arena.base + f.offset ≤ address ∧ address + bytes ≤ arena.base + f.stop := by
  obtain ⟨_, low, high, clear⟩ := h
  have run : address - arena.base + bytes ≤ arena.bytes := by omega
  obtain ⟨f, hf, left, right⟩ := sound.tiles.run_free pos run clear
  exact ⟨f, hf, by omega, by omega⟩

theorem placeable_of_free {e : Block} {offset : ℕ} (sound : Sound arena) (he : e ∈ arena.free)
    (multiple : alignment ∣ arena.base + offset) (low : e.offset ≤ offset)
    (high : offset + bytes ≤ e.stop) : Placeable arena bytes alignment (arena.base + offset) := by
  have stop := sound.tiles.free_stop_le he
  refine ⟨multiple, by omega, by omega, fun b hb => ?_⟩
  have apart := sound.tiles.apart he hb
  rw [Nat.add_sub_cancel_left]
  simp only [Extent.Apart, Extent.stop] at *
  omega

/-- `allocateFrom` finds the lowest placeable address whenever there is one. -/
theorem allocateFrom_lowest (h : Reachable p state) (ha : arena ∈ state.arenas) (pos : 0 < bytes)
    {k : ℕ} (hk : k ≤ 63) :
    ∃ pointer next, allocateFrom arena bytes (2^k) = some (pointer, next) ∧
      (pointer = 0 ↔
        arena.records.length = kMaxAllocations ∨ ∀ a, ¬ Placeable arena bytes (2^k) a) ∧
      (pointer = 0 → next = arena) ∧
      (pointer ≠ 0 → Placeable arena bytes (2^k) pointer ∧
        (∀ a, Placeable arena bytes (2^k) a → pointer ≤ a) ∧
        next.records = arena.records ++ [⟨pointer, ⟨pointer - arena.base, bytes⟩⟩]) := by
  have sound := h.consistent.sound arena ha
  have pow : isPowerOfTwo (2^k) = true := isPowerOfTwo_iff.mpr ⟨k, rfl⟩
  have small : 2^k < 2^64 := Nat.pow_lt_pow_right (by decide) (by omega)
  rcases sound.allocateFrom_spec pos pow small with
    ⟨run, none⟩ | ⟨p, e, q, aligned, next, split, room, before, low, high, multiple, least, run,
      _, _, inv⟩
  · refine ⟨0, arena, run, ⟨fun _ => none.imp_right fun reject a place => ?_, fun _ => rfl⟩,
      fun _ => rfl, fun no => absurd rfl no⟩
    obtain ⟨f, hf, left, right⟩ := place.inside sound pos
    have := reject f hf a place.1 left
    omega
  · have he : e ∈ arena.free := by
      rw [split]
      simp
    have found := placeable_of_free sound he multiple low high
    have mapped := sound.base_pos he
    refine ⟨arena.base + aligned, next, run, ⟨fun zero => by omega, fun no => ?_⟩,
      fun zero => by omega, fun _ => ⟨found, fun a place => ?_, ?_⟩⟩
    · exact (no.elim room fun reject => reject _ found).elim
    · -- the block that holds `a` is not before `e`, and after `e` every address is larger
      obtain ⟨f, hf, left, right⟩ := place.inside sound pos
      rw [split] at hf
      rcases List.mem_append.mp hf with hp | hq
      · have := before f hp a place.1 left
        omega
      · rcases List.mem_cons.mp hq with rfl | hq
        · exact least a place.1 left
        · have sep := sound.tiles.separated
          rw [split] at sep
          have tail := (Extent.separated_append.mp sep).2.1
          have later := (Extent.separated_cons.mp tail).2.1 f hq
          simp only [Extent.Before] at later
          omega
    · rw [Nat.add_sub_cancel_left]
      exact inv.holds.records_eq

theorem sample_lowest : ∃ arena ∈ sample.arenas, ∃ pointer next,
    allocateFrom arena 300 (2^7) = some (pointer, next) ∧ pointer = 397696 ∧
      ∀ a, Placeable arena 300 (2^7) a → pointer ≤ a := by
  have ha : sample.arenas.get ⟨1, by decide +kernel⟩ ∈ sample.arenas := List.getElem_mem _
  obtain ⟨pointer, next, run, _, _, found⟩ :=
    allocateFrom_lowest sample_reachable ha (show 0 < 300 by decide) (show 7 ≤ 63 by decide)
  have value : (allocateFrom (sample.arenas.get ⟨1, by decide +kernel⟩) 300 (2^7)).map Prod.fst =
      some 397696 := by decide +kernel
  rw [run, Option.map_some, Option.some_inj] at value
  exact ⟨_, ha, pointer, next, run, value, (found (by omega)).2.1⟩

end Pfng.Tcm
