import Pfng.Tcm.Safety

/-! The free list is a function of the live blocks, and deallocation is exact: a run of
deallocations removes the named records and nothing else. -/
namespace Pfng.Tcm
open Checked

variable {p : Platform} {state : Manager} {a b : Arena}

theorem Sound.free_eq (ha : Sound a) (hb : Sound b) (bytes : a.bytes = b.bytes)
    (same : ∀ e, e ∈ a.live ↔ e ∈ b.live) : a.free = b.free := by
  have tiles := hb.tiles
  rw [← bytes] at tiles
  exact ha.tiles.free_unique tiles same

theorem live_congr (same : ∀ r, r ∈ a.records ↔ r ∈ b.records) (e : Block) :
    e ∈ a.live ↔ e ∈ b.live := by
  simp only [Arena.live, List.mem_map, same]

theorem Sound.free_of_empty (h : Sound a) (pos : 0 < a.bytes) (none : ∀ r, r ∉ a.records) :
    a.free = [⟨0, a.bytes⟩] := by
  have empty : a.records = [] := List.eq_nil_iff_forall_not_mem.mpr none
  refine h.tiles.free_unique (Extent.Tiles.whole pos) fun e => ?_
  rw [empty, List.map_nil]

theorem Sound.pointers_nodup (h : Sound a) : (a.records.map Allocation.pointer).Nodup := by
  refine List.pairwise_map.mpr ((List.pairwise_map.mp h.tiles.live_apart).imp_of_mem ?_)
  intro r s hr hs apart same
  have hrp := h.tiles.live_nonempty _ (List.mem_map_of_mem hr)
  have hsp := h.tiles.live_nonempty _ (List.mem_map_of_mem hs)
  rw [h.pointers r hr, h.pointers s hs] at same
  simp only [Extent.Apart, Extent.stop] at apart
  omega

/-- What is left of the arena `a` in `b` once the pointers are given back. -/
structure Lost (pointers : List ℕ) (a b : Arena) : Prop where
  base : b.base = a.base
  bytes : b.bytes = a.bytes
  records : ∀ r, r ∈ b.records ↔ r ∈ a.records ∧ r.pointer ∉ pointers

theorem Lost.refl {pointers : List ℕ} (none : ∀ r ∈ a.records, r.pointer ∉ pointers) :
    Lost pointers a a :=
  ⟨rfl, rfl, fun r => ⟨fun hr => ⟨hr, none r hr⟩, fun hr => hr.1⟩⟩

theorem Lost.trans {c : Arena} {x : ℕ} {pointers : List ℕ} (first : Lost [x] a b)
    (rest : Lost pointers b c) : Lost (x :: pointers) a c := by
  refine ⟨rest.base.trans first.base, rest.bytes.trans first.bytes, fun r => ?_⟩
  rw [rest.records, first.records]
  simp only [List.mem_cons, List.not_mem_nil, or_false, not_or, and_assoc]

/-- Every arena keeps its place and loses the records at the pointers. -/
def LostAll (pointers : List ℕ) (state next : Manager) : Prop :=
  ∀ (i : ℕ) (a : Arena), state.arenas[i]? = some a →
    ∃ b, next.arenas[i]? = some b ∧ Lost pointers a b

theorem deallocate_lost (h : Consistent p state) (pointer : ℕ) :
    Ends (deallocate state pointer) fun next =>
      Consistent p next ∧ LostAll [pointer] state next := by
  rcases deallocate_cases h pointer with
    ⟨none, run⟩ | ⟨i, a, r, b, at_i, hr, here, run, base, bytes, sound, perm⟩
  · rw [run]
    refine .some ⟨h, fun j c at_j => ⟨c, at_j, Lost.refl fun r hr => ?_⟩⟩
    rw [List.mem_singleton]
    exact none c (List.mem_of_getElem? at_j) r hr
  · rw [run]
    have ha := List.mem_of_getElem? at_i
    refine .some ⟨h.set at_i sound base bytes, fun j c at_j => ?_⟩
    by_cases same : i = j
    · subst same
      rw [at_i] at at_j
      cases at_j
      have bound := (List.getElem?_eq_some_iff.mp at_i).1
      refine ⟨b, by simp [bound], base, bytes, fun s => ?_⟩
      have nodup := (h.sound a ha).pointers_nodup
      rw [perm.mem_iff, nodup.of_map.mem_erase_iff, List.mem_singleton, and_comm, ← here]
      refine and_congr_right fun hs => not_congr ⟨fun eq => eq ▸ rfl, fun eq => ?_⟩
      exact List.inj_on_of_nodup_map nodup hs hr eq
    · refine ⟨c, by simpa [same] using at_j, Lost.refl fun s hs => ?_⟩
      rw [List.mem_singleton]
      intro there
      have hax := (h.sound a ha).record_inside hr
      have hcx := (h.sound c (List.mem_of_getElem? at_j)).record_inside hs
      rw [here] at hax
      rw [there] at hcx
      exact same (h.owner_unique at_i at_j hax.2 hcx.2)

/-- `deallocate` calls from any CPUs. -/
def freeing (frees : List (ℤ × Word)) : List (Call p) :=
  frees.map fun (cpu, pointer) => .deallocate cpu pointer

theorem freeing_lost (h : Consistent p state) (frees : List (ℤ × Word)) :
    Ends (runAll (exec p) state (freeing frees)) fun next =>
      Consistent p next ∧ LostAll (frees.map fun f => f.2.val) state next := by
  induction frees generalizing state with
  | nil => exact .some ⟨h, fun i a at_i => ⟨a, at_i, Lost.refl (by simp)⟩⟩
  | cons f frees ih =>
      obtain ⟨mid, run, inv, first⟩ := deallocate_lost h f.2.val
      have step : exec p state (.deallocate f.1 f.2) = some (.done, mid) := by
        rw [exec, run]
        rfl
      have rest := ih inv
      rw [freeing, List.map_cons, runAll, step]
      refine rest.mono fun next done => ⟨done.1, fun i a at_i => ?_⟩
      obtain ⟨b, at_b, ab⟩ := first i a at_i
      obtain ⟨c, at_c, bc⟩ := done.2 i b at_b
      exact ⟨c, at_c, ab.trans bc⟩

/-- After the newest record of arena `i` is lost again, every arena has the live blocks it had. -/
theorem restored (h : Consistent p state) {i j : ℕ} {c : Arena} {last : Manager} {pointer bytes : ℕ}
    (at_i : state.arenas[i]? = some a) (at_j : state.arenas[j]? = some c)
    (inv : Consistent p { state with arenas := state.arenas.set i b }) (sound : Sound b)
    (records : b.records = a.records ++ [⟨pointer, ⟨pointer - a.base, bytes⟩⟩])
    (lost : LostAll [pointer] { state with arenas := state.arenas.set i b } last)
    (total : b.bytes = a.bytes) :
    ∃ d, last.arenas[j]? = some d ∧ d.bytes = c.bytes ∧ ∀ r, r ∈ d.records ↔ r ∈ c.records := by
  have bound := (List.getElem?_eq_some_iff.mp at_i).1
  have at_b : (state.arenas.set i b)[i]? = some b := by simp [bound]
  have new : (⟨pointer, ⟨pointer - a.base, bytes⟩⟩ : Allocation) ∈ b.records := by
    rw [records]
    simp
  by_cases same : i = j
  · subst same
    rw [at_i] at at_j
    cases at_j
    obtain ⟨d, at_d, less⟩ := lost i b at_b
    refine ⟨d, at_d, less.bytes.trans total, fun r => ?_⟩
    have old : ∀ r ∈ a.records, r.pointer ≠ pointer := by
      have nodup := sound.pointers_nodup
      rw [records, List.map_append, List.nodup_append] at nodup
      exact fun r hr => nodup.2.2 _ (List.mem_map_of_mem hr) _ (by simp)
    rw [less.records, records, List.mem_append, List.mem_singleton, List.mem_singleton]
    constructor
    · rintro ⟨hr | rfl, other⟩
      · exact hr
      · exact absurd rfl other
    · exact fun hr => ⟨.inl hr, old r hr⟩
  · have at_c : (state.arenas.set i b)[j]? = some c := by simpa [same] using at_j
    obtain ⟨d, at_d, less⟩ := lost j c at_c
    refine ⟨d, at_d, less.bytes, fun r => (less.records r).trans (and_iff_left_of_imp fun hr => ?_)⟩
    rw [List.mem_singleton]
    intro there
    have hcx := ((h.sound c (List.mem_of_getElem? at_j)).record_inside hr).2
    rw [there] at hcx
    exact same (inv.owner_unique at_b at_c (sound.record_inside new).2 hcx)

/-- A block taken and given back leaves every free list as it was. -/
theorem allocate_deallocate (h : Consistent p state) (cpu : ℤ) (bytes alignment : Word) :
    ∃ (address : Word) (next : Manager),
      exec p state (.allocate cpu bytes alignment) = some (.pointer address, next) ∧
      ∀ cpu', ∃ last, exec p next (.deallocate cpu' address) = some (.done, last) ∧
        last.arenas.map Arena.free = state.arenas.map Arena.free := by
  rcases allocate_cases h cpu bytes alignment.2 with
    run | ⟨i, a, pointer, b, _, at_i, pos, run, base, total, sound, records⟩
  · refine ⟨0, state, by rw [exec, run]; rfl, fun _ => ⟨state, rfl, rfl⟩⟩
  · have sound_a := h.sound a (List.mem_of_getElem? at_i)
    have inv := h.set at_i sound base total
    have new : (⟨pointer, ⟨pointer - a.base, bytes⟩⟩ : Allocation) ∈ b.records := by
      rw [records]
      simp
    have small : pointer < 2^64 := by
      have inside : pointer < b.base + b.bytes := (sound.record_inside new).2.2
      exact inside.trans sound.in_range
    refine ⟨⟨pointer, small⟩, _, by rw [exec, run]; rfl, fun _ => ?_⟩
    obtain ⟨last, freed, consistent, lost⟩ := deallocate_lost inv pointer
    refine ⟨last, by rw [exec, freed]; rfl, ?_⟩
    have lengths : last.arenas.length = state.arenas.length := by
      rw [consistent.length, h.length]
    refine List.ext_getElem? fun j => ?_
    rw [List.getElem?_map, List.getElem?_map]
    by_cases bound : j < state.arenas.length
    · have at_j : state.arenas[j]? = some state.arenas[j] := List.getElem?_eq_getElem bound
      obtain ⟨d, at_d, same, kept⟩ := restored h at_i at_j inv sound records lost total
      rw [at_d, at_j, Option.map_some, Option.map_some]
      exact congrArg some ((consistent.sound d (List.mem_of_getElem? at_d)).free_eq
        (h.sound _ (List.getElem_mem bound)) same (live_congr kept))
    · rw [List.getElem?_eq_none (by omega), List.getElem?_eq_none (by omega)]

/-- Deallocating every live pointer of an arena, in any order and among any other pointers,
leaves one free block. -/
theorem freeing_whole (h : Consistent p state) (ok : state.initializationSucceeded = true) {i : ℕ}
    (at_i : state.arenas[i]? = some a) {frees : List (ℤ × Word)}
    (all : ∀ r ∈ a.records, r.pointer ∈ frees.map fun f => f.2.val) :
    Ends (runAll (exec p) state (freeing frees)) fun next =>
      ∃ b, next.arenas[i]? = some b ∧ b.free = [⟨0, a.bytes⟩] ∧ b.records = [] := by
  refine (freeing_lost h frees).mono fun next done => ?_
  obtain ⟨b, at_b, less⟩ := done.2 i a at_i
  have none : ∀ r, r ∉ b.records := fun r hr => by
    rw [less.records] at hr
    exact hr.2 (all r hr.1)
  have pos : 0 < b.bytes := by
    rw [less.bytes, (h.placed ok i a at_i).2]
    exact arenaBytes_pos p
  have whole := (done.1.sound b (List.mem_of_getElem? at_b)).free_of_empty pos none
  rw [less.bytes] at whole
  exact ⟨b, at_b, whole, List.eq_nil_iff_forall_not_mem.mpr none⟩

theorem Consistent.bytes_eq {other : Manager} (h : Consistent p state) (h' : Consistent p other)
    (same : other.initializationSucceeded = state.initializationSucceeded) {i : ℕ}
    (at_i : state.arenas[i]? = some a) (at_j : other.arenas[i]? = some b) : a.bytes = b.bytes := by
  by_cases ok : state.initializationSucceeded = true
  · rw [(h.placed ok i a at_i).2, (h'.placed (same.trans ok) i b at_j).2]
  · have no := Bool.eq_false_iff.mpr ok
    rw [(h.unplaced no a (List.mem_of_getElem? at_i)).2,
      (h'.unplaced (same.trans no) b (List.mem_of_getElem? at_j)).2]

/-- The free lists depend on the live blocks alone, and deallocation is exact. -/
theorem history_independent (h : Reachable p state) :
    -- two runs that end with the same live blocks
    (∀ other : Manager, Reachable p other →
      other.initializationSucceeded = state.initializationSucceeded →
      ∀ (i : ℕ) (a b : Arena), state.arenas[i]? = some a → other.arenas[i]? = some b →
        (∀ e, e ∈ a.live ↔ e ∈ b.live) → a.free = b.free) ∧
    -- deallocating what was just allocated
    (∀ cpu (bytes alignment : Word), ∃ (address : Word) (next : Manager),
      exec p state (.allocate cpu bytes alignment) = some (.pointer address, next) ∧
      ∀ cpu', ∃ last, exec p next (.deallocate cpu' address) = some (.done, last) ∧
        last.arenas.map Arena.free = state.arenas.map Arena.free) ∧
    -- freeing all live blocks of an arena in any order
    (∀ (i : ℕ) (a : Arena) (frees : List (ℤ × Word)), state.initializationSucceeded = true →
      state.arenas[i]? = some a → (∀ r ∈ a.records, r.pointer ∈ frees.map fun f => f.2.val) →
      ∃ next b, runAll (exec p) state (freeing frees) = some next ∧ next.arenas[i]? = some b ∧
        b.free = [⟨0, a.bytes⟩] ∧ b.records = []) ∧
    -- a live pointer goes back to the arena that owns it
    (∀ (i : ℕ) (a : Arena) cpu (pointer : Word), state.arenas[i]? = some a →
      ∀ r ∈ a.records, r.pointer = pointer → ∃ b, b.records.Perm (a.records.erase r) ∧
        Extent.Tiles a.bytes b.free b.live ∧ exec p state (.deallocate cpu pointer) =
          some (.done, { state with arenas := state.arenas.set i b })) ∧
    -- any other pointer changes nothing
    ∀ cpu (pointer : Word), (∀ a ∈ state.arenas, ∀ r ∈ a.records, r.pointer ≠ pointer) →
      exec p state (.deallocate cpu pointer) = some (.done, state) := by
  have inv := h.consistent
  refine ⟨fun other run same i a b at_i at_j live => ?_, allocate_deallocate inv,
    fun i a frees ok at_i all => ?_, fun i a cpu pointer at_i r hr here => ?_,
    fun cpu pointer none => ?_⟩
  · have inv' := run.consistent
    have bytes := inv.bytes_eq inv' same at_i at_j
    exact (inv.sound a (List.mem_of_getElem? at_i)).free_eq
      (inv'.sound b (List.mem_of_getElem? at_j)) bytes live
  · obtain ⟨next, run, b, at_b, whole⟩ := freeing_whole inv ok at_i all
    exact ⟨next, b, run, at_b, whole⟩
  · have sound := inv.sound a (List.mem_of_getElem? at_i)
    rcases deallocate_cases inv pointer.val with
      ⟨none, _⟩ | ⟨j, c, s, b, at_j, hs, there, run, _, bytes, sound_b, perm⟩
    · exact absurd here (none a (List.mem_of_getElem? at_i) r hr)
    · have hax := (sound.record_inside hr).2
      have hcx := ((inv.sound c (List.mem_of_getElem? at_j)).record_inside hs).2
      rw [here] at hax
      rw [there] at hcx
      have same := inv.owner_unique at_i at_j hax hcx
      subst same
      rw [at_i] at at_j
      cases at_j
      have eq := List.inj_on_of_nodup_map sound.pointers_nodup hr hs (here.trans there.symm)
      subst eq
      refine ⟨b, perm, bytes ▸ sound_b.tiles, ?_⟩
      rw [exec, run]
      rfl
  · rcases deallocate_cases inv pointer.val with ⟨_, run⟩ | ⟨i, a, r, _, at_i, hr, here, _⟩
    · rw [exec, run]
      rfl
    · exact absurd here (none a (List.mem_of_getElem? at_i) r hr)

def sampleArena : Arena := sample.arenas.get ⟨1, by decide +kernel⟩

def twinArena : Arena := sampleTwin.arenas.get ⟨1, by decide +kernel⟩

theorem sample_history :
    sampleArena.free = twinArena.free ∧
    (∃ next b, runAll (exec .spacemitK3A100) sample (freeing [(3, 5), (12, 397568)]) = some next ∧
      next.arenas[1]? = some b ∧ b.free = [⟨0, 393216⟩] ∧ b.records = []) ∧
    (∃ b, Extent.Tiles sampleArena.bytes b.free b.live ∧
      exec .spacemitK3A100 sample (.deallocate 12 397568) =
        some (.done, { sample with arenas := sample.arenas.set 1 b })) ∧
    exec .spacemitK3A100 sample (.deallocate 3 5) = some (.done, sample) := by
  have at_one : sample.arenas[1]? = some sampleArena := List.getElem?_eq_getElem _
  have at_twin : sampleTwin.arenas[1]? = some twinArena := List.getElem?_eq_getElem _
  have bytes : sampleArena.bytes = 393216 := by decide +kernel
  have live : sampleArena.live = twinArena.live := by decide +kernel
  obtain ⟨twins, _, freed, owned, other⟩ := history_independent sample_reachable
  refine ⟨?_, ?_, ?_, ?_⟩
  · exact twins sampleTwin sampleTwin_reachable (by decide +kernel) 1 sampleArena twinArena at_one at_twin
      fun e => by rw [live]
  · have run := freed 1 sampleArena [(3, 5), (12, 397568)] (by decide +kernel) at_one (by decide +kernel)
    rwa [bytes] at run
  · obtain ⟨r, member, pointer⟩ : ∃ r ∈ sampleArena.records, r.pointer = 397568 := by decide +kernel
    obtain ⟨b, _, tiles, run⟩ := owned 1 sampleArena 12 397568 at_one r member pointer
    exact ⟨b, tiles, run⟩
  · exact other 3 5 (by decide +kernel)

end Pfng.Tcm
