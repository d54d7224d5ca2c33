import Pfng.Tcm.Invariant
import Pfng.Tcm.Manager

/-! The invariant of the whole manager over arbitrary runs of calls: every arena is tiled by
its free blocks and its live allocations, and the arenas' ranges are disjoint. -/
namespace Pfng.Tcm
open Checked

theorem arenaBytes_pos (p : Platform) : 0 < arenaBytes p := by
  cases p <;> decide

theorem arenaCount_mul_arenaBytes (p : Platform) : kArenaCount p * arenaBytes p = kCapacity p := by
  cases p <;> decide

structure Consistent (p : Platform) (state : Manager) : Prop where
  length : state.arenas.length = kArenaCount p
  once : state.initializeOnce = false → state.initializationSucceeded = false
  sound : ∀ a ∈ state.arenas, Sound a
  mapped : state.initializationSucceeded = true → 0 < state.base ∧ state.base + kCapacity p < 2^64
  placed : state.initializationSucceeded = true → ∀ i a, state.arenas[i]? = some a →
    a.base = state.base + i * arenaBytes p ∧ a.bytes = arenaBytes p
  unplaced : state.initializationSucceeded = false → ∀ a ∈ state.arenas, a.base = 0 ∧ a.bytes = 0

variable {p : Platform} {state : Manager}

theorem set_same {arenas : List Arena} {i : ℕ} {a : Arena} (at_i : arenas[i]? = some a) :
    arenas.set i a = arenas := by
  obtain ⟨bound, rfl⟩ := List.getElem?_eq_some_iff.mp at_i
  exact List.set_getElem_self bound

theorem consistent_fresh : Consistent p (Manager.fresh p) := by
  refine ⟨List.length_replicate, fun _ => rfl, ?_, nofun, nofun, ?_⟩
  · intro a ha
    obtain rfl := (List.mem_replicate.mp ha).2
    exact sound_unmapped
  · intro _ a ha
    obtain rfl := (List.mem_replicate.mp ha).2
    exact ⟨rfl, rfl⟩

theorem Consistent.set (h : Consistent p state) {i : ℕ} {a b : Arena}
    (at_i : state.arenas[i]? = some a) (sound : Sound b) (base : b.base = a.base)
    (bytes : b.bytes = a.bytes) : Consistent p { state with arenas := state.arenas.set i b } := by
  refine ⟨by simpa using h.length, h.once, fun c hc => ?_, h.mapped, fun ok j c hc => ?_,
    fun no c hc => ?_⟩
  · rcases List.mem_or_eq_of_mem_set hc with hc | rfl
    · exact h.sound c hc
    · exact sound
  · rw [List.getElem?_set] at hc
    split at hc
    · next same =>
        subst same
        split at hc
        · cases hc
          rw [base, bytes]
          exact h.placed ok i a at_i
        · cases hc
    · exact h.placed ok j c hc
  · rcases List.mem_or_eq_of_mem_set hc with hc | rfl
    · exact h.unplaced no c hc
    · rw [base, bytes]
      exact h.unplaced no a (List.mem_of_getElem? at_i)

/-- The arenas before `index` are reset to their slices of the mapping. -/
def ResetBelow (p : Platform) (base index : ℕ) (arenas : List Arena) : Prop :=
  arenas.length = kArenaCount p ∧ ∀ i a, i < index → arenas[i]? = some a →
    Sound a ∧ a.base = base + i * arenaBytes p ∧ a.bytes = arenaBytes p

theorem resetArenas_spec {base : ℕ} {arenas : List Arena} (length : arenas.length = kArenaCount p)
    (mapped : 0 < base) (range : base + kCapacity p < 2^64) :
    Ends (resetArenas p base arenas) (ResetBelow p base (kArenaCount p)) := by
  refine loop_ends (ResetBelow p base) ⟨length, by simp⟩ fun index below next inv => ?_
  have here : index < next.length := by
    rw [inv.1]
    omega
  have slice : (index + 1) * arenaBytes p ≤ kCapacity p := by
    rw [← arenaCount_mul_arenaBytes p]
    exact Nat.mul_le_mul_right _ (by omega)
  rw [Nat.add_mul, Nat.one_mul] at slice
  rw [List.getElem?_eq_getElem here, Option.bind_some]
  refine (Invariant.reset (by omega) (arenaBytes_pos p) (by omega)).map fun b hb => ?_
  refine ⟨by simpa using inv.1, fun i a hi ha => ?_⟩
  rw [List.getElem?_set] at ha
  by_cases same : index = i
  · subst same
    rw [if_pos rfl, if_pos here] at ha
    cases ha
    exact ⟨hb.1.sound, hb.2⟩
  · rw [if_neg same] at ha
    exact inv.2 i a (by omega) ha

theorem initializeTcm_consistent (h : Consistent p state) {base : ℕ}
    (valid : base = 0 ∨ base + kCapacity p < 2^64) :
    Ends (initializeTcm p state base) fun (_, next) => Consistent p next := by
  unfold initializeTcm
  split
  · exact .some h
  · next first =>
      have idle := h.once (by simpa using first)
      split
      · exact .some ⟨h.length, nofun, h.sound, nofun, nofun, fun _ => h.unplaced idle⟩
      · next some =>
          have range := valid.resolve_left some
          refine (resetArenas_spec h.length (by omega) range).map fun next done => ?_
          refine ⟨done.1, nofun, fun a ha => ?_, fun _ => ⟨Nat.pos_of_ne_zero some, range⟩,
            fun _ i a ha => ?_, nofun⟩
          · obtain ⟨i, hi, rfl⟩ := List.getElem_of_mem ha
            exact (done.2 i _ (done.1 ▸ hi) (List.getElem?_eq_getElem hi)).1
          · have hi : i < next.length := (List.getElem?_eq_some_iff.mp ha).1
            exact (done.2 i a (done.1 ▸ hi) ha).2

/-- The arena whose range holds the pointer, if any, gives the block back. -/
theorem deallocateAmong_spec (pointer : ℕ) {arenas : List Arena} (sound : ∀ a ∈ arenas, Sound a) :
    (deallocateAmong pointer arenas = some arenas ∧
      ∀ a ∈ arenas, ¬ (0 < a.base ∧ a.base ≤ pointer ∧ pointer < a.base + a.bytes)) ∨
    ∃ i a next, arenas[i]? = some a ∧ 0 < a.base ∧ a.base ≤ pointer ∧
      pointer < a.base + a.bytes ∧ deallocateIn a pointer = some next ∧
      deallocateAmong pointer arenas = some (arenas.set i next) := by
  induction arenas with
  | nil => exact .inl ⟨rfl, by simp⟩
  | cons arena arenas ih =>
      have range := (sound arena (.head _)).in_range
      unfold deallocateAmong
      rw [Nat.mod_eq_of_lt range]
      by_cases outside : arena.base = 0 ∨ pointer < arena.base ∨ pointer ≥ arena.base + arena.bytes
      · rw [if_pos outside]
        rcases ih fun a ha => sound a (.tail _ ha) with ⟨run, none⟩ | ⟨i, a, next, at_i, hb, lo, hi, step, run⟩
        · refine .inl ⟨by rw [run]; rfl, fun a ha => ?_⟩
          cases ha with
          | head => omega
          | tail _ ha => exact none a ha
        · exact .inr ⟨i + 1, a, next, at_i, hb, lo, hi, step, by rw [run]; rfl⟩
      · rw [if_neg outside]
        have done : ∃ next, deallocateIn arena pointer = some next := by
          rcases (sound arena (.head _)).deallocateIn_spec pointer with
            ⟨_, run⟩ | ⟨_, _, _, _, next, _, _, run, _⟩
          · exact ⟨_, run⟩
          · exact ⟨_, run⟩
        obtain ⟨next, run⟩ := done
        exact .inr ⟨0, arena, next, rfl, by omega, by omega, by omega, run, by rw [run]; rfl⟩

theorem Consistent.arenas_apart (h : Consistent p state) {i j : ℕ} {a b : Arena} (hij : i < j)
    (ha : state.arenas[i]? = some a) (hb : state.arenas[j]? = some b) :
    a.bytes = 0 ∧ b.bytes = 0 ∨ a.base + a.bytes ≤ b.base := by
  by_cases ok : state.initializationSucceeded = true
  · obtain ⟨abase, abytes⟩ := h.placed ok i a ha
    obtain ⟨bbase, _⟩ := h.placed ok j b hb
    have next : (i + 1) * arenaBytes p ≤ j * arenaBytes p := Nat.mul_le_mul_right _ hij
    rw [Nat.add_mul, Nat.one_mul] at next
    exact .inr (by omega)
  · have no := Bool.eq_false_iff.mpr ok
    exact .inl ⟨(h.unplaced no a (List.mem_of_getElem? ha)).2,
      (h.unplaced no b (List.mem_of_getElem? hb)).2⟩

theorem Consistent.owner_unique (h : Consistent p state) {i j : ℕ} {a b : Arena} {x : ℕ}
    (ha : state.arenas[i]? = some a) (hb : state.arenas[j]? = some b)
    (hax : a.base ≤ x ∧ x < a.base + a.bytes) (hbx : b.base ≤ x ∧ x < b.base + b.bytes) :
    i = j := by
  rcases Nat.lt_trichotomy i j with lt | same | gt
  · have := h.arenas_apart lt ha hb
    omega
  · exact same
  · have := h.arenas_apart gt hb ha
    omega

/-- Either no arena has a live allocation at the pointer and nothing changes, or the one arena
that has it loses exactly that record. -/
theorem deallocate_cases (h : Consistent p state) (pointer : ℕ) :
    ((∀ a ∈ state.arenas, ∀ r ∈ a.records, r.pointer ≠ pointer) ∧
      deallocate state pointer = some state) ∨
    ∃ i a r b, state.arenas[i]? = some a ∧ r ∈ a.records ∧ r.pointer = pointer ∧
      deallocate state pointer = some { state with arenas := state.arenas.set i b } ∧
      b.base = a.base ∧ b.bytes = a.bytes ∧ Sound b ∧ b.records.Perm (a.records.erase r) := by
  have inside : ∀ a ∈ state.arenas, ∀ r ∈ a.records,
      0 < a.base ∧ a.base ≤ r.pointer ∧ r.pointer < a.base + a.bytes := fun a ha r hr =>
    (h.sound a ha).record_inside hr
  unfold deallocate
  by_cases null : pointer = 0
  · rw [if_pos null]
    refine .inl ⟨fun a ha r hr => ?_, rfl⟩
    have := inside a ha r hr
    omega
  · rw [if_neg null]
    rcases deallocateAmong_spec pointer h.sound with
      ⟨run, none⟩ | ⟨i, a, next, at_i, low, left, right, step, run⟩
    · rw [run]
      exact .inl ⟨fun a ha r hr same => none a ha (same ▸ inside a ha r hr), rfl⟩
    · rw [run]
      have ha := List.mem_of_getElem? at_i
      rcases (h.sound a ha).deallocateIn_spec pointer with
        ⟨none, same⟩ | ⟨r, x, s, _, b, split, here, same, base, bytes, inv⟩
      · rw [step] at same
        cases same
        rw [set_same at_i]
        refine .inl ⟨fun b hb r hr there => ?_, rfl⟩
        obtain ⟨j, at_j⟩ := List.getElem?_of_mem hb
        have hbx := there ▸ (inside b hb r hr).2
        have hij := h.owner_unique at_i at_j ⟨left, right⟩ hbx
        subst hij
        rw [at_i] at at_j
        cases at_j
        exact none r hr there
      · rw [step] at same
        cases same
        refine .inr ⟨i, a, x, next, at_i, by simp [split], here, rfl, base, bytes, inv.sound, ?_⟩
        rw [inv.holds.records_eq, split]
        exact (swapRemove_perm r s).trans (List.perm_middle.erase x |>.trans (by simp)).symm

theorem deallocate_consistent (h : Consistent p state) (pointer : ℕ) :
    Ends (deallocate state pointer) (Consistent p) := by
  rcases deallocate_cases h pointer with ⟨_, run⟩ | ⟨i, a, _, b, at_i, _, _, run, base, bytes, sound, _⟩
  · rw [run]
    exact .some h
  · rw [run]
    exact .some (h.set at_i sound base bytes)

theorem arenaForCpu_lt {cpu : ℤ} {index : ℕ} (h : arenaForCpu p cpu = some index) :
    index < kArenaCount p := by
  cases p with
  | spacemitK1A60 =>
      simp only [arenaForCpu] at h
      split at h
      · cases h
      · cases h
        decide
  | spacemitK3A100 =>
      simp only [arenaForCpu] at h
      split at h
      · cases h
      · cases h
        simp only [kArenaCount]
        omega

/-- Either nothing changes and null is returned, or the arena of the CPU gains exactly one
record, at the returned pointer. -/
theorem allocate_cases (h : Consistent p state) (cpu : ℤ) (bytes : ℕ) {alignment : ℕ}
    (small : alignment < 2^64) :
    allocate p state cpu bytes alignment = some (0, state) ∨
    ∃ i a pointer b, arenaForCpu p cpu = some i ∧ state.arenas[i]? = some a ∧ 0 < pointer ∧
      allocate p state cpu bytes alignment =
        some (pointer, { state with arenas := state.arenas.set i b }) ∧
      b.base = a.base ∧ b.bytes = a.bytes ∧ Sound b ∧
      b.records = a.records ++ [⟨pointer, ⟨pointer - a.base, bytes⟩⟩] := by
  unfold allocate
  split
  · exact .inl rfl
  · next ok =>
      simp only [not_or, Bool.not_eq_false] at ok
      split
      · exact .inl rfl
      · next index here =>
          have bound : index < state.arenas.length := h.length ▸ arenaForCpu_lt here
          have at_i : state.arenas[index]? = some state.arenas[index] :=
            List.getElem?_eq_getElem bound
          have sound := h.sound _ (List.getElem_mem bound)
          rw [at_i, Option.bind_some]
          split
          · exact .inl rfl
          · rcases sound.allocateFrom_spec (Nat.pos_of_ne_zero ok.1) ok.2.1 small with
              ⟨run, _⟩ | ⟨p, e, q, aligned, b, split, _, _, _, _, _, _, run, base, total, inv⟩
            · rw [run]
              exact .inl (by simp [set_same at_i])
            · rw [run]
              have mapped := sound.base_pos (e := e) (by simp [split])
              refine .inr ⟨index, _, _, b, here, at_i, by omega, rfl, base, total, inv.sound, ?_⟩
              rw [Nat.add_sub_cancel_left]
              exact inv.holds.records_eq

theorem allocate_consistent (h : Consistent p state) (cpu : ℤ) (bytes : ℕ) {alignment : ℕ}
    (small : alignment < 2^64) :
    Ends (allocate p state cpu bytes alignment) fun (_, next) => Consistent p next := by
  rcases allocate_cases h cpu bytes small with
    run | ⟨i, a, _, b, _, at_i, _, run, base, total, sound, _⟩
  · rw [run]
    exact .some h
  · rw [run]
    exact .some (h.set at_i sound base total)

theorem exec_consistent (h : Consistent p state) (call : Call p) :
    Ends (exec p state call) fun (_, next) => Consistent p next := by
  cases call with
  | initializeTcm mapped => exact (initializeTcm_consistent h mapped.2).map fun _ done => done
  | allocate cpu bytes alignment =>
      exact (allocate_consistent h cpu bytes alignment.2).map fun _ done => done
  | deallocate _ pointer => exact (deallocate_consistent h pointer).map fun _ done => done

theorem Reachable.consistent (h : Reachable p state) : Consistent p state :=
  Reach.invariant (Consistent p) consistent_fresh (fun _ call inv => exec_consistent inv call) h

/-- The run of `calls` on a fresh manager. -/
abbrev runCalls (p : Platform) (calls : List (Call p)) : Option Manager :=
  runAll (exec p) (Manager.fresh p) calls

theorem runCalls_reachable {calls : List (Call p)} (run : runCalls p calls = some state) :
    Reachable p state :=
  Reach.start.runAll run

theorem Consistent.blocks_apart (h : Consistent p state) {i j : ℕ} {a b : Arena} (hij : i < j)
    (ha : state.arenas[i]? = some a) (hb : state.arenas[j]? = some b) {e f : Block}
    (he : e ∈ a.free ++ a.live) (hf : f ∈ b.free ++ b.live) : (a.span e).Apart (b.span f) := by
  have stop : e.stop ≤ a.bytes := by
    have tiles := (h.sound a (List.mem_of_getElem? ha)).tiles
    rcases List.mem_append.mp he with he | he
    · exact tiles.free_stop_le he
    · exact tiles.live_stop_le he
  have stop' : f.stop ≤ b.bytes := by
    have tiles := (h.sound b (List.mem_of_getElem? hb)).tiles
    rcases List.mem_append.mp hf with hf | hf
    · exact tiles.free_stop_le hf
    · exact tiles.live_stop_le hf
  have pos : 0 < e.size := by
    have tiles := (h.sound a (List.mem_of_getElem? ha)).tiles
    rcases List.mem_append.mp he with he | he
    · exact tiles.separated.nonempty e he
    · exact tiles.live_nonempty e he
  have ranges := h.arenas_apart hij ha hb
  simp only [Extent.stop] at stop stop'
  simp only [Extent.Apart, Extent.stop, Arena.span]
  omega

/-- In every reachable state each arena is tiled, its lists stay short of their arrays, the
arenas are disjoint, and the next call ends with every index in range. -/
theorem reachable_tiled (h : Reachable p state) :
    (∀ a ∈ state.arenas, Extent.Tiles a.bytes a.free a.live ∧ a.freeCount < kMaxFreeBlocks ∧
      a.free.length = a.freeCount ∧ a.live.length = a.allocationCount ∧
      ∀ r ∈ a.records, r.pointer = a.base + r.block.offset) ∧
    (∀ (i j : ℕ) (a b : Arena), i ≠ j → state.arenas[i]? = some a → state.arenas[j]? = some b →
      ∀ e ∈ a.free ++ a.live, ∀ f ∈ b.free ++ b.live, (a.span e).Apart (b.span f)) ∧
    ∀ call, ∃ result next, exec p state call = some (result, next) := by
  have inv := h.consistent
  refine ⟨fun a ha => ?_, fun i j a b hij ha hb e he f hf => ?_, fun call => ?_⟩
  · have sound := inv.sound a ha
    refine ⟨sound.tiles, sound.freeCount_lt, sound.holds.free.length, ?_, sound.pointers⟩
    rw [Arena.live, List.length_map]
    exact sound.holds.records.length
  · rcases Nat.lt_or_gt_of_ne hij with lt | gt
    · exact inv.blocks_apart lt ha hb he hf
    · exact (inv.blocks_apart gt hb ha hf he).symm
  · obtain ⟨⟨result, next⟩, run, _⟩ := exec_consistent inv call
    exact ⟨result, next, run⟩

def sampleMapping : Mapping .spacemitK3A100 := ⟨4096, .inr (by decide)⟩

def sample : Manager :=
  (runCalls .spacemitK3A100 [.initializeTcm sampleMapping, .allocate 9 100 64,
    .allocate 9 64 256, .deallocate 8 397312]).get (by decide +kernel)

theorem sample_reachable : Reachable .spacemitK3A100 sample :=
  runCalls_reachable (Option.some_get _).symm

theorem sample_tiled : sample.arenas.length = 8 ∧
    ∀ a ∈ sample.arenas, Extent.Tiles a.bytes a.free a.live :=
  ⟨by decide +kernel, fun a ha => ((reachable_tiled sample_reachable).1 a ha).1⟩

/-- The blocks in use in `sample`, after other calls. -/
def sampleTwin : Manager :=
  (runCalls .spacemitK3A100 [.initializeTcm sampleMapping, .allocate 9 256 64,
    .allocate 9 64 64, .allocate 9 32 64, .deallocate 2 397312, .deallocate 5 397632]).get (by decide +kernel)

theorem sampleTwin_reachable : Reachable .spacemitK3A100 sampleTwin :=
  runCalls_reachable (Option.some_get _).symm

end Pfng.Tcm
