import Pfng.Lib.Tiling
import Pfng.Tcm.Arena

/-! Each array operation of an arena is the list operation it stands for. -/
namespace Pfng.Tcm
open Checked

/-- `next` is `arena` with `free` as its list of free blocks. -/
def HasFree (arena : Arena) (free : List Block) (next : Arena) : Prop :=
  Stored next.freeBlocks next.freeCount free ∧
    next = { arena with freeBlocks := next.freeBlocks, freeCount := next.freeCount }

section Free

variable {arena : Arena} {p q : List Block} {e : Block} {aligned bytes : ℕ}

theorem splitFree_spec (h : Stored arena.freeBlocks arena.freeCount (p ++ e :: q))
    (room : arena.freeCount < kMaxFreeBlocks) (low : e.offset ≤ aligned)
    (high : aligned + bytes ≤ e.stop) :
    Ends (splitFree arena p.length e (aligned - e.offset) (aligned + bytes)
      (e.stop - (aligned + bytes)))
      (HasFree arena (p ++ (e.carve aligned bytes ++ q))) := by
  have stop : e.stop = e.offset + e.size := rfl
  unfold splitFree Extent.carve
  by_cases lead : aligned = e.offset
  · by_cases suffix : aligned + bytes = e.stop
    · -- the block is used up
      rw [if_neg (by omega), if_neg (by omega), if_neg (by omega), if_pos lead, if_pos suffix]
      exact h.remove.map fun blocks stored => ⟨by simpa using stored, rfl⟩
    · rw [if_neg (by omega), if_neg (by omega), if_pos (by omega), if_pos lead, if_neg suffix]
      exact h.replace.map fun blocks stored => ⟨by simpa using stored, rfl⟩
  · by_cases suffix : aligned + bytes = e.stop
    · rw [if_neg (by omega), if_pos (by omega), if_neg lead, if_pos suffix]
      exact h.replace.map fun blocks stored => ⟨by simpa using stored, rfl⟩
    · -- a slot is opened after the block, then both are overwritten
      rw [if_pos (by omega), if_neg lead, if_neg suffix]
      rw [show p ++ e :: q = (p ++ [e]) ++ q by simp] at h
      have opened := h.open_slot room
      rw [List.length_append, List.length_singleton] at opened
      refine opened.bind fun blocks ⟨w, stored⟩ => ?_
      rw [show (p ++ [e]) ++ w :: q = p ++ e :: w :: q by simp] at stored
      refine (stored.replace (w := ⟨e.offset, aligned - e.offset⟩)).bind fun blocks stored => ?_
      rw [show ∀ v : Block, p ++ v :: w :: q = (p ++ [v]) ++ w :: q by simp] at stored
      have last := stored.replace
        (w := ⟨aligned + bytes, e.stop - (aligned + bytes)⟩)
      rw [List.length_append, List.length_singleton] at last
      exact last.map fun blocks stored => ⟨by simpa using stored, rfl⟩

theorem insertionIndex_spec (offset : ℕ) (h : Stored arena.freeBlocks arena.freeCount (p ++ q)) :
    ∃ r s, q = r ++ s ∧ (∀ f ∈ r, f.offset < offset) ∧ (∀ f, s.head? = some f → offset ≤ f.offset) ∧
      insertionIndex arena offset p.length q.length = some (p ++ r).length := by
  induction q generalizing p with
  | nil => exact ⟨[], [], rfl, by simp, by simp, by simp [insertionIndex]⟩
  | cons e q ih =>
      simp only [List.length_cons, insertionIndex, h.load, Option.bind_some]
      by_cases before : e.offset < offset
      · obtain ⟨r, s, rfl, below, above, run⟩ := ih (p := p ++ [e]) (by simpa using h)
        refine ⟨e :: r, s, rfl, ?_, above, ?_⟩
        · simpa [before] using below
        · rw [if_pos before]
          simpa using run
      · refine ⟨[], e :: q, rfl, by simp, ?_, by simp [before]⟩
        intro f hf
        obtain rfl : e = f := by simpa using hf
        omega

theorem mergeLeft_eq {b : Block} (h : Stored arena.freeBlocks arena.freeCount (p ++ e :: b :: q)) :
    mergeLeft arena (p.length + 1) =
      if e.stop = b.offset then
        (put arena.freeBlocks p.length ⟨e.offset, e.size + b.size⟩).bind fun blocks =>
        (shiftDown blocks (p.length + 1) arena.freeCount).map fun blocks =>
          (p.length, { arena with freeBlocks := blocks, freeCount := arena.freeCount - 1 })
      else some (p.length + 1, arena) := by
  have second := h
  rw [show p ++ e :: b :: q = (p ++ [e]) ++ b :: q by simp] at second
  have here := second.load
  rw [List.length_append, List.length_singleton] at here
  simp only [mergeLeft, Nat.add_one_ne_zero, if_false, Nat.add_sub_cancel, h.load, here,
    Option.bind_some]
  rfl

theorem mergeLeft_touch {b : Block} (h : Stored arena.freeBlocks arena.freeCount (p ++ e :: b :: q))
    (touch : e.stop = b.offset) :
    Ends (mergeLeft arena (p.length + 1)) fun (index, next) =>
      index = p.length ∧ HasFree arena (p ++ ⟨e.offset, e.size + b.size⟩ :: q) next := by
  rw [mergeLeft_eq h, if_pos touch]
  refine h.replace.bind fun blocks stored => ?_
  rw [show ∀ v : Block, p ++ v :: b :: q = (p ++ [v]) ++ b :: q by simp] at stored
  have removed := stored.remove
  rw [List.length_append, List.length_singleton] at removed
  exact removed.map fun blocks stored => ⟨rfl, by simpa using stored, rfl⟩

theorem mergeRight_spec {b : Block} (h : Stored arena.freeBlocks arena.freeCount (p ++ b :: q)) :
    Ends (mergeRight arena p.length) (HasFree arena (p ++ Extent.joinRight b q)) := by
  have len := h.length
  simp only [List.length_append, List.length_cons] at len
  unfold mergeRight
  cases q with
  | nil =>
      rw [List.length_nil] at len
      rw [if_neg (by omega)]
      exact .some ⟨h, rfl⟩
  | cons f q =>
      rw [List.length_cons] at len
      have second := h
      rw [show p ++ b :: f :: q = (p ++ [b]) ++ f :: q by simp] at second
      have after := second.load
      rw [List.length_append, List.length_singleton] at after
      rw [if_pos (by omega), h.load, Option.bind_some, after, Option.bind_some]
      by_cases touch : b.stop = f.offset
      · rw [if_pos (show b.offset + b.size = f.offset from touch), Extent.joinRight, if_pos touch]
        refine h.replace.bind fun blocks stored => ?_
        rw [show ∀ v : Block, p ++ v :: f :: q = (p ++ [v]) ++ f :: q by simp] at stored
        have removed := stored.remove
        rw [List.length_append, List.length_singleton] at removed
        exact removed.map fun blocks stored => ⟨by simpa using stored, rfl⟩
      · rw [if_neg (show ¬ b.offset + b.size = f.offset from touch), Extent.joinRight, if_neg touch]
        exact .some ⟨h, rfl⟩

theorem HasFree.trans {free free' : List Block} {next last : Arena} (h : HasFree arena free next)
    (h' : HasFree next free' last) : HasFree arena free' last := by
  refine ⟨h'.1, ?_⟩
  rw [h'.2, h.2]

/-- `insertFreeBlock` is `join` at the place of the block's offset. -/
theorem insertFreeBlock_spec {free : List Block} (b : Block)
    (h : Stored arena.freeBlocks arena.freeCount free) (room : arena.freeCount < kMaxFreeBlocks) :
    ∃ p q, free = p ++ q ∧ (∀ e ∈ p, e.offset < b.offset) ∧
      (∀ f, q.head? = some f → b.offset ≤ f.offset) ∧
      Ends (insertFreeBlock arena b) (HasFree arena (Extent.join p b q)) := by
  obtain ⟨p, q, rfl, below, above, found⟩ := insertionIndex_spec (p := []) b.offset h
  refine ⟨p, q, rfl, below, above, ?_⟩
  have len := h.length
  rw [List.nil_append, len, List.length_nil] at found
  unfold insertFreeBlock
  rw [found, Option.bind_some]
  refine (h.open_slot room).bind fun blocks ⟨w, stored⟩ => ?_
  refine (stored.replace (w := b)).bind fun blocks stored => ?_
  -- the block now has its slot; `filled` is the arena at this point
  generalize hf : ({ arena with freeBlocks := blocks, freeCount := arena.freeCount + 1 } : Arena) =
    filled
  have base : HasFree arena (p ++ b :: q) filled := by
    subst hf
    exact ⟨stored, rfl⟩
  rcases List.eq_nil_or_concat p with rfl | ⟨p, e, rfl⟩
  · exact (mergeRight_spec base.1).mono fun next free => base.trans free
  · rw [List.concat_eq_append] at *
    have slot : Stored filled.freeBlocks filled.freeCount (p ++ e :: b :: q) := by
      simpa using base.1
    rw [List.length_append, List.length_singleton, Extent.join_concat]
    by_cases touch : e.stop = b.offset
    · rw [if_pos touch]
      refine (mergeLeft_touch slot touch).bind fun (index, next) ⟨same, free⟩ => ?_
      dsimp only at same ⊢
      rw [same]
      exact (mergeRight_spec free.1).mono fun last done => (base.trans free).trans done
    · rw [if_neg touch, mergeLeft_eq slot, if_neg touch, Option.bind_some]
      have right := mergeRight_spec base.1
      rw [List.length_append, List.length_singleton] at right
      exact right.mono fun last done => base.trans done

end Free

/-- The arrays of `arena` hold the free blocks `free` and the records `records`. -/
structure Holds (arena : Arena) (free : List Block) (records : List Allocation) : Prop where
  free : Stored arena.freeBlocks arena.freeCount free
  records : Stored arena.allocations arena.allocationCount records

theorem Holds.free_eq {arena : Arena} {free : List Block} {records : List Allocation}
    (h : Holds arena free records) : arena.free = free := h.free.take_eq

theorem Holds.records_eq {arena : Arena} {free : List Block} {records : List Allocation}
    (h : Holds arena free records) : arena.records = records := h.records.take_eq

section Records

variable {arena : Arena} {free p q : List Block} {records r s : List Allocation} {e : Block}
variable {aligned bytes pointer : ℕ}

theorem takeBlock_spec (h : Holds arena (p ++ e :: q) records)
    (room : arena.freeCount < kMaxFreeBlocks) (slot : arena.allocationCount < kMaxAllocations)
    (fits : ¬ Misfit e aligned bytes) :
    Ends (takeBlock arena p.length e aligned bytes) fun (result, next) =>
      result = arena.base + aligned ∧ next.base = arena.base ∧ next.bytes = arena.bytes ∧
        Holds next (p ++ (e.carve aligned bytes ++ q))
          (records ++ [⟨arena.base + aligned, ⟨aligned, bytes⟩⟩]) := by
  simp only [Misfit, not_or, not_lt] at fits
  unfold takeBlock
  rw [if_neg (by omega)]
  have high : aligned + bytes ≤ e.stop := by
    simp only [Extent.stop]
    omega
  refine (splitFree_spec h.free room fits.1 high).bind fun next split => ?_
  obtain ⟨stored, frame⟩ := split
  have same : next.allocations = arena.allocations ∧ next.allocationCount = arena.allocationCount ∧
      next.base = arena.base ∧ next.bytes = arena.bytes := by
    rw [frame]
    exact ⟨rfl, rfl, rfl, rfl⟩
  obtain ⟨allocations, count, base, total⟩ := same
  have recorded := h.records.push (v := ⟨next.base + aligned, ⟨aligned, bytes⟩⟩) slot
  rw [allocations, count]
  refine recorded.map fun table recorded => ⟨by rw [base], base, total, stored, ?_⟩
  rwa [base] at recorded

theorem scanFree_spec (place : Block → ℕ) (bytes : ℕ)
    (h : Stored arena.freeBlocks arena.freeCount (p ++ q)) :
    ((∀ f ∈ q, Misfit f (place f) bytes) ∧
      scanFree arena place bytes p.length q.length = some (0, arena)) ∨
    ∃ q₁ f q₂, q = q₁ ++ f :: q₂ ∧ (∀ g ∈ q₁, Misfit g (place g) bytes) ∧
      ¬ Misfit f (place f) bytes ∧
      scanFree arena place bytes p.length q.length =
        takeBlock arena (p ++ q₁).length f (place f) bytes := by
  induction q generalizing p with
  | nil => exact .inl ⟨by simp, rfl⟩
  | cons f q ih =>
      simp only [List.length_cons, scanFree, h.load, Option.bind_some]
      by_cases fits : Misfit f (place f) bytes
      · rw [if_pos fits]
        have later := ih (p := p ++ [f]) (by simpa using h)
        rw [List.length_append, List.length_singleton] at later
        rcases later with ⟨none, run⟩ | ⟨q₁, g, q₂, rfl, before, here, run⟩
        · exact .inl ⟨by simpa [fits] using none, run⟩
        · refine .inr ⟨f :: q₁, g, q₂, rfl, by simpa [fits] using before, here, ?_⟩
          rw [run]
          simp
      · rw [if_neg fits]
        exact .inr ⟨[], f, q, rfl, by simp, fits, by simp⟩

theorem findAllocation_spec (pointer : ℕ)
    (h : Stored arena.allocations arena.allocationCount (r ++ s)) :
    ((∀ a ∈ s, a.pointer ≠ pointer) ∧
      findAllocation arena pointer r.length s.length = some none) ∨
    ∃ s₁ a s₂, s = s₁ ++ a :: s₂ ∧ a.pointer = pointer ∧
      findAllocation arena pointer r.length s.length = some (some (r ++ s₁).length) := by
  induction s generalizing r with
  | nil => exact .inl ⟨by simp, rfl⟩
  | cons a s ih =>
      simp only [List.length_cons, findAllocation, h.load, Option.bind_some]
      by_cases found : a.pointer = pointer
      · rw [if_neg (not_not.mpr found)]
        exact .inr ⟨[], a, s, rfl, found, by simp⟩
      · rw [if_pos found]
        have later := ih (r := r ++ [a]) (by simpa using h)
        rw [List.length_append, List.length_singleton] at later
        rcases later with ⟨none, run⟩ | ⟨s₁, b, s₂, rfl, here, run⟩
        · exact .inl ⟨by simpa [found] using none, run⟩
        · refine .inr ⟨a :: s₁, b, s₂, rfl, here, ?_⟩
          rw [run]
          simp

theorem dropAllocation_spec {a : Allocation} (h : Holds arena free (r ++ a :: s))
    (room : arena.freeCount < kMaxFreeBlocks) :
    ∃ p q, free = p ++ q ∧ (∀ e ∈ p, e.offset < a.block.offset) ∧
      (∀ f, q.head? = some f → a.block.offset ≤ f.offset) ∧
      Ends (dropAllocation arena r.length) fun next =>
        next.base = arena.base ∧ next.bytes = arena.bytes ∧
          Holds next (Extent.join p a.block q) (swapRemove r s) := by
  obtain ⟨table, moved, stored⟩ := h.records.swap_remove
  let shorter : Arena :=
    { arena with allocations := table, allocationCount := arena.allocationCount - 1 }
  have free : Stored shorter.freeBlocks shorter.freeCount free := h.free
  obtain ⟨p, q, rfl, below, above, run⟩ := insertFreeBlock_spec a.block free room
  refine ⟨p, q, rfl, below, above, ?_⟩
  unfold dropAllocation
  rw [h.records.load, Option.bind_some, moved, Option.bind_some, if_pos room]
  refine run.mono fun next ⟨joined, frame⟩ => ?_
  rw [frame]
  exact ⟨rfl, rfl, joined, stored⟩

end Records

end Pfng.Tcm
