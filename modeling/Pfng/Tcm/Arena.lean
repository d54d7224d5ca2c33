import Mathlib.Algebra.Group.Nat.Defs
import Pfng.Lib.Slots
import Pfng.Lib.Extents

/-! One TCM arena as the allocator keeps it: two fixed arrays with counts, addresses in
64-bit wrapping arithmetic, and `0` for the null pointer. Every array access is checked. -/
namespace Pfng.Tcm
open Checked

def kMaxAllocations : ℕ := 256
def kMaxFreeBlocks : ℕ := kMaxAllocations + 2

abbrev Block := Extent

structure Allocation where
  pointer : ℕ
  block : Block
  deriving DecidableEq, Repr

structure Arena where
  base : ℕ
  bytes : ℕ
  freeBlocks : Vector Block kMaxFreeBlocks
  allocations : Vector Allocation kMaxAllocations
  freeCount : ℕ
  allocationCount : ℕ
  deriving DecidableEq, Repr

/-- A default-constructed arena. -/
def Arena.unmapped : Arena where
  base := 0
  bytes := 0
  freeBlocks := Vector.replicate _ ⟨0, 0⟩
  allocations := Vector.replicate _ ⟨0, ⟨0, 0⟩⟩
  freeCount := 0
  allocationCount := 0

def Arena.reset (arena : Arena) (newBase newBytes : ℕ) : Option Arena :=
  if newBase = 0 then
    some { arena with base := newBase, bytes := newBytes, freeCount := 0, allocationCount := 0 }
  else
    (put arena.freeBlocks 0 ⟨0, newBytes⟩).map fun blocks =>
      { arena with
        base := newBase, bytes := newBytes, freeBlocks := blocks, freeCount := 1
        allocationCount := 0 }

/-- `value != 0 && (value & (value - 1)) == 0`. -/
def isPowerOfTwo (value : ℕ) : Bool := value ≠ 0 && value &&& (value - 1) == 0

/-- `(value + alignment - 1) & ~uintptr_t(alignment - 1)`. -/
def alignUp (value alignment : ℕ) : ℕ :=
  (value + alignment - 1) % 2^64 &&& (2^64 - 1 - (alignment - 1))

/-- `size_t(address - base)` for the aligned address of a free block. -/
def alignedOffset (base alignment : ℕ) (free : Block) : ℕ :=
  (alignUp (base + free.offset) alignment + 2^64 - base) % 2^64

/-- The test that sends the scan to the next block. -/
def Misfit (free : Block) (aligned bytes : ℕ) : Prop :=
  aligned < free.offset ∨ aligned - free.offset > free.size ∨
    bytes > free.size - (aligned - free.offset)

instance (free : Block) (aligned bytes : ℕ) : Decidable (Misfit free aligned bytes) :=
  inferInstanceAs (Decidable (_ ∨ _))

/-- The four ways a free block is cut: `lead` bytes stay before the allocation, `suffix` bytes after. -/
def splitFree (arena : Arena) (index : ℕ) (free : Block) (lead suffixOffset suffix : ℕ) :
    Option Arena :=
  if lead ≠ 0 ∧ suffix ≠ 0 then
    (shiftUp arena.freeBlocks (index+1) arena.freeCount).bind fun blocks =>
    (put blocks index ⟨free.offset, lead⟩).bind fun blocks =>
    (put blocks (index+1) ⟨suffixOffset, suffix⟩).map fun blocks =>
      { arena with freeBlocks := blocks, freeCount := arena.freeCount + 1 }
  else if lead ≠ 0 then
    (put arena.freeBlocks index ⟨free.offset, lead⟩).map fun blocks =>
      { arena with freeBlocks := blocks }
  else if suffix ≠ 0 then
    (put arena.freeBlocks index ⟨suffixOffset, suffix⟩).map fun blocks =>
      { arena with freeBlocks := blocks }
  else
    (shiftDown arena.freeBlocks index arena.freeCount).map fun blocks =>
      { arena with freeBlocks := blocks, freeCount := arena.freeCount - 1 }

/-- The loop body once the block at `index` fits. -/
def takeBlock (arena : Arena) (index : ℕ) (free : Block) (aligned bytes : ℕ) :
    Option (ℕ × Arena) :=
  let lead := aligned - free.offset
  let suffixOffset := aligned + bytes
  let suffix := free.offset + free.size - suffixOffset
  if lead ≠ 0 ∧ suffix ≠ 0 ∧ arena.freeCount = kMaxFreeBlocks then some (0, arena)
  else
    (splitFree arena index free lead suffixOffset suffix).bind fun arena =>
    let pointer := arena.base + aligned
    (put arena.allocations arena.allocationCount ⟨pointer, ⟨aligned, bytes⟩⟩).map fun allocations =>
      (pointer,
        { arena with allocations := allocations, allocationCount := arena.allocationCount + 1 })

/-- The scan from `index` with `n` blocks left to look at; `place` gives the aligned offset of
a free block. -/
def scanFree (arena : Arena) (place : Block → ℕ) (bytes : ℕ) : ℕ → ℕ → Option (ℕ × Arena)
  | _, 0 => some (0, arena)
  | index, n+1 =>
      arena.freeBlocks[index]?.bind fun free =>
        if Misfit free (place free) bytes then scanFree arena place bytes (index+1) n
        else takeBlock arena index free (place free) bytes

def allocateFrom (arena : Arena) (bytes alignment : ℕ) : Option (ℕ × Arena) :=
  if arena.base = 0 ∨ arena.allocationCount = kMaxAllocations then some (0, arena)
  else scanFree arena (alignedOffset arena.base alignment) bytes 0 arena.freeCount

/-- `while (index < free_count && free_blocks[index].offset < offset) ++index`, with `n`
blocks left. -/
def insertionIndex (arena : Arena) (offset : ℕ) : ℕ → ℕ → Option ℕ
  | index, 0 => some index
  | index, n+1 =>
      arena.freeBlocks[index]?.bind fun free =>
        if free.offset < offset then insertionIndex arena offset (index+1) n else some index

/-- Coalescing with the block before `index`; the result carries the new index. -/
def mergeLeft (arena : Arena) (index : ℕ) : Option (ℕ × Arena) :=
  if index = 0 then some (index, arena)
  else
    arena.freeBlocks[index-1]?.bind fun left =>
    arena.freeBlocks[index]?.bind fun here =>
      if left.offset + left.size = here.offset then
        (put arena.freeBlocks (index-1) ⟨left.offset, left.size + here.size⟩).bind fun blocks =>
        (shiftDown blocks index arena.freeCount).map fun blocks =>
          (index - 1, { arena with freeBlocks := blocks, freeCount := arena.freeCount - 1 })
      else some (index, arena)

/-- Coalescing with the block after `index`. -/
def mergeRight (arena : Arena) (index : ℕ) : Option Arena :=
  if index + 1 < arena.freeCount then
    arena.freeBlocks[index]?.bind fun here =>
    arena.freeBlocks[index+1]?.bind fun right =>
      if here.offset + here.size = right.offset then
        (put arena.freeBlocks index ⟨here.offset, here.size + right.size⟩).bind fun blocks =>
        (shiftDown blocks (index+1) arena.freeCount).map fun blocks =>
          { arena with freeBlocks := blocks, freeCount := arena.freeCount - 1 }
      else some arena
  else some arena

def insertFreeBlock (arena : Arena) (block : Block) : Option Arena :=
  (insertionIndex arena block.offset 0 arena.freeCount).bind fun index =>
  (shiftUp arena.freeBlocks index arena.freeCount).bind fun blocks =>
  (put blocks index block).bind fun blocks =>
  (mergeLeft { arena with freeBlocks := blocks, freeCount := arena.freeCount + 1 } index).bind
    fun (index, arena) => mergeRight arena index

/-- The first record of `pointer` from `index` on, with `n` records left. -/
def findAllocation (arena : Arena) (pointer : ℕ) : ℕ → ℕ → Option (Option ℕ)
  | _, 0 => some none
  | index, n+1 =>
      arena.allocations[index]?.bind fun allocation =>
        if allocation.pointer ≠ pointer then findAllocation arena pointer (index+1) n
        else some (some index)

/-- The record at `index` is dropped by moving the last record over it. -/
def dropAllocation (arena : Arena) (index : ℕ) : Option Arena :=
  arena.allocations[index]?.bind fun allocation =>
  (arena.allocations[arena.allocationCount - 1]?.bind (put arena.allocations index)).bind
    fun allocations =>
    let arena :=
      { arena with allocations := allocations, allocationCount := arena.allocationCount - 1 }
    if arena.freeCount < kMaxFreeBlocks then insertFreeBlock arena allocation.block
    else some arena

/-- What `deallocate` does to the arena whose range holds `pointer`. -/
def deallocateIn (arena : Arena) (pointer : ℕ) : Option Arena :=
  (findAllocation arena pointer 0 arena.allocationCount).bind fun
    | none => some arena
    | some index => dropAllocation arena index

/-- `free_blocks[0..free_count)`. -/
def Arena.free (arena : Arena) : List Block := arena.freeBlocks.toList.take arena.freeCount

/-- `allocations[0..allocation_count)`. -/
def Arena.records (arena : Arena) : List Allocation :=
  arena.allocations.toList.take arena.allocationCount

def Arena.live (arena : Arena) : List Block := arena.records.map Allocation.block

def Arena.span (arena : Arena) (block : Block) : Extent := ⟨arena.base + block.offset, block.size⟩

end Pfng.Tcm
