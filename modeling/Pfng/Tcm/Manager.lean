import Mathlib.Algebra.NeZero
import Pfng.Tcm.Arena

/-! The process-wide TCM manager: the call interface over the platform's arenas. Each call
is one step; `sched_getcpu` and the mapping are inputs of the step. -/
namespace Pfng.Tcm
open Checked

inductive Platform
  | spacemitK1A60
  | spacemitK3A100
  deriving DecidableEq, Repr

def kCapacity : Platform → ℕ
  | .spacemitK1A60 => 512 <<< 10
  | .spacemitK3A100 => 3 <<< 20

def kGranule : Platform → ℕ
  | .spacemitK1A60 => 128 <<< 10
  | .spacemitK3A100 => 384 <<< 10

def kFirstCpu : Platform → ℤ
  | .spacemitK1A60 => 0
  | .spacemitK3A100 => 8

def kCpuCount : Platform → ℕ
  | .spacemitK1A60 => 4
  | .spacemitK3A100 => 8

def kArenaCount : Platform → ℕ
  | .spacemitK1A60 => 1
  | .spacemitK3A100 => kCpuCount .spacemitK3A100

/-- The size each arena is reset with. -/
def arenaBytes : Platform → ℕ
  | .spacemitK1A60 => kCapacity .spacemitK1A60
  | .spacemitK3A100 => kGranule .spacemitK3A100

/-- A `size_t` or pointer argument. -/
abbrev Word := Fin (2^64)

/-- A result of `map_tcm`: null, or a base whose mapping does not wrap. -/
abbrev Mapping (p : Platform) := { base : ℕ // base = 0 ∨ base + kCapacity p < 2^64 }

structure Manager where
  initializeOnce : Bool
  base : ℕ
  initializationSucceeded : Bool
  arenas : List Arena
  deriving DecidableEq, Repr

def Manager.fresh (p : Platform) : Manager :=
  ⟨false, 0, false, List.replicate (kArenaCount p) Arena.unmapped⟩

def arenaForCpu (p : Platform) (cpu : ℤ) : Option ℕ :=
  match p with
  | .spacemitK1A60 =>
      if cpu < kFirstCpu p ∨ cpu ≥ kFirstCpu p + kCpuCount p then none else some 0
  | .spacemitK3A100 =>
      let index := cpu - kFirstCpu p
      if index < 0 ∨ index ≥ kCpuCount p then none else some index.toNat

/-- `arenas[index].reset(base + index * bytes, bytes)` for every arena. On the A60 this is the
one call `arenas[0].reset(base, kCapacity)`. -/
def resetArenas (p : Platform) (base : ℕ) (arenas : List Arena) : Option (List Arena) :=
  forUp (fun index arenas =>
    arenas[index]?.bind fun arena =>
    (arena.reset (base + index * arenaBytes p) (arenaBytes p)).map (arenas.set index))
    0 (kArenaCount p) arenas

def initializeTcm (p : Platform) (state : Manager) (mapped : ℕ) : Option (Bool × Manager) :=
  if state.initializeOnce then some (state.initializationSucceeded, state)
  else if mapped = 0 then some (false, ⟨true, mapped, false, state.arenas⟩)
  else
    (resetArenas p mapped state.arenas).map fun arenas => (true, ⟨true, mapped, true, arenas⟩)

def allocate (p : Platform) (state : Manager) (cpu : ℤ) (bytes alignment : ℕ) :
    Option (ℕ × Manager) :=
  if bytes = 0 ∨ isPowerOfTwo alignment = false ∨ state.initializationSucceeded = false then
    some (0, state)
  else
    match arenaForCpu p cpu with
    | none => some (0, state)
    | some index =>
        state.arenas[index]?.bind fun arena =>
          if bytes > arena.bytes then some (0, state)
          else
            (allocateFrom arena bytes alignment).map fun (pointer, arena) =>
              (pointer, { state with arenas := state.arenas.set index arena })

/-- The loop of `deallocate` over the arenas: the first one whose range holds the pointer
ends it. -/
def deallocateAmong (pointer : ℕ) : List Arena → Option (List Arena)
  | [] => some []
  | arena :: arenas =>
      if arena.base = 0 ∨ pointer < arena.base ∨ pointer ≥ (arena.base + arena.bytes) % 2^64 then
        (deallocateAmong pointer arenas).map (arena :: ·)
      else (deallocateIn arena pointer).map (· :: arenas)

def deallocate (state : Manager) (pointer : ℕ) : Option Manager :=
  if pointer = 0 then some state
  else (deallocateAmong pointer state.arenas).map fun arenas => { state with arenas := arenas }

inductive Call (p : Platform)
  | initializeTcm (mapped : Mapping p)
  | allocate (cpu : ℤ) (bytes alignment : Word)
  | deallocate (cpu : ℤ) (pointer : Word)

inductive Result
  | initialized (success : Bool)
  | pointer (address : ℕ)
  | done
  deriving DecidableEq, Repr

/-- One call from any CPU. `deallocate` does not ask which CPU it runs on. -/
def exec (p : Platform) (state : Manager) : Call p → Option (Result × Manager)
  | .initializeTcm mapped =>
      (initializeTcm p state mapped).map fun (success, next) => (.initialized success, next)
  | .allocate cpu bytes alignment =>
      (allocate p state cpu bytes alignment).map fun (address, next) => (.pointer address, next)
  | .deallocate _ pointer => (deallocate state pointer).map fun next => (.done, next)

abbrev Reachable (p : Platform) : Manager → Prop := Reach (Manager.fresh p) (exec p)

end Pfng.Tcm
