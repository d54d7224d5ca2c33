import Mathlib.Data.BitVec
import Pfng.Lib.Memory

/-! Byte buffers that hold scalars beside integers. A scalar is in its bytes only as a whole, and
every byte counts its stores. -/
namespace Checked

/-- A byte: eight bits, or byte `i` of a float or of a half. -/
inductive Part (α : Type*)
  | bits (b : BitVec 8)
  | float (v : α) (i : ℕ)
  | half (v : α) (i : ℕ)
  deriving DecidableEq

structure Byte (α : Type*) where
  value : Part α
  writes : ℕ

def int16Part {α : Type*} (x : BitVec 16) (i : ℕ) : Part α := .bits (x.extractLsb' (8 * i) 8)

section Accesses

variable {κ α : Type*}

def Memory.storeParts [DecidableEq κ] (m : Memory κ fun _ => Byte α) (k : κ) (base n : ℕ)
    (part : ℕ → Part α) : Option (Memory κ fun _ => Byte α) :=
  forUp (fun i m => m.store k (base + i) ⟨part i, (m.cell k (base + i)).writes + 1⟩) 0 n m

def Memory.storeInt8 [DecidableEq κ] (m : Memory κ fun _ => Byte α) (k : κ) (i : ℕ) (b : BitVec 8) :=
  m.storeParts k i 1 fun _ => .bits b

def Memory.storeInt16 [DecidableEq κ] (m : Memory κ fun _ => Byte α) (k : κ) (i : ℕ) (x : BitVec 16) :=
  m.storeParts k i 2 (int16Part x)

def Memory.storeFloat [DecidableEq κ] (m : Memory κ fun _ => Byte α) (k : κ) (i : ℕ) (v : α) :=
  m.storeParts k i 4 (.float v)

def Memory.storeHalf [DecidableEq κ] (m : Memory κ fun _ => Byte α) (k : κ) (i : ℕ) (v : α) :=
  m.storeParts k i 2 (.half v)

def Memory.loadInt8 (m : Memory κ fun _ => Byte α) (k : κ) (i : ℕ) : Option (BitVec 8) :=
  (m.load k i).bind fun (byte : Byte α) => match byte.value with
    | .bits b => some b
    | _ => none

def Memory.loadInt16 (m : Memory κ fun _ => Byte α) (k : κ) (i : ℕ) : Option (BitVec 16) :=
  (m.loadInt8 k i).bind fun low => (m.loadInt8 k (i + 1)).map fun high => high ++ low

/-- The bytes of `part`, as they are stored. -/
def Memory.HasParts (m : Memory κ fun _ => Byte α) (k : κ) (base n : ℕ) (part : ℕ → Part α) : Prop :=
  ∀ i < n, base + i < m.size k ∧ (m.cell k (base + i)).value = part i

variable [DecidableEq α]

instance (m : Memory κ fun _ => Byte α) (k : κ) (base n : ℕ) (part : ℕ → Part α) :
    Decidable (m.HasParts k base n part) :=
  inferInstanceAs (Decidable (∀ i < n, base + i < m.size k ∧ (m.cell k (base + i)).value = part i))

def Memory.loadFloat (m : Memory κ fun _ => Byte α) (k : κ) (i : ℕ) : Option α :=
  (m.load k i).bind fun (byte : Byte α) => match byte.value with
    | .float v _ => if m.HasParts k i 4 (.float v) then some v else none
    | _ => none

def Memory.loadHalf (m : Memory κ fun _ => Byte α) (k : κ) (i : ℕ) : Option α :=
  (m.load k i).bind fun (byte : Byte α) => match byte.value with
    | .half v _ => if m.HasParts k i 2 (.half v) then some v else none
    | _ => none

end Accesses

section Packing

variable {κ α : Type*} {size : κ → ℕ} {u v : Contents κ fun _ => Byte α} {S T : Region κ}
variable {c d : Memory κ (fun _ => Byte α) → Option (Memory κ fun _ => Byte α)}

/-- From the bytes `u`, the program makes the bytes `v` in all of `S`, and touches no others. -/
def Packs (size : κ → ℕ) (u : Contents κ fun _ => Byte α)
    (c : Memory κ (fun _ => Byte α) → Option (Memory κ fun _ => Byte α))
    (v : Contents κ fun _ => Byte α) (S : Region κ) : Prop := Effect size u S c v S S

/-- `n` bytes from `base` on. -/
def Span (k : κ) (base n : ℕ) : Region κ := fun k' x => k' = k ∧ ∃ i < n, x = base + i

theorem Packs.weaken (h : Packs size u c v S) (same : ∀ k x, T k x ↔ S k x) : Packs size u c v T := by
  have eq : T = S := by
    funext k x
    exact propext (same k x)
  exact eq ▸ h

theorem Packs.seq (hc : Packs size u c v S) (hd : Packs size u d v T)
    (apart : ∀ k x, T k x → ¬ S k x) :
    Packs size u (fun m => (c m).bind d) v fun k x => S k x ∨ T k x :=
  hc.seqOwn hd apart fun k x hS hT => apart k x hT hS

theorem Packs.loop {body : ℕ → Memory κ (fun _ => Byte α) → Option (Memory κ fun _ => Byte α)}
    {S : ℕ → Region κ} {n : ℕ} (each : ∀ i < n, Packs size u (body i) v (S i))
    (apart : ∀ i < n, ∀ j < n, ∀ k x, S i k x → S j k x → i = j) :
    Packs size u (forUp body 0 n) v fun k x => ∃ i < n, S i k x := by
  refine Effect.loopOwn each fun i j lt inside => ⟨fun k x hj hi => ?_, fun k x hi hj => ?_⟩
  · have := apart i (lt.trans inside) j inside k x hi hj
    omega
  · have := apart i (lt.trans inside) j inside k x hi hj
    omega

/-- Bytes without a store so far get their first one. -/
theorem Packs.storeParts [DecidableEq κ] {k : κ} {base n : ℕ} {part : ℕ → Part α}
    (bound : base + n ≤ size k) (fresh : ∀ i < n, (u k (base + i)).writes = 0)
    (value : ∀ i < n, v k (base + i) = ⟨part i, 1⟩) :
    Packs size u (fun m => m.storeParts k base n part) v (Span k base n) := by
  have each : ∀ i < n, Packs size u
      (fun m : Memory κ fun _ => Byte α =>
        m.store k (base + i) ⟨part i, (m.cell k (base + i)).writes + 1⟩) v
      (fun k' x => k' = k ∧ x = base + i) := by
    intro i hi m sizes holds
    have cell := holds k (base + i) ⟨rfl, rfl⟩
    have stored : Fills size u (fun _ _ => False)
        (fun m : Memory κ fun _ => Byte α => m.store k (base + i) ⟨part i, 1⟩) v _ :=
      Fills.store (by omega) (value i hi).symm
    dsimp only
    rw [cell, fresh i hi]
    exact stored m sizes fun _ _ no => no.elim
  refine (Packs.loop each ?_).weaken ?_
  · rintro i _ j _ k' x ⟨_, rfl⟩ ⟨_, same⟩
    omega
  · intro k' x
    constructor
    · rintro ⟨rfl, i, hi, rfl⟩
      exact ⟨i, hi, rfl, rfl⟩
    · rintro ⟨i, hi, rfl, rfl⟩
      exact ⟨rfl, i, hi, rfl⟩

end Packing

section Loads

variable {κ α : Type*} {m : Memory κ fun _ => Byte α} {k : κ} {i : ℕ}

theorem loadInt8_eq {b : BitVec 8} (bound : i < m.size k) (byte : (m.cell k i).value = .bits b) :
    m.loadInt8 k i = some b := by
  rw [Memory.loadInt8, Memory.load, if_pos bound, Option.bind_some, byte]

theorem int16_of_bytes (x : BitVec 16) : x.extractLsb' 8 8 ++ x.extractLsb' 0 8 = x := by
  apply BitVec.eq_of_getLsbD_eq
  intro j hj
  rw [BitVec.getLsbD_append, BitVec.getLsbD_extractLsb', BitVec.getLsbD_extractLsb']
  by_cases low : j < 8
  · simp [low]
  · have place : 8 + (j - 8) = j := by omega
    have inside : j - 8 < 8 := by omega
    simp [low, place, inside]

theorem loadInt16_eq {x : BitVec 16} (h : m.HasParts k i 2 (int16Part x)) : m.loadInt16 k i = some x := by
  have low := h 0 (by decide)
  have high := h 1 (by decide)
  rw [Nat.add_zero] at low
  rw [Memory.loadInt16, loadInt8_eq low.1 low.2, Option.bind_some, loadInt8_eq high.1 high.2,
    Option.map_some]
  exact congrArg some (int16_of_bytes x)

variable [DecidableEq α] {v : α}

theorem loadFloat_eq (h : m.HasParts k i 4 (.float v)) : m.loadFloat k i = some v := by
  have first := h 0 (by decide)
  rw [Nat.add_zero] at first
  rw [Memory.loadFloat, Memory.load, if_pos first.1, Option.bind_some, first.2]
  exact if_pos h

theorem loadHalf_eq (h : m.HasParts k i 2 (.half v)) : m.loadHalf k i = some v := by
  have first := h 0 (by decide)
  rw [Nat.add_zero] at first
  rw [Memory.loadHalf, Memory.load, if_pos first.1, Option.bind_some, first.2]
  exact if_pos h

end Loads

end Checked
