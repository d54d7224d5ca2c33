import Pfng.Lib.Memory

/-! Objects whose cells may be unwritten. A fetch fails on such a cell, so a program that ends has
read nothing before it was written. -/
namespace Checked

variable {κ T : Type*} {V : κ → Type*}

/-- `rows` registers of `n` lanes, `stride` cells apart; `view` is the value of a written cell. -/
def Memory.fetchRows [Inhabited T] (m : Memory κ V) (k : κ) (view : V k → Option T)
    (base stride rows n : ℕ) : Option (ℕ → ℕ → T) :=
  if ∀ row < rows, ∀ lane < n, base + row * stride + lane < m.size k ∧
      (view (m.cell k (base + row * stride + lane))).isSome then
    some fun row lane => (view (m.cell k (base + row * stride + lane))).getD default
  else none

/-- One register. -/
def Memory.fetchLanes [Inhabited T] (m : Memory κ V) (k : κ) (view : V k → Option T) (base n : ℕ) :
    Option (ℕ → T) :=
  (m.fetchRows k view base 0 1 n).map fun r => r 0

/-- The lanes that `mask` selects, each from its own address; the others come from `off`. -/
def Memory.fetchMasked [Inhabited T] (m : Memory κ V) (k : κ) (view : V k → Option T)
    (mask : ℕ → Bool) (address : ℕ → ℕ) (off : ℕ → T) (n : ℕ) : Option (ℕ → T) :=
  if ∀ lane < n, mask lane → address lane < m.size k ∧ (view (m.cell k (address lane))).isSome then
    some fun lane => if mask lane then (view (m.cell k (address lane))).getD default else off lane
  else none

/-- `n` independent computations. -/
def fetchAll [Inhabited T] (n : ℕ) (f : ℕ → Option T) : Option (ℕ → T) :=
  if ∀ i < n, (f i).isSome then some fun i => (f i).getD default else none

/-- Registers to rows `stride` cells apart. -/
def Memory.storeRows [DecidableEq κ] (m : Memory κ V) (k : κ) (base stride rows n : ℕ)
    (v : ℕ → ℕ → V k) : Option (Memory κ V) :=
  forUp (fun row m => m.storeLanes k (base + row * stride) n (v row)) 0 rows m

/-- `std::copy_n`; `wrap` is a cell with a value. -/
def Memory.copyLanes [Inhabited T] [DecidableEq κ] (m : Memory κ V) (source target : κ)
    (view : V source → Option T) (wrap : T → V target) (i j n : ℕ) : Option (Memory κ V) :=
  (m.fetchLanes source view i n).bind fun values =>
  m.storeLanes target j n fun lane => wrap (values lane)

section Fetch

variable [Inhabited T] {m : Memory κ V} {k : κ} {view : V k → Option T}

theorem fetchRows_ends {base stride rows n : ℕ} {f : ℕ → ℕ → T}
    (bound : ∀ row < rows, ∀ lane < n, base + row * stride + lane < m.size k)
    (known : ∀ row < rows, ∀ lane < n, view (m.cell k (base + row * stride + lane)) =
      some (f row lane)) :
    Ends (m.fetchRows k view base stride rows n) fun r =>
      ∀ row < rows, ∀ lane < n, r row lane = f row lane := by
  refine ⟨_, if_pos ?_, ?_⟩
  · intro row hr lane hl
    exact ⟨bound row hr lane hl, by rw [known row hr lane hl]; rfl⟩
  · intro row hr lane hl
    simp only [known row hr lane hl, Option.getD_some]

theorem fetchLanes_ends {base n : ℕ} {f : ℕ → T} (bound : ∀ lane < n, base + lane < m.size k)
    (known : ∀ lane < n, view (m.cell k (base + lane)) = some (f lane)) :
    Ends (m.fetchLanes k view base n) fun r => ∀ lane < n, r lane = f lane := by
  have only : ∀ row < 1, ∀ lane, base + row * 0 + lane = base + lane := by
    intro row _ lane
    rw [Nat.mul_zero, Nat.add_zero]
  have rows := fetchRows_ends (m := m) (k := k) (f := fun _ => f)
    (fun row hr lane hl => by rw [only row hr]; exact bound lane hl)
    (fun row hr lane hl => by rw [only row hr]; exact known lane hl)
  exact rows.map fun r h => h 0 Nat.one_pos

theorem fetchMasked_ends {mask : ℕ → Bool} {address : ℕ → ℕ} {off : ℕ → T} {n : ℕ} {f : ℕ → T}
    (bound : ∀ lane < n, mask lane → address lane < m.size k)
    (known : ∀ lane < n, mask lane → view (m.cell k (address lane)) = some (f lane)) :
    Ends (m.fetchMasked k view mask address off n) fun r =>
      ∀ lane < n, r lane = if mask lane then f lane else off lane := by
  refine ⟨_, if_pos ?_, ?_⟩
  · intro lane hl on
    exact ⟨bound lane hl on, by rw [known lane hl on]; rfl⟩
  · intro lane hl
    dsimp only
    split
    · next on => rw [known lane hl on, Option.getD_some]
    · rfl

omit m k view in
theorem fetchAll_ends {n : ℕ} {f : ℕ → Option T} {P : ℕ → T → Prop}
    (each : ∀ i < n, Ends (f i) (P i)) : Ends (fetchAll n f) fun r => ∀ i < n, P i (r i) := by
  refine ⟨_, if_pos ?_, ?_⟩
  · intro i hi
    obtain ⟨x, hx, _⟩ := each i hi
    rw [hx]
    rfl
  · intro i hi
    obtain ⟨x, hx, known⟩ := each i hi
    dsimp only
    rw [hx]
    exact known

/-- A register of cells whose contents are known. -/
theorem Holds.fetchLanes {size : κ → ℕ} {u : Contents κ V} {A : Region κ} {base n : ℕ} {f : ℕ → T}
    (holds : Holds u A m) (sizes : m.size = size) (bound : ∀ lane < n, base + lane < size k)
    (known : ∀ lane < n, A k (base + lane) ∧ view (u k (base + lane)) = some (f lane)) :
    Ends (m.fetchLanes k view base n) fun r => ∀ lane < n, r lane = f lane := by
  refine fetchLanes_ends ?_ ?_
  · rw [sizes]
    exact bound
  · intro lane hl
    rw [holds k _ (known lane hl).1]
    exact (known lane hl).2

theorem Effect.fetchLanes {size : κ → ℕ} {u v : Contents κ V} {A S M : Region κ} {base n : ℕ}
    {f : ℕ → T} {g : (ℕ → T) → Memory κ V → Option (Memory κ V)}
    (bound : ∀ lane < n, base + lane < size k)
    (known : ∀ lane < n, A k (base + lane) ∧ view (u k (base + lane)) = some (f lane))
    (h : ∀ r, (∀ lane < n, r lane = f lane) → Effect size u A (g r) v S M) :
    Effect size u A (fun m => (m.fetchLanes k view base n).bind fun r => g r m) v S M :=
  Effect.read (fun _ sizes holds => holds.fetchLanes sizes bound known) h

end Fetch

section Rules

variable [DecidableEq κ] {size : κ → ℕ} {u v : Contents κ V} {A : Region κ}

theorem Fills.storeRows {k : κ} {base stride rows n : ℕ} {x : ℕ → ℕ → V k}
    (bound : ∀ row < rows, ∀ lane < n, base + row * stride + lane < size k)
    (value : ∀ row < rows, ∀ lane < n, x row lane = v k (base + row * stride + lane)) :
    Fills size u A (fun m => m.storeRows k base stride rows n x) v
      (fun k' j => k' = k ∧ ∃ row < rows, ∃ lane < n, j = base + row * stride + lane) := by
  have stores : Writes size (fun m : Memory κ V => m.storeRows k base stride rows n x) v _ :=
    Writes.loop fun row hr => Writes.storeLanes (bound row hr) (value row hr)
  refine Writes.fills (stores.weaken (fun _ _ no => no) fun k' j => ?_)
  constructor
  · rintro ⟨rfl, row, hr, cell⟩
    exact ⟨row, hr, rfl, cell⟩
  · rintro ⟨row, hr, rfl, cell⟩
    exact ⟨rfl, row, hr, cell⟩

theorem Fills.copyLanes [Inhabited T] {source target : κ} {view : V source → Option T}
    {wrap : T → V target} {i j n : ℕ} (f : ℕ → T) (bound : ∀ lane < n, i + lane < size source)
    (room : ∀ lane < n, j + lane < size target)
    (known : ∀ lane < n, A source (i + lane) ∧ view (u source (i + lane)) = some (f lane))
    (value : ∀ lane < n, v target (j + lane) = wrap (f lane)) :
    Fills size u A (fun m => m.copyLanes source target view wrap i j n) v
      (fun k x => k = target ∧ ∃ lane < n, x = j + lane) := by
  refine Effect.fetchLanes bound known fun r same => Fills.storeLanes room ?_
  intro lane hl
  rw [same lane hl, value lane hl]

end Rules

end Checked
