import Mathlib.Logic.Function.Basic
import Pfng.Lib.Program

/-! Named memory objects with checked accesses. A program is described by the contents it
needs before and the contents it leaves: `Effect u A c v S M` says that `c`, run where the
cells of `A` hold `u`, leaves `v` in the cells of `S` and touches only cells of `M`. -/
namespace Checked

variable {κ ι : Type*} {V : κ → Type*}

structure Memory (κ : Type*) (V : κ → Type*) where
  size : κ → ℕ
  cell : (k : κ) → ℕ → V k

abbrev Contents (κ : Type*) (V : κ → Type*) := (k : κ) → ℕ → V k

abbrev Region (κ : Type*) := κ → ℕ → Prop

def Memory.load (m : Memory κ V) (k : κ) (i : ℕ) : Option (V k) :=
  if i < m.size k then some (m.cell k i) else none

/-- `n` consecutive elements as the lanes of a register. -/
def Memory.loadLanes (m : Memory κ V) (k : κ) (base n : ℕ) : Option (ℕ → V k) :=
  if base + n ≤ m.size k then some fun lane => m.cell k (base + lane) else none

/-- Only the lanes that `mask` selects are read; the others come from `off`. -/
def Memory.loadMasked (m : Memory κ V) (k : κ) (mask : ℕ → Bool) (off : ℕ → V k) (base n : ℕ) :
    Option (ℕ → V k) :=
  if ∀ lane < n, mask lane → base + lane < m.size k then
    some fun lane => if mask lane then m.cell k (base + lane) else off lane
  else none

/-- Another object of the same size in the place of `k`. -/
def Memory.renew [DecidableEq κ] (m : Memory κ V) (k : κ) (contents : ℕ → V k) : Memory κ V :=
  { m with cell := Function.update m.cell k contents }

def Memory.store [DecidableEq κ] (m : Memory κ V) (k : κ) (i : ℕ) (v : V k) :
    Option (Memory κ V) :=
  if i < m.size k then
    some { m with cell := Function.update m.cell k (Function.update (m.cell k) i v) }
  else none

/-- The lanes that `mask` selects among the first `n`, to consecutive elements. -/
def Memory.storeMasked [DecidableEq κ] (m : Memory κ V) (k : κ) (mask : ℕ → Bool) (base n : ℕ)
    (v : ℕ → V k) : Option (Memory κ V) :=
  forUp (fun lane m => if mask lane then m.store k (base + lane) (v lane) else some m) 0 n m

def Memory.storeLanes [DecidableEq κ] (m : Memory κ V) (k : κ) (base n : ℕ) (v : ℕ → V k) :
    Option (Memory κ V) :=
  m.storeMasked k (fun _ => true) base n v

/-- `std::fill_n`. -/
def Memory.fill [DecidableEq κ] (m : Memory κ V) (k : κ) (n : ℕ) (x : V k) : Option (Memory κ V) :=
  forUp (fun i m => m.store k i x) 0 n m

def Holds (u : Contents κ V) (A : Region κ) (m : Memory κ V) : Prop :=
  ∀ k i, A k i → m.cell k i = u k i

/-- The objects keep their sizes, and only cells of `S` may differ. -/
structure Within (S : Region κ) (m m' : Memory κ V) : Prop where
  size : m'.size = m.size
  frame : ∀ k i, ¬ S k i → m'.cell k i = m.cell k i

def Effect (size : κ → ℕ) (u : Contents κ V) (A : Region κ) (c : Memory κ V → Option (Memory κ V))
    (v : Contents κ V) (S M : Region κ) : Prop :=
  ∀ m, m.size = size → Holds u A m → Ends (c m) fun m' => Within M m m' ∧ Holds v S m'

def Fills (size : κ → ℕ) (u : Contents κ V) (A : Region κ) (c : Memory κ V → Option (Memory κ V))
    (v : Contents κ V) (S : Region κ) : Prop := Effect size u A c v S S

def Writes (size : κ → ℕ) (c : Memory κ V → Option (Memory κ V)) (v : Contents κ V)
    (S : Region κ) : Prop := Fills size v (fun _ _ => False) c v S

theorem Within.refl (S : Region κ) (m : Memory κ V) : Within S m m := ⟨rfl, fun _ _ _ => rfl⟩

theorem Within.mono {S T : Region κ} {m m' : Memory κ V} (h : Within S m m')
    (more : ∀ k i, S k i → T k i) : Within T m m' :=
  ⟨h.size, fun k i no => h.frame k i fun hS => no (more k i hS)⟩

theorem Within.trans {S : Region κ} {m m' m'' : Memory κ V} (h : Within S m m')
    (h' : Within S m' m'') : Within S m m'' :=
  ⟨h'.size.trans h.size, fun k i no => (h'.frame k i no).trans (h.frame k i no)⟩

theorem Holds.after {u v : Contents κ V} {A S : Region κ} {m m' : Memory κ V} (h : Holds u A m)
    (change : Within S m m') (left : Holds v S m')
    (agree : ∀ k i, A k i → S k i → v k i = u k i) : Holds u A m' := by
  intro k i hA
  by_cases hS : S k i
  · rw [left k i hS, agree k i hA hS]
  · rw [change.frame k i hS, h k i hA]

theorem Holds.mono {u : Contents κ V} {A B : Region κ} {m : Memory κ V} (h : Holds u B m)
    (sub : ∀ k i, A k i → B k i) : Holds u A m := fun k i hA => h k i (sub k i hA)

theorem load_eq {size : κ → ℕ} {u : Contents κ V} {A : Region κ} {m : Memory κ V} {k : κ} {i : ℕ}
    (h : Holds u A m) (sizes : m.size = size) (bound : i < size k) (hA : A k i) :
    m.load k i = some (u k i) := by
  rw [Memory.load, if_pos (by rw [sizes]; exact bound), h k i hA]

theorem loadLanes_eq {size : κ → ℕ} {u : Contents κ V} {A : Region κ} {m : Memory κ V} {k : κ}
    {base n : ℕ} (h : Holds u A m) (sizes : m.size = size) (bound : base + n ≤ size k)
    (hA : ∀ lane < n, A k (base + lane)) :
    ∃ r, m.loadLanes k base n = some r ∧ ∀ lane < n, r lane = u k (base + lane) := by
  refine ⟨_, by rw [Memory.loadLanes, if_pos (by rw [sizes]; exact bound)], ?_⟩
  intro lane hl
  exact h k _ (hA lane hl)

theorem loadMasked_eq {size : κ → ℕ} {u : Contents κ V} {A : Region κ} {m : Memory κ V} {k : κ}
    {mask : ℕ → Bool} {base n : ℕ} (off : ℕ → V k) (h : Holds u A m) (sizes : m.size = size)
    (bound : ∀ lane < n, mask lane → base + lane < size k)
    (hA : ∀ lane < n, mask lane → A k (base + lane)) :
    ∃ r, m.loadMasked k mask off base n = some r ∧
      ∀ lane < n, r lane = if mask lane then u k (base + lane) else off lane := by
  refine ⟨_, by rw [Memory.loadMasked, if_pos (by rw [sizes]; exact bound)], ?_⟩
  intro lane hl
  by_cases on : mask lane
  · rw [if_pos on, if_pos on, h k _ (hA lane hl on)]
  · rw [if_neg on, if_neg on]

section Effects

variable {size : κ → ℕ} {u u' v w : Contents κ V} {A B S T M N : Region κ}
variable {c d : Memory κ V → Option (Memory κ V)}

/-- A cell known afterwards is one that the program leaves, or one known before that it spares. -/
theorem Effect.weaken (h : Effect size u A c v S M)
    (need : ∀ k i, A k i → B k i ∧ u' k i = u k i)
    (give : ∀ k i, T k i → S k i ∧ v k i = w k i ∨ ¬ M k i ∧ B k i ∧ u' k i = w k i)
    (more : ∀ k i, M k i → N k i) : Effect size u' B c w T N := by
  intro m sizes holds
  have before : Holds u A m := by
    intro k i hA
    rw [holds k i (need k i hA).1, (need k i hA).2]
  refine (h m sizes before).mono fun m' ⟨change, left⟩ => ⟨⟨change.size, fun k i no => ?_⟩, ?_⟩
  · exact change.frame k i fun hM => no (more k i hM)
  · intro k i hT
    rcases give k i hT with ⟨hS, same⟩ | ⟨spared, known, same⟩
    · rw [left k i hS, same]
    · rw [change.frame k i spared, holds k i known, same]

theorem Effect.keep {R : Region κ} (h : Effect size u A c u S M) (sub : ∀ k i, A k i → R k i)
    (spared : ∀ k i, R k i → ¬ M k i) : Effect size u R c u (fun k i => R k i ∨ S k i) M := by
  refine h.weaken (fun k i hA => ⟨sub k i hA, rfl⟩) ?_ fun _ _ hM => hM
  rintro k i (hR | hS)
  · exact .inr ⟨spared k i hR, hR, rfl⟩
  · exact .inl ⟨hS, rfl⟩

theorem Effect.seq (hc : Effect size u A c v S M) (hd : Effect size v S d w T N) :
    Effect size u A (fun m => (c m).bind d) w T fun k i => M k i ∨ N k i := by
  intro m sizes holds
  refine (hc m sizes holds).bind fun m₁ ⟨change, left⟩ => ?_
  refine (hd m₁ (change.size.trans sizes) left).mono fun m₂ ⟨change₂, left₂⟩ => ?_
  refine ⟨⟨change₂.size.trans change.size, fun k i no => ?_⟩, left₂⟩
  rw [not_or] at no
  rw [change₂.frame k i no.2, change.frame k i no.1]

/-- A loop whose state before round `i` is `v i` in the cells of `S i`. -/
theorem Effect.rounds {body : ℕ → Memory κ V → Option (Memory κ V)} (v : ℕ → Contents κ V)
    (S : ℕ → Region κ) {n : ℕ}
    (each : ∀ i < n, Effect size (v i) (S i) (body i) (v (i+1)) (S (i+1)) M) :
    Effect size (v 0) (S 0) (Checked.forUp body 0 n) (v n) (S n) M := by
  intro m sizes holds
  refine loop_ends (fun i m' => Within M m m' ∧ Holds (v i) (S i) m') ⟨Within.refl M m, holds⟩
    fun i hi m₁ ⟨change, left⟩ => ?_
  refine (each i hi m₁ (change.size.trans sizes) left).mono fun m₂ ⟨change₂, left₂⟩ => ?_
  refine ⟨⟨change₂.size.trans change.size, fun k x no => ?_⟩, left₂⟩
  rw [change₂.frame k x no, change.frame k x no]

/-- Two programs of which neither touches what the other one needs or leaves. -/
theorem Effect.seqOwn (hc : Effect size u A c v S M) (hd : Effect size u B d v T N)
    (kept : ∀ k x, B k x → ¬ M k x) (left : ∀ k x, S k x → ¬ N k x) :
    Effect size u (fun k x => A k x ∨ B k x) (fun m => (c m).bind d) v (fun k x => S k x ∨ T k x)
      fun k x => M k x ∨ N k x := by
  intro m sizes holds
  refine (hc m sizes (holds.mono fun _ _ => .inl)).bind fun m₁ ⟨change, left₁⟩ => ?_
  have before : Holds u B m₁ := by
    intro k x hB
    rw [change.frame k x (kept k x hB), holds k x (.inr hB)]
  refine (hd m₁ (change.size.trans sizes) before).mono fun m₂ ⟨change₂, left₂⟩ => ?_
  refine ⟨(change.mono fun _ _ => .inl).trans (change₂.mono fun _ _ => .inr), ?_⟩
  rintro k x (hS | hT)
  · rw [change₂.frame k x (left k x hS), left₁ k x hS]
  · exact left₂ k x hT

/-- A loop in any order, where an iteration neither touches what a later one needs nor has what it
leaves touched by one. -/
theorem Effect.forEachOwn {body : ι → Memory κ V → Option (Memory κ V)} {A S M : ι → Region κ}
    {order : List ι} (each : ∀ i ∈ order, Effect size u (A i) (body i) v (S i) (M i))
    (apart : order.Pairwise fun i j =>
      (∀ k x, A j k x → ¬ M i k x) ∧ ∀ k x, S i k x → ¬ M j k x) :
    Effect size u (fun k x => ∃ i ∈ order, A i k x) (Checked.forEach body order) v
      (fun k x => ∃ i ∈ order, S i k x) fun k x => ∃ i ∈ order, M i k x := by
  induction order with
  | nil =>
      intro m _ _
      refine .some ⟨⟨rfl, fun _ _ _ => rfl⟩, ?_⟩
      rintro k x ⟨i, no, _⟩
      cases no
  | cons i order ih =>
      obtain ⟨kept, apart⟩ := List.pairwise_cons.mp apart
      have rest := ih (fun j hj => each j (.tail _ hj)) apart
      have both := (each i (.head _)).seqOwn rest
        (fun k x ⟨j, hj, hA⟩ => (kept j hj).1 k x hA) fun k x hS ⟨j, hj, hM⟩ => (kept j hj).2 k x hS hM
      refine both.weaken ?_ ?_ ?_
      · rintro k x (hA | ⟨j, hj, hA⟩)
        · exact ⟨⟨i, .head _, hA⟩, rfl⟩
        · exact ⟨⟨j, .tail _ hj, hA⟩, rfl⟩
      · rintro k x ⟨j, hj, hS⟩
        rcases List.mem_cons.mp hj with rfl | later
        · exact .inl ⟨.inl hS, rfl⟩
        · exact .inl ⟨.inr ⟨j, later, hS⟩, rfl⟩
      · rintro k x (hM | ⟨j, hj, hM⟩)
        · exact ⟨i, .head _, hM⟩
        · exact ⟨j, .tail _ hj, hM⟩

/-- A loop in any order: the iterations spare what they all need, and a later one spares what an
earlier one left. -/
theorem Effect.forEach {body : ι → Memory κ V → Option (Memory κ V)} {S M : ι → Region κ}
    {order : List ι} (each : ∀ i ∈ order, Effect size u A (body i) v (S i) (M i))
    (needs : ∀ i ∈ order, ∀ k x, A k x → ¬ M i k x)
    (leaves : order.Pairwise fun i j => ∀ k x, S i k x → ¬ M j k x) :
    Effect size u A (Checked.forEach body order) v (fun k x => ∃ i ∈ order, S i k x)
      fun k x => ∃ i ∈ order, M i k x := by
  have run := Effect.forEachOwn each (leaves.imp_of_mem fun hi _ left => ⟨needs _ hi, left⟩)
  refine run.weaken ?_ (fun _ _ hS => .inl ⟨hS, rfl⟩) fun _ _ hM => hM
  rintro k x ⟨_, _, hA⟩
  exact ⟨hA, rfl⟩

theorem Effect.read {α : Type*} {f : Memory κ V → Option α} {P : α → Prop}
    {g : α → Memory κ V → Option (Memory κ V)}
    (reads : ∀ m, m.size = size → Holds u A m → Ends (f m) P)
    (h : ∀ x, P x → Effect size u A (g x) v S M) :
    Effect size u A (fun m => (f m).bind fun x => g x m) v S M := by
  intro m sizes holds
  refine (reads m sizes holds).bind fun x hx => ?_
  exact h x hx m sizes holds

theorem Effect.renew [DecidableEq κ] {k : κ} {contents : ℕ → V k} (apart : ∀ i, ¬ A k i) :
    Effect size u A (fun m => some (m.renew k contents)) u A fun k' _ => k' = k := by
  intro m _ holds
  refine .some ⟨⟨rfl, fun k' i no => ?_⟩, fun k' i hA => ?_⟩
  · simp [Memory.renew, no]
  · have other : k' ≠ k := by
      rintro rfl
      exact apart i hA
    simpa [Memory.renew, other] using holds k' i hA

/-- A new object whose contents are known. -/
theorem Effect.renewed [DecidableEq κ] {k : κ} {contents : ℕ → V k} (value : ∀ i, contents i = u k i)
    (apart : ∀ i, ¬ A k i) :
    Effect size u A (fun m => some (m.renew k contents)) u (fun k' i => A k' i ∨ k' = k)
      fun k' _ => k' = k := by
  intro m sizes holds
  obtain ⟨m', same, change, left⟩ := Effect.renew apart m sizes holds
  cases same
  refine .some ⟨change, ?_⟩
  rintro k' i (hA | rfl)
  · exact left k' i hA
  · simp [Memory.renew, value]

theorem Effect.load {k : κ} {i : ℕ} {f : V k → Memory κ V → Option (Memory κ V)}
    (bound : i < size k) (known : A k i) (h : Effect size u A (f (u k i)) v S M) :
    Effect size u A (fun m => (m.load k i).bind fun x => f x m) v S M := by
  intro m sizes holds
  dsimp only
  rw [load_eq holds sizes bound known]
  exact h m sizes holds

/-- The lanes of a load, as far as they are known. -/
theorem Effect.loadLanes {k : κ} {base n : ℕ} {f : (ℕ → V k) → Memory κ V → Option (Memory κ V)}
    (bound : base + n ≤ size k)
    (h : ∀ r, (∀ lane < n, A k (base + lane) → r lane = u k (base + lane)) →
      Effect size u A (f r) v S M) :
    Effect size u A (fun m => (m.loadLanes k base n).bind fun r => f r m) v S M := by
  intro m sizes holds
  have inside : base + n ≤ m.size k := by rwa [sizes]
  dsimp only
  rw [Memory.loadLanes, if_pos inside]
  exact h _ (fun lane _ known => holds k (base + lane) known) m sizes holds

/-- The counting loop whose rounds have needs of their own. -/
theorem Effect.loopOwn {body : ℕ → Memory κ V → Option (Memory κ V)} {A S M : ℕ → Region κ} {n : ℕ}
    (each : ∀ i < n, Effect size u (A i) (body i) v (S i) (M i))
    (apart : ∀ i j, i < j → j < n →
      (∀ k x, A j k x → ¬ M i k x) ∧ ∀ k x, S i k x → ¬ M j k x) :
    Effect size u (fun k x => ∃ i < n, A i k x) (Checked.forUp body 0 n) v
      (fun k x => ∃ i < n, S i k x) fun k x => ∃ i < n, M i k x := by
  have mem : ∀ i, i ∈ List.range n ↔ i < n := fun i => List.mem_range
  rw [forUp_eq_forEach, ← List.range_eq_range']
  refine (Effect.forEachOwn (fun i hi => each i ((mem i).mp hi)) ?_).weaken ?_ ?_ ?_
  · refine List.pairwise_lt_range.imp_of_mem fun {i j} _ hj lt => ?_
    exact apart i j lt ((mem j).mp hj)
  · rintro k x ⟨i, hi, hA⟩
    exact ⟨⟨i, (mem i).mp hi, hA⟩, rfl⟩
  · rintro k x ⟨i, hi, hS⟩
    exact .inl ⟨⟨i, (mem i).mpr hi, hS⟩, rfl⟩
  · rintro k x ⟨i, hi, hM⟩
    exact ⟨i, (mem i).mp hi, hM⟩

/-- The counting loop whose rounds do not disturb each other. -/
theorem Effect.loop {body : ℕ → Memory κ V → Option (Memory κ V)} {S M : ℕ → Region κ} {n : ℕ}
    (each : ∀ i < n, Effect size u A (body i) v (S i) (M i))
    (needs : ∀ i < n, ∀ k x, A k x → ¬ M i k x)
    (leaves : ∀ i j, i < j → j < n → ∀ k x, S i k x → ¬ M j k x) :
    Effect size u A (Checked.forUp body 0 n) v (fun k x => ∃ i < n, S i k x)
      fun k x => ∃ i < n, M i k x := by
  have run := Effect.loopOwn each fun i j lt hj => ⟨needs i (Nat.lt_trans lt hj), leaves i j lt hj⟩
  refine run.weaken ?_ (fun _ _ hS => .inl ⟨hS, rfl⟩) fun _ _ hM => hM
  rintro k x ⟨_, _, hA⟩
  exact ⟨hA, rfl⟩

/-- The counting loop whose rounds share some scratch; what one leaves another one may write again. -/
theorem Effect.loopScratch {body : ℕ → Memory κ V → Option (Memory κ V)} {S : ℕ → Region κ} {n : ℕ}
    (each : ∀ i < n, Effect size u A (body i) v (S i) fun k x => N k x ∨ S i k x)
    (needs : ∀ k x, A k x → ¬ N k x ∧ ∀ i < n, ¬ S i k x)
    (apart : ∀ i < n, ∀ k x, S i k x → ¬ N k x) :
    Effect size u A (Checked.forUp body 0 n) v (fun k x => ∃ i < n, S i k x)
      fun k x => N k x ∨ ∃ i < n, S i k x := by
  intro m sizes holds
  refine loop_ends (fun i m' => Within (fun k x => N k x ∨ ∃ j < n, S j k x) m m' ∧
      Holds v (fun k x => ∃ j < i, S j k x) m')
    ⟨Within.refl _ m, fun k x ⟨j, no, _⟩ => absurd no (Nat.not_lt_zero j)⟩
    fun i hi m₁ ⟨change, left⟩ => ?_
  have before : Holds u A m₁ := by
    intro k x hA
    rw [change.frame k x, holds k x hA]
    rintro (hN | ⟨j, hj, hS⟩)
    · exact (needs k x hA).1 hN
    · exact (needs k x hA).2 j hj hS
  refine (each i hi m₁ (change.size.trans sizes) before).mono fun m₂ ⟨change₂, left₂⟩ => ?_
  refine ⟨change.trans (change₂.mono ?_), ?_⟩
  · rintro k x (hN | hS)
    · exact .inl hN
    · exact .inr ⟨i, hi, hS⟩
  · rintro k x ⟨j, hj, hS⟩
    by_cases again : S i k x
    · exact left₂ k x again
    · have earlier : j < i := by
        rcases Nat.lt_succ_iff_lt_or_eq.mp hj with lt | rfl
        · exact lt
        · exact absurd hS again
      rw [change₂.frame k x, left k x ⟨j, earlier, hS⟩]
      rintro (hN | hS')
      · exact apart j (Nat.lt_trans earlier hi) k x hS hN
      · exact again hS'

/-- Repeated passes, each of which leaves the same. -/
theorem Effect.passes {pass : ℕ → Memory κ V → Option (Memory κ V)} {n : ℕ}
    (each : ∀ i < n, Effect size u A (pass i) u S M) (spared : ∀ k x, A k x → ¬ M k x) :
    Effect size u A (Checked.forUp pass 0 n) u (fun k x => 0 < n ∧ S k x) M := by
  have run := Effect.rounds (fun _ => u) (fun i k x => A k x ∨ 0 < i ∧ S k x) fun i hi =>
    (each i hi).weaken (fun _ _ hA => ⟨.inl hA, rfl⟩) (by
      rintro k x (hA | ⟨_, hS⟩)
      · exact .inr ⟨spared k x hA, .inl hA, rfl⟩
      · exact .inl ⟨hS, rfl⟩) fun _ _ hM => hM
  refine run.weaken ?_ (fun _ _ hS => .inl ⟨.inr hS, rfl⟩) fun _ _ hM => hM
  rintro k x (hA | ⟨no, _⟩)
  · exact ⟨hA, rfl⟩
  · exact absurd no (Nat.lt_irrefl 0)

end Effects

section Rules

variable {size : κ → ℕ} {u v : Contents κ V} {A B S T : Region κ}
variable {c d : Memory κ V → Option (Memory κ V)}

theorem Fills.weaken (h : Fills size u A c v S) (more : ∀ k i, A k i → B k i)
    (same : ∀ k i, T k i ↔ S k i) : Fills size u B c v T := by
  have eq : T = S := by
    funext k i
    exact propext (same k i)
  subst eq
  intro m sizes holds
  exact h m sizes (holds.mono more)

theorem Fills.skip : Fills size u A some v fun _ _ => False := by
  intro m _ _
  exact .some ⟨Within.refl _ m, fun k i no => no.elim⟩

theorem Fills.seq (hc : Fills size u A c v S) (hd : Fills size u B d v T)
    (agree : ∀ k i, B k i → S k i → v k i = u k i) :
    Fills size u (fun k i => A k i ∨ B k i) (fun m => (c m).bind d) v
      (fun k i => S k i ∨ T k i) := by
  intro m sizes holds
  refine (hc m sizes (holds.mono fun k i => .inl)).bind fun m₁ ⟨change, left⟩ => ?_
  have before : Holds u B m₁ := (holds.mono fun k i => .inr).after change left agree
  refine (hd m₁ (change.size.trans sizes) before).mono fun m₂ ⟨change₂, left₂⟩ => ?_
  refine ⟨⟨change₂.size.trans change.size, fun k i no => ?_⟩, fun k i yes => ?_⟩
  · rw [not_or] at no
    rw [change₂.frame k i no.2, change.frame k i no.1]
  · by_cases hT : T k i
    · exact left₂ k i hT
    · rw [change₂.frame k i hT, left k i (yes.resolve_right hT)]

/-- A loop over a list in any order: no iteration may destroy what a later one still reads. -/
theorem Fills.forEach {body : ι → Memory κ V → Option (Memory κ V)} {A S : ι → Region κ}
    {order : List ι} (each : ∀ i ∈ order, Fills size u (A i) (body i) v (S i))
    (agree : order.Pairwise fun i j => ∀ k x, A j k x → S i k x → v k x = u k x) :
    Fills size u (fun k x => ∃ i ∈ order, A i k x) (forEach body order) v
      (fun k x => ∃ i ∈ order, S i k x) := by
  induction order with
  | nil =>
      refine Fills.skip.weaken (A := fun k x => False) (fun k x no => no.elim) fun k x => ?_
      simp
  | cons i order ih =>
      obtain ⟨head, tail⟩ := List.pairwise_cons.mp agree
      have rest := ih (fun j hj => each j (.tail _ hj)) tail
      refine ((each i (.head _)).seq rest ?_).weaken ?_ ?_
      · rintro k x ⟨j, hj, hx⟩ hS
        exact head j hj k x hx hS
      · intro k x hx
        simpa using hx
      · intro k x
        simp

theorem Fills.forUp {body : ℕ → Memory κ V → Option (Memory κ V)} {A S : ℕ → Region κ} {lo n : ℕ}
    (each : ∀ i, lo ≤ i → i < lo + n → Fills size u (A i) (body i) v (S i))
    (agree : ∀ i j, lo ≤ i → i < j → j < lo + n → ∀ k x, A j k x → S i k x → v k x = u k x) :
    Fills size u (fun k x => ∃ i, (lo ≤ i ∧ i < lo + n) ∧ A i k x) (forUp body lo n) v
      (fun k x => ∃ i, (lo ≤ i ∧ i < lo + n) ∧ S i k x) := by
  have mem : ∀ i, i ∈ List.range' lo n ↔ lo ≤ i ∧ i < lo + n := fun i => List.mem_range'_1
  rw [forUp_eq_forEach]
  refine (Fills.forEach (fun i hi => each i ((mem i).mp hi).1 ((mem i).mp hi).2) ?_).weaken ?_ ?_
  · refine (List.pairwise_lt_range' (s := lo) (n := n) 1).imp_of_mem fun {i j} hi hj lt => ?_
    exact agree i j ((mem i).mp hi).1 lt ((mem j).mp hj).2
  · rintro k x ⟨i, hi, hx⟩
    exact ⟨i, (mem i).mp hi, hx⟩
  · intro k x
    simp only [mem]

/-- The loop from zero whose rounds spare what they all read. -/
theorem Fills.loop {body : ℕ → Memory κ V → Option (Memory κ V)} {S : ℕ → Region κ} {n : ℕ}
    (each : ∀ i < n, Fills size u A (body i) v (S i)) (spared : ∀ i < n, ∀ k x, A k x → ¬ S i k x) :
    Fills size u A (Checked.forUp body 0 n) v fun k x => ∃ i < n, S i k x := by
  refine (Fills.forUp (fun i _ hi => each i (by omega)) ?_).weaken ?_ ?_
  · intro i j _ lt hj k x hA hS
    exact absurd hS (spared i (by omega) k x hA)
  · rintro k x ⟨_, _, hA⟩
    exact hA
  · intro k x
    constructor
    · rintro ⟨i, hi, hx⟩
      exact ⟨i, by omega, hx⟩
    · rintro ⟨i, hi, hx⟩
      exact ⟨i, by omega, hx⟩

theorem Writes.seq (hc : Writes size c v S) (hd : Writes size d v T) :
    Writes size (fun m => (c m).bind d) v fun k i => S k i ∨ T k i :=
  (Fills.seq hc hd fun _ _ no => no.elim).weaken (fun _ _ no => no.elim id id) fun _ _ => Iff.rfl

theorem Writes.fills (h : Writes size c v S) : Fills size u A c v S := by
  intro m sizes _
  exact h m sizes fun _ _ no => no.elim

theorem Writes.forEach {body : ι → Memory κ V → Option (Memory κ V)} {S : ι → Region κ}
    {order : List ι} (each : ∀ i ∈ order, Writes size (body i) v (S i)) :
    Writes size (forEach body order) v fun k x => ∃ i ∈ order, S i k x := by
  refine (Fills.forEach each ?_).weaken ?_ fun _ _ => Iff.rfl
  · exact List.pairwise_of_forall fun _ _ _ _ no => no.elim
  · rintro k x ⟨_, _, no⟩
    exact no

theorem Writes.forUp {body : ℕ → Memory κ V → Option (Memory κ V)} {S : ℕ → Region κ} {lo n : ℕ}
    (each : ∀ i, lo ≤ i → i < lo + n → Writes size (body i) v (S i)) :
    Writes size (forUp body lo n) v fun k x => ∃ i, (lo ≤ i ∧ i < lo + n) ∧ S i k x := by
  refine (Fills.forUp each fun _ _ _ _ _ _ _ no => no.elim).weaken ?_ fun _ _ => Iff.rfl
  rintro k x ⟨_, _, no⟩
  exact no

theorem Writes.loop {body : ℕ → Memory κ V → Option (Memory κ V)} {S : ℕ → Region κ} {n : ℕ}
    (each : ∀ i < n, Writes size (body i) v (S i)) :
    Writes size (Checked.forUp body 0 n) v fun k x => ∃ i < n, S i k x := by
  refine (Writes.forUp fun i _ hi => each i (by omega)).weaken (fun _ _ no => no) fun k x => ?_
  constructor
  · rintro ⟨i, hi, hx⟩
    exact ⟨i, ⟨Nat.zero_le i, by omega⟩, hx⟩
  · rintro ⟨i, hi, hx⟩
    exact ⟨i, by omega, hx⟩

variable [DecidableEq κ]

theorem Fills.store {k : κ} {i : ℕ} {x : V k} (bound : i < size k) (value : x = v k i) :
    Fills size u A (fun m => m.store k i x) v (fun k' j => k' = k ∧ j = i) := by
  intro m sizes _
  have inside : i < m.size k := by rwa [sizes]
  refine ⟨_, if_pos inside, ⟨rfl, fun k' j no => ?_⟩, fun k' j yes => ?_⟩
  · by_cases hk : k' = k
    · subst hk
      have hj : j ≠ i := fun hj => no ⟨rfl, hj⟩
      simp [hj]
    · simp [hk]
  · obtain ⟨rfl, rfl⟩ := yes
    simpa using value

theorem Writes.store {k : κ} {i : ℕ} {x : V k} (bound : i < size k) (value : x = v k i) :
    Writes size (fun m => m.store k i x) v (fun k' j => k' = k ∧ j = i) :=
  Fills.store bound value

theorem Fills.storeMasked {k : κ} {mask : ℕ → Bool} {base n : ℕ} {x : ℕ → V k}
    (bound : ∀ lane < n, mask lane → base + lane < size k)
    (value : ∀ lane < n, mask lane → x lane = v k (base + lane)) :
    Fills size u A (fun m => m.storeMasked k mask base n x) v
      (fun k' j => k' = k ∧ ∃ lane < n, mask lane ∧ j = base + lane) := by
  have each : ∀ lane, 0 ≤ lane → lane < 0 + n →
      Fills size u (fun _ _ => False)
        (fun m : Memory κ V => if mask lane then m.store k (base + lane) (x lane) else some m) v
        (fun k' j => k' = k ∧ mask lane ∧ j = base + lane) := by
    intro lane _ hl
    by_cases on : mask lane
    · simp only [if_pos on]
      refine (Fills.store (bound lane (by omega) on) (value lane (by omega) on)).weaken
        (fun _ _ no => no) fun k' j => ?_
      simp [on]
    · simp only [if_neg on]
      refine Fills.skip.weaken (fun _ _ no => no) fun k' j => ?_
      simp [on]
  refine (Fills.forUp each fun i j _ _ _ k x no => no.elim).weaken ?_ ?_
  · rintro k x ⟨i, _, no⟩
    exact no.elim
  · intro k' j
    constructor
    · rintro ⟨rfl, lane, hl, on, rfl⟩
      exact ⟨lane, by omega, rfl, on, rfl⟩
    · rintro ⟨lane, hl, rfl, on, rfl⟩
      exact ⟨rfl, lane, by omega, on, rfl⟩

theorem Fills.storeLanes {k : κ} {base n : ℕ} {x : ℕ → V k}
    (bound : ∀ lane < n, base + lane < size k) (value : ∀ lane < n, x lane = v k (base + lane)) :
    Fills size u A (fun m => m.storeLanes k base n x) v
      (fun k' j => k' = k ∧ ∃ lane < n, j = base + lane) :=
  (Fills.storeMasked (fun lane hl _ => bound lane hl) fun lane hl _ => value lane hl).weaken
    (fun _ _ hA => hA) fun k' j => by simp

theorem Writes.storeLanes {k : κ} {base n : ℕ} {x : ℕ → V k}
    (bound : ∀ lane < n, base + lane < size k) (value : ∀ lane < n, x lane = v k (base + lane)) :
    Writes size (fun m => m.storeLanes k base n x) v
      (fun k' j => k' = k ∧ ∃ lane < n, j = base + lane) :=
  Fills.storeLanes bound value

theorem Writes.fill {k : κ} {n : ℕ} {x : V k} (bound : n ≤ size k) (value : ∀ i < n, x = v k i) :
    Writes size (fun m => m.fill k n x) v (fun k' j => k' = k ∧ j < n) := by
  have stores : Writes size (fun m : Memory κ V => m.fill k n x) v _ :=
    Writes.loop fun i hi => Writes.store (by omega) (value i hi)
  refine stores.weaken (fun _ _ no => no) fun k' j => ?_
  constructor
  · rintro ⟨rfl, hj⟩
    exact ⟨j, hj, rfl, rfl⟩
  · rintro ⟨i, hi, rfl, rfl⟩
    exact ⟨rfl, hi⟩

/-- A store of unknown lanes keeps what is known of the other cells. -/
theorem Effect.clobber {k : κ} {base n : ℕ} {x : ℕ → V k}
    (bound : ∀ lane < n, base + lane < size k) (apart : ∀ lane < n, ¬ A k (base + lane)) :
    Effect size u A (fun m => m.storeLanes k base n x) u A
      (fun k' j => k' = k ∧ ∃ lane < n, j = base + lane) := by
  refine Effect.weaken (Fills.storeLanes (u := u) (A := A)
    (v := Function.update u k fun j => x (j - base)) bound fun lane _ => ?_) ?_ ?_ fun _ _ hM => hM
  · rw [Function.update_self, Nat.add_sub_cancel_left]
  · intro k' i hA
    exact ⟨hA, rfl⟩
  · intro k' i hA
    refine .inr ⟨?_, hA, rfl⟩
    rintro ⟨rfl, lane, hl, rfl⟩
    exact apart lane hl hA

end Rules

end Checked
