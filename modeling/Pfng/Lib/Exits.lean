import Mathlib.Order.Basic

/-! Programs that may return early. An `Except` is such a program: `ok` is what it goes on with,
`error` is what it returned. `Leaves` has one condition for either exit. -/
namespace Exits

universe u

variable {ε : Type*} {α β : Type u}

/-- The program goes on with a value of `P`, or has returned a value of `Q`. -/
def Leaves (c : Except ε α) (P : α → Prop) (Q : ε → Prop) : Prop :=
  match c with
  | .ok x => P x
  | .error e => Q e

/-- What is left when the program has ended. -/
def final (result : α → ε) (c : Except ε α) : ε :=
  match c with
  | .ok x => result x
  | .error e => e

variable {c : Except ε α} {f : α → Except ε β} {P P' : α → Prop} {R : β → Prop} {Q Q' : ε → Prop}

theorem Leaves.bind (hc : Leaves c P Q) (hf : ∀ x, P x → Leaves (f x) R Q) :
    Leaves (c >>= f) R Q := by
  cases c with
  | ok x => exact hf x hc
  | error e => exact hc

theorem Leaves.mono (h : Leaves c P Q) (hP : ∀ x, P x → P' x) (hQ : ∀ e, Q e → Q' e) :
    Leaves c P' Q' := by
  cases c with
  | ok x => exact hP x h
  | error e => exact hQ e h

theorem Leaves.and (h : Leaves c P Q) (h' : Leaves c P' Q') :
    Leaves c (fun x => P x ∧ P' x) fun e => Q e ∧ Q' e := by
  cases c with
  | ok x => exact ⟨h, h'⟩
  | error e => exact ⟨h, h'⟩

theorem Leaves.ite {p : Prop} [Decidable p] {d : Except ε α} (yes : p → Leaves c P Q)
    (no : ¬p → Leaves d P Q) : Leaves (if p then c else d) P Q := by
  split
  · exact yes ‹p›
  · exact no ‹¬p›

theorem Leaves.final {result : α → ε} (h : Leaves c P Q) (hP : ∀ x, P x → Q (result x)) :
    Q (final result c) := by
  cases c with
  | ok x => exact hP x h
  | error e => exact h

/-- A loop over a list: `I i` holds after `i` rounds. -/
theorem Leaves.foldlM {ι : Type*} {g : α → ι → Except ε α} (I : ℕ → α → Prop) {l : List ι} {x : α}
    (start : I 0 x) (step : ∀ i (h : i < l.length) x, I i x → Leaves (g x (l.get ⟨i, h⟩)) (I (i + 1)) Q) :
    Leaves (l.foldlM g x) (I l.length) Q := by
  induction l generalizing x I with
  | nil => exact start
  | cons a l ih =>
      rw [List.foldlM_cons]
      have first := step 0 (Nat.zero_lt_succ _) x start
      refine first.bind fun y hy => ?_
      exact ih (fun i => I (i + 1)) hy fun i h => step (i + 1) (Nat.succ_lt_succ h)

end Exits
