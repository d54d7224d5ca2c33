import Pfng.Lib.Program

/-! A loop whose operand is loaded one round ahead, with the first and the last round peeled off. -/
namespace Checked

variable {β σ : Type*}

/-- Rounds `0` to `n + 1`. Round 0 loads its own operand and the next one, round `n + 1` only takes what
the round before it has loaded. -/
def pipelined (load : ℕ → Option β) (first : β → Option σ) (next : ℕ → β → σ → Option σ) (n : ℕ) :
    Option σ :=
  (load 0).bind fun src =>
  (load 1).bind fun prefetch =>
  (first src).bind fun s =>
  (forUp (fun z (src, s) => (load (z + 1)).bind fun prefetch => (next z src s).map fun s => (prefetch, s))
    1 n (prefetch, s)).bind fun (src, s) => next (n + 1) src s

/-- Every round finds its own operand. -/
theorem pipelined_ends {load : ℕ → Option β} {first : β → Option σ} {next : ℕ → β → σ → Option σ}
    {n : ℕ} (L : ℕ → β → Prop) (I : ℕ → σ → Prop) (loads : ∀ z ≤ n + 1, Ends (load z) (L z))
    (start : ∀ src, L 0 src → Ends (first src) (I 1))
    (step : ∀ z src s, 1 ≤ z → z ≤ n + 1 → L z src → I z s → Ends (next z src s) (I (z + 1))) :
    Ends (pipelined load first next n) (I (n + 2)) := by
  refine (loads 0 (Nat.zero_le _)).bind fun src current => ?_
  refine (loads 1 (by omega)).bind fun prefetch later => ?_
  refine (start src current).bind fun s begun => ?_
  have rounds : Ends (forUp (fun z (src, s) =>
      (load (z + 1)).bind fun prefetch => (next z src s).map fun s => (prefetch, s)) 1 n (prefetch, s))
      fun r => L (1 + n) r.1 ∧ I (1 + n) r.2 := by
    refine forUp_ends (fun z (r : β × σ) => L z r.1 ∧ I z r.2) ⟨later, begun⟩ ?_
    rintro z ⟨src, s⟩ one hz ⟨current, before⟩
    refine (loads (z + 1) (by omega)).bind fun prefetch later => ?_
    exact (step z src s one (by omega) current before).map fun s after => ⟨later, after⟩
  refine rounds.bind fun ⟨src, s⟩ ⟨current, before⟩ => ?_
  rw [Nat.add_comm 1 n] at current before
  exact step (n + 1) src s (by omega) (Nat.le_refl _) current before

end Checked
