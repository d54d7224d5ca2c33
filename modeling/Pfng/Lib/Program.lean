import Mathlib.Data.List.Perm.Basic
import Mathlib.Logic.Function.Basic
import Mathlib.Tactic.Common

/-! Checked imperative programs. A computation is an `Option` of its result, and
`none` is an access outside its object. `Ends` is total correctness; each loop
form has one invariant rule. -/
namespace Checked

variable {α β σ ι : Type*}

/-- The computation ends, and its result satisfies `P`. -/
def Ends (c : Option α) (P : α → Prop) : Prop := ∃ x, c = some x ∧ P x

theorem Ends.some {P : α → Prop} {x : α} (h : P x) : Ends (.some x) P := ⟨x, rfl, h⟩

theorem Ends.bind {c : Option α} {f : α → Option β} {P : α → Prop} {Q : β → Prop}
    (hc : Ends c P) (hf : ∀ x, P x → Ends (f x) Q) : Ends (c.bind f) Q := by
  obtain ⟨x, rfl, hx⟩ := hc
  exact hf x hx

theorem Ends.map {c : Option α} {f : α → β} {P : α → Prop} {Q : β → Prop}
    (hc : Ends c P) (hf : ∀ x, P x → Q (f x)) : Ends (c.map f) Q := by
  obtain ⟨x, rfl, hx⟩ := hc
  exact ⟨f x, rfl, hf x hx⟩

theorem Ends.mono {c : Option α} {P Q : α → Prop} (hc : Ends c P) (h : ∀ x, P x → Q x) :
    Ends c Q := by
  obtain ⟨x, hx, hP⟩ := hc
  exact ⟨x, hx, h x hP⟩

/-- `for (i = lo; i < lo + n; ++i) s = body(i, s)`. -/
def forUp (body : ℕ → σ → Option σ) : ℕ → ℕ → σ → Option σ
  | _, 0, s => some s
  | lo, n+1, s => (body lo s).bind (forUp body (lo+1) n)

/-- `for (i = lo + n; i > lo; --i) s = body(i, s)`. -/
def forDown (body : ℕ → σ → Option σ) : ℕ → ℕ → σ → Option σ
  | _, 0, s => some s
  | lo, n+1, s => (body (lo+n+1) s).bind (forDown body lo n)

/-- `for (i : order) s = body(i, s)`. -/
def forEach (body : ι → σ → Option σ) : List ι → σ → Option σ
  | [], s => some s
  | i :: order, s => (body i s).bind (forEach body order)

theorem forUp_eq_forEach (body : ℕ → σ → Option σ) (lo n : ℕ) :
    forUp body lo n = forEach body (List.range' lo n) := by
  induction n generalizing lo with
  | zero => rfl
  | succ n ih =>
      funext s
      rw [forUp, List.range'_succ, forEach, ih]

theorem forUp_shift (body : ℕ → σ → Option σ) (lo n : ℕ) :
    forUp body lo n = forUp (fun i => body (lo + i)) 0 n := by
  have from_start : ∀ i, forUp body (lo + i) n = forUp (fun i => body (lo + i)) i n := by
    induction n with
    | zero =>
        intro i
        rfl
    | succ n ih =>
        intro i
        funext s
        rw [forUp, forUp, Nat.add_assoc, ih]
  exact from_start 0

theorem forUp_some (f : ℕ → σ → σ) (lo n : ℕ) (s : σ) :
    forUp (fun i s => some (f i s)) lo n s = some ((List.range' lo n).foldl (fun s i => f i s) s) := by
  induction n generalizing lo s with
  | zero => rfl
  | succ n ih => exact ih (lo + 1) (f lo s)

theorem forUp_one (body : ℕ → σ → Option σ) (lo : ℕ) : forUp body lo 1 = body lo := by
  funext s
  exact Option.bind_fun_some (body lo s)

theorem forUp_ends {body : ℕ → σ → Option σ} (I : ℕ → σ → Prop) {lo n : ℕ} {s : σ}
    (start : I lo s)
    (step : ∀ i s, lo ≤ i → i < lo + n → I i s → Ends (body i s) (I (i+1))) :
    Ends (forUp body lo n s) (I (lo+n)) := by
  induction n generalizing lo s with
  | zero => exact .some start
  | succ n ih =>
      refine (step lo s (Nat.le_refl lo) (by omega) start).bind fun t ht => ?_
      have later := ih ht (fun i s hlo hi => step i s (by omega) (by omega))
      rwa [Nat.add_right_comm, Nat.add_assoc] at later

theorem loop_ends {body : ℕ → σ → Option σ} (I : ℕ → σ → Prop) {n : ℕ} {s : σ} (start : I 0 s)
    (step : ∀ i < n, ∀ s, I i s → Ends (body i s) (I (i+1))) : Ends (forUp body 0 n s) (I n) := by
  have run : Ends (forUp body 0 n s) (I (0 + n)) :=
    forUp_ends I start fun i s _ hi => step i (by omega) s
  rwa [Nat.zero_add] at run

/-- A loop that sets one entry in each round. -/
theorem updates_ends {f : ℕ → Option β} {P : ℕ → β → Prop} {n : ℕ} (each : ∀ i < n, Ends (f i) (P i))
    (a : ℕ → β) : Ends (forUp (fun i a => (f i).map (Function.update a i)) 0 n a) fun a =>
      ∀ i < n, P i (a i) := by
  refine loop_ends (fun i (a : ℕ → β) => ∀ k < i, P k (a k)) (fun k no => absurd no (Nat.not_lt_zero k))
    fun i hi a done => (each i hi).map fun x holds k hk => ?_
  rcases Nat.lt_succ_iff_lt_or_eq.mp hk with old | rfl
  · rw [Function.update_of_ne (Nat.ne_of_lt old)]
    exact done k old
  · rw [Function.update_self]
    exact holds

/-- Such a loop ends only if every entry is there. -/
theorem updates_some {f : ℕ → Option β} {n lo : ℕ} {a b : ℕ → β}
    (run : forUp (fun i a => (f i).map (Function.update a i)) lo n a = some b) :
    (∀ i, lo ≤ i → i < lo + n → f i = some (b i)) ∧ ∀ i < lo, b i = a i := by
  induction n generalizing lo a with
  | zero =>
      cases run
      exact ⟨fun i low high => by omega, fun i _ => rfl⟩
  | succ n ih =>
      rw [forUp] at run
      cases entry : f lo with
      | none =>
          rw [entry] at run
          cases run
      | some x =>
          rw [entry] at run
          obtain ⟨later, kept⟩ := ih run
          have here : b lo = x := by
            rw [kept lo (Nat.lt_succ_self lo), Function.update_self]
          refine ⟨fun i low high => ?_, fun i low => ?_⟩
          · rcases Nat.eq_or_lt_of_le low with rfl | above
            · rw [entry, here]
            · exact later i above (by omega)
          · rw [kept i (Nat.lt_succ_of_lt low), Function.update_of_ne (Nat.ne_of_lt low)]

theorem forDown_ends {body : ℕ → σ → Option σ} (I : ℕ → σ → Prop) {lo n : ℕ} {s : σ}
    (start : I (lo+n) s)
    (step : ∀ i s, lo ≤ i → i < lo + n → I (i+1) s → Ends (body (i+1) s) (I i)) :
    Ends (forDown body lo n s) (I lo) := by
  induction n generalizing s with
  | zero => exact .some start
  | succ n ih =>
      refine (step (lo+n) s (by omega) (by omega) start).bind fun t ht => ?_
      exact ih ht (fun i s hlo hi => step i s hlo (by omega))

section Pair

variable {τ : Type*}

def pair (c : σ → Option σ) (d : τ → Option τ) : σ × τ → Option (σ × τ) :=
  fun (s, t) => (c s).bind fun s => (d t).map fun t => (s, t)

theorem pair_ends {c : σ → Option σ} {d : τ → Option τ} {s : σ} {t : τ} {P : σ → Prop} {Q : τ → Prop}
    (hc : Ends (c s) P) (hd : Ends (d t) Q) : Ends (pair c d (s, t)) fun r => P r.1 ∧ Q r.2 :=
  hc.bind fun _ hP => hd.map fun _ hQ => ⟨hP, hQ⟩

theorem pair_bind (c c' : σ → Option σ) (d d' : τ → Option τ) (s : σ) (t : τ) :
    (pair c d (s, t)).bind (pair c' d') =
      pair (fun s => (c s).bind c') (fun t => (d t).bind d') (s, t) := by
  simp only [pair]
  cases c s with
  | none => rfl
  | some s =>
      cases d t with
      | none =>
          simp only [Option.bind_some]
          cases c' s with
          | none => rfl
          | some s => rfl
      | some t => rfl

theorem forUp_pair (c : ℕ → σ → Option σ) (d : ℕ → τ → Option τ) (lo n : ℕ) :
    forUp (fun i => pair (c i) (d i)) lo n = pair (forUp c lo n) (forUp d lo n) := by
  induction n generalizing lo with
  | zero => rfl
  | succ n ih =>
      funext ⟨s, t⟩
      rw [forUp, ih, pair_bind]
      rfl

end Pair

def gather {n : ℕ} (f : Fin n → Option α) : Option (Fin n → α) :=
  if h : ∀ i, (f i).isSome then some fun i => (f i).get (h i) else none

theorem gather_ends {n : ℕ} {f : Fin n → Option α} {P : Fin n → α → Prop}
    (each : ∀ i, Ends (f i) (P i)) : Ends (gather f) fun r => ∀ i, P i (r i) := by
  have all : ∀ i, (f i).isSome := by
    intro i
    obtain ⟨x, hx, _⟩ := each i
    rw [hx]
    rfl
  refine ⟨_, dif_pos all, ?_⟩
  intro i
  obtain ⟨x, hx, hP⟩ := each i
  simpa only [hx, Option.get_some] using hP

/-- The states a checked transition system can be in after any finite run. -/
inductive Reach (init : σ) (step : σ → ι → Option (α × σ)) : σ → Prop
  | start : Reach init step init
  | next {s t : σ} {c : ι} {r : α} : Reach init step s → step s c = some (r, t) → Reach init step t

/-- An invariant of the initial state that every call keeps holds in every reachable state. -/
theorem Reach.invariant {init : σ} {step : σ → ι → Option (α × σ)} (I : σ → Prop) (first : I init)
    (keep : ∀ s c, I s → Ends (step s c) fun (_, t) => I t) {s : σ} (h : Reach init step s) :
    I s := by
  induction h with
  | start => exact first
  | next _ run ih =>
      obtain ⟨⟨_, t⟩, same, ht⟩ := keep _ _ ih
      rw [run] at same
      cases same
      exact ht

/-- The state after a list of calls. -/
def runAll (step : σ → ι → Option (α × σ)) : σ → List ι → Option σ
  | s, [] => some s
  | s, c :: cs => (step s c).bind fun (_, t) => runAll step t cs

theorem Reach.runAll {init : σ} {step : σ → ι → Option (α × σ)} {s t : σ} {cs : List ι}
    (h : Reach init step s) (run : runAll step s cs = some t) : Reach init step t := by
  induction cs generalizing s with
  | nil =>
      cases run
      exact h
  | cons c cs ih =>
      obtain ⟨⟨_, u⟩, first, rest⟩ := Option.bind_eq_some_iff.mp run
      exact ih (h.next first) rest

end Checked
