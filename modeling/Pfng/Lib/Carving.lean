import Pfng.Lib.Extents

/-! Cutting a run out of a separated list and giving an extent back to it. Both
operations keep the list separated, and their effect on the covered numbers is exact. -/
namespace Extent

/-- What is left of `e` when the run of `n` numbers from `a` is cut out of it. -/
def carve (e : Extent) (a n : ℕ) : List Extent :=
  (if a = e.offset then [] else [⟨e.offset, a - e.offset⟩]) ++
    (if a + n = e.stop then [] else [⟨a + n, e.stop - (a + n)⟩])

/-- Put `b` in front of `q`, merged with the first extent there when they touch. -/
def joinRight (b : Extent) : List Extent → List Extent
  | [] => [b]
  | f :: q => if b.stop = f.offset then ⟨b.offset, b.size + f.size⟩ :: q else b :: f :: q

/-- Put `b` between `p` and `q`, merged with the neighbours it touches. -/
def join (p : List Extent) (b : Extent) (q : List Extent) : List Extent :=
  match p.getLast? with
  | none => joinRight b q
  | some e =>
      if e.stop = b.offset then p.dropLast ++ joinRight ⟨e.offset, e.size + b.size⟩ q
      else p ++ joinRight b q

@[simp] theorem join_nil (b : Extent) (q : List Extent) : join [] b q = joinRight b q := rfl

theorem join_concat (p : List Extent) (e b : Extent) (q : List Extent) :
    join (p ++ [e]) b q =
      if e.stop = b.offset then p ++ joinRight ⟨e.offset, e.size + b.size⟩ q
      else p ++ [e] ++ joinRight b q := by
  simp only [join, List.getLast?_concat, List.dropLast_concat]

section Carve

variable {e : Extent} {a n : ℕ} (low : e.offset ≤ a) (high : a + n ≤ e.stop)
include low high

theorem mem_carve_bounds {g : Extent} (hg : g ∈ carve e a n) :
    0 < g.size ∧ e.offset ≤ g.offset ∧ g.stop ≤ e.stop := by
  simp only [carve, List.mem_append] at hg
  rcases hg with hg | hg
  all_goals
    split at hg
    · cases hg
    · obtain rfl := List.mem_singleton.mp hg
      simp only [stop] at *
      omega

theorem covers_carve (x : ℕ) :
    Covers (carve e a n) x ↔ e.Contains x ∧ ¬ (⟨a, n⟩ : Extent).Contains x := by
  simp only [carve, covers_append]
  split_ifs
  all_goals
    simp only [covers_cons, covers_nil, Contains, stop, or_false, false_or, false_iff] at *
    omega

theorem separated_carve (pos : 0 < n) : Separated (carve e a n) := by
  simp only [carve]
  rw [separated_append]
  simp only [stop] at high
  refine ⟨?_, ?_, ?_⟩
  · split
    · exact separated_nil
    · exact separated_cons.mpr ⟨by dsimp only; omega, by simp, separated_nil⟩
  · split
    · exact separated_nil
    · exact separated_cons.mpr ⟨by simp only [stop] at *; omega, by simp, separated_nil⟩
  · intro f hf g hg
    split at hf <;> split at hg <;> simp only [List.mem_singleton, List.not_mem_nil] at hf hg
    subst hf hg
    simp only [Before, stop]
    omega

end Carve

/-- Cutting a run out of one extent of a separated list. -/
theorem Separated.carve {p q : List Extent} {e : Extent} {a n : ℕ} (h : Separated (p ++ e :: q))
    (low : e.offset ≤ a) (high : a + n ≤ e.stop) (pos : 0 < n) :
    Separated (p ++ (carve e a n ++ q)) ∧
      ∀ x, Covers (p ++ (Extent.carve e a n ++ q)) x ↔
        Covers (p ++ e :: q) x ∧ ¬ (⟨a, n⟩ : Extent).Contains x := by
  obtain ⟨hp, heq, cross⟩ := separated_append.mp h
  obtain ⟨-, after, hq⟩ := separated_cons.mp heq
  constructor
  · refine separated_append.mpr ⟨hp, separated_append.mpr
      ⟨separated_carve low high pos, hq, fun g hg f hf => ?_⟩, fun f hf g hg => ?_⟩
    · have inside := mem_carve_bounds low high hg
      have := after f hf
      simp only [Before] at *
      omega
    · rcases List.mem_append.mp hg with hg | hg
      · have inside := mem_carve_bounds low high hg
        have := cross f hf e (by simp)
        simp only [Before] at *
        omega
      · exact cross f hf g (by simp [hg])
  · intro x
    -- numbers of the run lie in `e`, so no extent of `p` or `q` contains them
    have left : ∀ f ∈ p, f.Contains x → ¬ (⟨a, n⟩ : Extent).Contains x := fun f hf inside => by
      have := cross f hf e (by simp)
      simp only [Before, Contains, stop] at *
      omega
    have right : ∀ f ∈ q, f.Contains x → ¬ (⟨a, n⟩ : Extent).Contains x := fun f hf inside => by
      have := after f hf
      simp only [Before, Contains, stop] at *
      omega
    simp only [covers_append, covers_cons, covers_carve low high]
    constructor
    · rintro (⟨f, hf, inside⟩ | ⟨inside, out⟩ | ⟨f, hf, inside⟩)
      · exact ⟨.inl ⟨f, hf, inside⟩, left f hf inside⟩
      · exact ⟨.inr (.inl inside), out⟩
      · exact ⟨.inr (.inr ⟨f, hf, inside⟩), right f hf inside⟩
    · rintro ⟨inside | inside | inside, out⟩
      · exact .inl inside
      · exact .inr (.inl ⟨inside, out⟩)
      · exact .inr (.inr inside)

theorem joinRight_spec {b : Extent} {q : List Extent} (hq : Separated q) (pos : 0 < b.size)
    (after : ∀ f ∈ q, b.stop ≤ f.offset) :
    Separated (joinRight b q) ∧ (∀ x, Covers (joinRight b q) x ↔ b.Contains x ∨ Covers q x) ∧
      ∀ g ∈ joinRight b q, b.offset ≤ g.offset := by
  cases q with
  | nil => simp [joinRight, separated_cons, pos]
  | cons f q =>
      obtain ⟨fpos, fbefore, hq⟩ := separated_cons.mp hq
      have bf := after f (by simp)
      have far : ∀ g ∈ q, b.stop < g.offset := fun g hg => by
        have := fbefore g hg
        simp only [Before, stop] at *
        omega
      simp only [joinRight]
      split
      · next touch =>
          refine ⟨separated_cons.mpr ⟨by dsimp only; omega, fun g hg => ?_, hq⟩, fun x => ?_, ?_⟩
          · have := fbefore g hg
            simp only [Before, stop] at *
            omega
          · simp only [covers_cons, Contains, stop] at *
            by_cases later : Covers q x
            · simp [later]
            · simp only [later, or_false]
              omega
          · intro g hg
            rcases List.mem_cons.mp hg with rfl | hg
            · exact Nat.le_refl _
            · have := far g hg
              simp only [stop] at this
              omega
      · next gap =>
          refine ⟨separated_cons.mpr ⟨pos, fun g hg => ?_, separated_cons.mpr ⟨fpos, fbefore, hq⟩⟩,
            fun x => by simp only [covers_cons], ?_⟩
          · rcases List.mem_cons.mp hg with rfl | hg
            · exact Nat.lt_of_le_of_ne bf gap
            · exact far g hg
          · intro g hg
            simp only [List.mem_cons] at hg
            simp only [stop] at bf far
            rcases hg with rfl | rfl | hg
            · exact Nat.le_refl _
            · omega
            · have := far g hg
              omega

/-- Giving back an extent that meets none of the list's. -/
theorem join_spec {p q : List Extent} {b : Extent} (h : Separated (p ++ q)) (pos : 0 < b.size)
    (before : ∀ e ∈ p, e.stop ≤ b.offset) (after : ∀ f ∈ q, b.stop ≤ f.offset) :
    Separated (join p b q) ∧ ∀ x, Covers (join p b q) x ↔ Covers (p ++ q) x ∨ b.Contains x := by
  obtain ⟨hp, hq, cross⟩ := separated_append.mp h
  rcases List.eq_nil_or_concat p with rfl | ⟨p, e, rfl⟩
  · obtain ⟨sep, cov, -⟩ := joinRight_spec hq pos after
    exact ⟨sep, fun x => by rw [join_nil, cov, List.nil_append, or_comm]⟩
  · rw [List.concat_eq_append] at *
    obtain ⟨hp', he, gap⟩ := separated_append.mp hp
    have epos := he.nonempty e (by simp)
    have eb := before e (by simp)
    rw [join_concat]
    split
    · next touch =>
        -- the merged extent spans `e` and `b`
        obtain ⟨sep, cov, low⟩ := joinRight_spec (b := ⟨e.offset, e.size + b.size⟩) hq
          (by dsimp only; omega) (fun f hf => by have := after f hf; simp only [stop] at *; omega)
        refine ⟨separated_append.mpr ⟨hp', sep, fun f hf g hg => ?_⟩, fun x => ?_⟩
        · exact Nat.lt_of_lt_of_le (gap f hf e (by simp)) (low g hg)
        · simp only [covers_append, covers_cons, covers_nil, or_false, cov]
          have merged : (⟨e.offset, e.size + b.size⟩ : Extent).Contains x ↔
              e.Contains x ∨ b.Contains x := by
            simp only [Contains, stop] at *
            omega
          rw [merged]
          tauto
    · next apart =>
        obtain ⟨sep, cov, low⟩ := joinRight_spec hq pos after
        refine ⟨separated_append.mpr ⟨hp, sep, fun f hf g hg => ?_⟩, fun x => ?_⟩
        · have far := low g hg
          rcases List.mem_append.mp hf with hf | hf
          · have := gap f hf e (by simp)
            simp only [Before, stop] at *
            omega
          · obtain rfl := List.mem_singleton.mp hf
            simp only [Before]
            omega
        · simp only [covers_append, cov]
          tauto

end Extent
