import Mathlib.Data.List.Basic
import Mathlib.Data.List.Nodup
import Mathlib.Order.Nat
import Mathlib.Tactic.Common

/-! Lists of half-open extents of natural numbers. A separated list is sorted, has no
empty extent and keeps at least one uncovered number between neighbours; it is the
only separated list with its covered numbers. -/

/-- The numbers `offset, ..., offset + size - 1`. -/
structure Extent where
  offset : ℕ
  size : ℕ
  deriving DecidableEq, Repr

namespace Extent

def stop (e : Extent) : ℕ := e.offset + e.size

def Contains (e : Extent) (x : ℕ) : Prop := e.offset ≤ x ∧ x < e.stop

def Before (e f : Extent) : Prop := e.stop < f.offset

def Apart (e f : Extent) : Prop := e.stop ≤ f.offset ∨ f.stop ≤ e.offset

instance (e : Extent) (x : ℕ) : Decidable (e.Contains x) := inferInstanceAs (Decidable (_ ∧ _))
instance (e f : Extent) : Decidable (e.Before f) := inferInstanceAs (Decidable (_ < _))
instance (e f : Extent) : Decidable (e.Apart f) := inferInstanceAs (Decidable (_ ∨ _))

/-- Some extent of the list contains `x`. -/
def Covers (l : List Extent) (x : ℕ) : Prop := ∃ e ∈ l, e.Contains x

structure Separated (l : List Extent) : Prop where
  nonempty : ∀ e ∈ l, 0 < e.size
  before : l.Pairwise Before

@[simp] theorem covers_nil (x : ℕ) : ¬ Covers [] x := by simp [Covers]

@[simp] theorem covers_cons (e : Extent) (l : List Extent) (x : ℕ) :
    Covers (e :: l) x ↔ e.Contains x ∨ Covers l x := by simp [Covers]

@[simp] theorem covers_append (l k : List Extent) (x : ℕ) :
    Covers (l ++ k) x ↔ Covers l x ∨ Covers k x := by
  simp only [Covers, List.mem_append, or_and_right, exists_or]

@[simp] theorem separated_nil : Separated [] := ⟨by simp, .nil⟩

theorem separated_cons {e : Extent} {l : List Extent} :
    Separated (e :: l) ↔ 0 < e.size ∧ (∀ f ∈ l, e.Before f) ∧ Separated l := by
  constructor
  · rintro ⟨pos, before⟩
    have ⟨head, tail⟩ := List.pairwise_cons.mp before
    exact ⟨pos e (by simp), head, fun f hf => pos f (by simp [hf]), tail⟩
  · rintro ⟨pos, head, tail⟩
    refine ⟨?_, List.pairwise_cons.mpr ⟨head, tail.before⟩⟩
    intro f hf
    rcases List.mem_cons.mp hf with rfl | hf
    · exact pos
    · exact tail.nonempty f hf

theorem separated_append {l k : List Extent} :
    Separated (l ++ k) ↔ Separated l ∧ Separated k ∧ ∀ e ∈ l, ∀ f ∈ k, e.Before f := by
  constructor
  · rintro ⟨pos, before⟩
    have ⟨hl, hk, cross⟩ := List.pairwise_append.mp before
    exact ⟨⟨fun e he => pos e (by simp [he]), hl⟩, ⟨fun e he => pos e (by simp [he]), hk⟩, cross⟩
  · rintro ⟨hl, hk, cross⟩
    refine ⟨?_, List.pairwise_append.mpr ⟨hl.before, hk.before, cross⟩⟩
    intro e he
    rcases List.mem_append.mp he with he | he
    · exact hl.nonempty e he
    · exact hk.nonempty e he

namespace Separated

theorem offset_le {e : Extent} {l : List Extent} (h : Separated (e :: l)) {x : ℕ}
    (hx : Covers (e :: l) x) : e.offset ≤ x := by
  obtain ⟨f, hf, low, -⟩ := hx
  rcases List.mem_cons.mp hf with rfl | hf
  · exact low
  · have := (separated_cons.mp h).2.1 f hf
    simp only [Before, stop] at this
    omega

theorem not_covers_stop {e : Extent} {l : List Extent} (h : Separated (e :: l)) :
    ¬ Covers (e :: l) e.stop := by
  rintro ⟨f, hf, low, high⟩
  rcases List.mem_cons.mp hf with rfl | hf
  · exact absurd high (Nat.lt_irrefl _)
  · have := (separated_cons.mp h).2.1 f hf
    simp only [Before] at this
    omega

/-- The rest of a separated list covers what lies past the first extent. -/
theorem covers_tail {e : Extent} {l : List Extent} (h : Separated (e :: l)) (x : ℕ) :
    Covers l x ↔ Covers (e :: l) x ∧ e.stop ≤ x := by
  rw [covers_cons]
  constructor
  · rintro ⟨f, hf, inside⟩
    have := (separated_cons.mp h).2.1 f hf
    simp only [Before, Contains] at this inside
    exact ⟨.inr ⟨f, hf, inside⟩, by omega⟩
  · rintro ⟨inside | inside, past⟩
    · exact absurd inside.2 (by omega)
    · exact inside

theorem head_covers {e : Extent} {l : List Extent} (h : Separated (e :: l)) :
    Covers (e :: l) e.offset := by
  have := (separated_cons.mp h).1
  exact ⟨e, by simp, by simp only [Contains, stop]; omega⟩

private theorem stop_le_of_covers {e f : Extent} {l k : List Extent}
    (hk : Separated (f :: k)) (same : ∀ x, Covers (e :: l) x → Covers (f :: k) x)
    (start : e.offset = f.offset) : e.stop ≤ f.stop := by
  by_contra longer
  have pos := (separated_cons.mp hk).1
  refine hk.not_covers_stop (same f.stop ⟨e, by simp, ?_, by omega⟩)
  simp only [stop]
  omega

/-- A separated list is determined by the numbers it covers. -/
theorem ext {l k : List Extent} (hl : Separated l) (hk : Separated k)
    (same : ∀ x, Covers l x ↔ Covers k x) : l = k := by
  induction l generalizing k with
  | nil =>
      cases k with
      | nil => rfl
      | cons f k => exact absurd ((same f.offset).mpr hk.head_covers) (covers_nil _)
  | cons e l ih =>
      cases k with
      | nil => exact absurd ((same e.offset).mp hl.head_covers) (covers_nil _)
      | cons f k =>
          have start : e.offset = f.offset := Nat.le_antisymm
            (hl.offset_le ((same _).mpr hk.head_covers)) (hk.offset_le ((same _).mp hl.head_covers))
          have finish : e.stop = f.stop := Nat.le_antisymm
            (stop_le_of_covers hk (fun x => (same x).mp) start)
            (stop_le_of_covers hl (fun x => (same x).mpr) start.symm)
          have heads : e = f := by
            cases e; cases f
            simp only [stop, mk.injEq] at start finish ⊢
            omega
          subst heads
          congr 1
          refine ih (separated_cons.mp hl).2.2 (separated_cons.mp hk).2.2 fun x => ?_
          rw [hl.covers_tail, hk.covers_tail, same]

/-- A covered run of numbers lies inside one extent: there is nothing to hop over a gap with. -/
theorem run_inside {l : List Extent} (h : Separated l) {a n : ℕ} (pos : 0 < n)
    (covered : ∀ x, a ≤ x → x < a + n → Covers l x) :
    ∃ e ∈ l, e.offset ≤ a ∧ a + n ≤ e.stop := by
  induction l with
  | nil => exact absurd (covered a le_rfl (by omega)) (covers_nil _)
  | cons e l ih =>
      by_cases inside : a < e.stop
      · refine ⟨e, by simp, h.offset_le (covered a le_rfl (by omega)), ?_⟩
        by_contra longer
        exact h.not_covers_stop (covered e.stop (by omega) (by omega))
      · obtain ⟨f, hf, bounds⟩ := ih (separated_cons.mp h).2.2 fun x low high =>
          (h.covers_tail x).mpr ⟨covered x low high, by omega⟩
        exact ⟨f, by simp [hf], bounds⟩

theorem eq_of_contains {l : List Extent} (h : Separated l) {e f : Extent} {x : ℕ} (he : e ∈ l)
    (hf : f ∈ l) (hx : e.Contains x) (hx' : f.Contains x) : e = f := by
  induction l with
  | nil => cases he
  | cons g l ih =>
      obtain ⟨-, after, tail⟩ := separated_cons.mp h
      rcases List.mem_cons.mp he with rfl | hel <;> rcases List.mem_cons.mp hf with rfl | hfl
      · rfl
      · have := after f hfl
        simp only [Before, Contains] at *
        omega
      · have := after e hel
        simp only [Before, Contains] at *
        omega
      · exact ih tail hel hfl

theorem le_offset {l : List Extent} (h : Separated l) {x : ℕ}
    (head : ∀ e, l.head? = some e → x ≤ e.offset) : ∀ e ∈ l, x ≤ e.offset := by
  intro f hf
  cases l with
  | nil => cases hf
  | cons e l =>
      have first := head e rfl
      rcases List.mem_cons.mp hf with rfl | later
      · exact first
      · have := (separated_cons.mp h).2.1 f later
        simp only [Before, stop] at this
        omega

theorem offsets_nodup {l : List Extent} (h : Separated l) : (l.map offset).Nodup := by
  refine List.pairwise_map.mpr (h.before.imp_of_mem fun {e f} he hf before => ?_)
  have := h.nonempty e he
  simp only [Before, stop] at before
  omega

end Separated

end Extent
