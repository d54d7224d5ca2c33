import Mathlib.Data.List.Nodup
import Mathlib.Order.BooleanAlgebra.Set
import Mathlib.Logic.Function.Basic

/-! Handles that are acquired, used and released: what is held after such events, and the runs whose
every event finds its handle in the right state. -/
namespace Handles

inductive Event (H : Type*)
  | acquire (h : H)
  | use (h : H)
  | release (h : H)

variable {H : Type*}

/-- What is held after an event. -/
def Event.after (held : Set H) : Event H → Set H
  | acquire h => insert h held
  | use _ => held
  | release h => held \ {h}

def Event.Allowed (held : Set H) : Event H → Prop
  | acquire h => h ∉ held
  | use h => h ∈ held
  | release h => h ∈ held

def after (held : Set H) (events : List (Event H)) : Set H := events.foldl Event.after held

/-- Nothing is acquired while it is held, and nothing is used or released unless it is. -/
def Proper : Set H → List (Event H) → Prop
  | _, [] => True
  | held, event :: events => event.Allowed held ∧ Proper (event.after held) events

variable {held : Set H} {events later : List (Event H)} {hs : List H} {h : H}

theorem after_append : after held (events ++ later) = after (after held events) later :=
  List.foldl_append

theorem proper_append :
    Proper held (events ++ later) ↔ Proper held events ∧ Proper (after held events) later := by
  induction events generalizing held with
  | nil => simp [Proper, after]
  | cons event events ih => simp [Proper, after, ih, and_assoc]

theorem after_release (held : Set H) (hs : List H) :
    after held (hs.map .release) = held \ {h | h ∈ hs} := by
  induction hs generalizing held with
  | nil => simp [after]
  | cons h hs ih =>
      have rest : after held ((h :: hs).map .release) = after (held \ {h}) (hs.map .release) := rfl
      rw [rest, ih]
      ext x
      simp [not_or, and_assoc]

theorem proper_release (distinct : hs.Nodup) (all : ∀ h ∈ hs, h ∈ held) :
    Proper held (hs.map .release) := by
  induction hs generalizing held with
  | nil => exact trivial
  | cons h hs ih =>
      obtain ⟨fresh, distinct⟩ := List.nodup_cons.mp distinct
      refine ⟨all h List.mem_cons_self, ih distinct fun x hx => ⟨all x (List.mem_cons_of_mem h hx), ?_⟩⟩
      rintro rfl
      exact fresh hx

/-- Owners hold handles of their own, and together all that is held. -/
structure Owned {ι : Type*} (own : ι → List H) (held : Set H) : Prop where
  distinct : ∀ i, (own i).Nodup
  apart : ∀ i j, ∀ h ∈ own i, h ∈ own j → i = j
  held_iff : ∀ h, h ∈ held ↔ ∃ i, h ∈ own i

namespace Owned

variable {ι : Type*} [DecidableEq ι] {own : ι → List H}

omit [DecidableEq ι] in
theorem mem (owned : Owned own held) (i : ι) : ∀ h ∈ own i, h ∈ held :=
  fun h member => (owned.held_iff h).mpr ⟨i, member⟩

theorem acquire (owned : Owned own held) (i : ι) (fresh : h ∉ held) :
    Owned (Function.update own i (own i ++ [h])) (insert h held) := by
  have free : ∀ j, h ∉ own j := fun j member => fresh (owned.mem j h member)
  have mem_iff : ∀ j x, x ∈ Function.update own i (own i ++ [h]) j ↔ x ∈ own j ∨ (j = i ∧ x = h) := by
    intro j x
    rcases eq_or_ne j i with rfl | other
    · simp
    · simp [other]
  refine ⟨fun j => ?_, fun j k x hj hk => ?_, fun x => ?_⟩
  · rcases eq_or_ne j i with rfl | other
    · rw [Function.update_self, List.nodup_append]
      refine ⟨owned.distinct j, List.nodup_singleton h, ?_⟩
      rintro x member y hy rfl
      exact free j (List.mem_singleton.mp hy ▸ member)
    · rw [Function.update_of_ne other]
      exact owned.distinct j
  · rcases (mem_iff j x).mp hj with inJ | ⟨rfl, rfl⟩ <;> rcases (mem_iff k x).mp hk with inK | ⟨rfl, same⟩
    · exact owned.apart j k x inJ inK
    · exact absurd (same ▸ inJ) (free j)
    · exact absurd inK (free k)
    · rfl
  · simp only [Set.mem_insert_iff, owned.held_iff, mem_iff]
    constructor
    · rintro (rfl | ⟨j, member⟩)
      · exact ⟨i, .inr ⟨rfl, rfl⟩⟩
      · exact ⟨j, .inl member⟩
    · rintro ⟨j, member | ⟨_, rfl⟩⟩
      · exact .inr ⟨j, member⟩
      · exact .inl rfl

/-- An owner releases all it has. -/
theorem release (owned : Owned own held) (i : ι) :
    Owned (Function.update own i []) (held \ {h | h ∈ own i}) := by
  have mem_iff : ∀ j x, x ∈ Function.update own i [] j ↔ j ≠ i ∧ x ∈ own j := by
    intro j x
    rcases eq_or_ne j i with rfl | other
    · simp
    · simp [other]
  refine ⟨fun j => ?_, fun j k x hj hk => ?_, fun x => ?_⟩
  · rcases eq_or_ne j i with rfl | other
    · rw [Function.update_self]
      exact List.nodup_nil
    · rw [Function.update_of_ne other]
      exact owned.distinct j
  · exact owned.apart j k x ((mem_iff j x).mp hj).2 ((mem_iff k x).mp hk).2
  · simp only [Set.mem_sdiff, Set.mem_ofPred_eq, owned.held_iff, mem_iff]
    constructor
    · rintro ⟨⟨j, member⟩, no⟩
      refine ⟨j, ?_, member⟩
      rintro rfl
      exact no member
    · rintro ⟨j, other, member⟩
      exact ⟨⟨j, member⟩, fun here => other (owned.apart j i x member here)⟩

/-- An owner that has nothing takes over from another one. -/
theorem transfer (owned : Owned own held) {i j : ι} (other : i ≠ j) (nothing : own i = []) :
    Owned (Function.update (Function.update own i (own j)) j []) held := by
  have mem_iff : ∀ k x, x ∈ Function.update (Function.update own i (own j)) j [] k ↔
      k ≠ j ∧ (k = i ∧ x ∈ own j ∨ k ≠ i ∧ x ∈ own k) := by
    intro k x
    rcases eq_or_ne k j with rfl | notJ
    · simp
    · rcases eq_or_ne k i with rfl | notI
      · simp [notJ]
      · simp [notJ, notI]
  refine ⟨fun k => ?_, fun k l x hk hl => ?_, fun x => ?_⟩
  · rcases eq_or_ne k j with rfl | notJ
    · rw [Function.update_self]
      exact List.nodup_nil
    · rw [Function.update_of_ne notJ]
      rcases eq_or_ne k i with rfl | notI
      · rw [Function.update_self]
        exact owned.distinct j
      · rw [Function.update_of_ne notI]
        exact owned.distinct k
  · obtain ⟨kNotJ, ⟨rfl, inK⟩ | ⟨_, inK⟩⟩ := (mem_iff k x).mp hk <;>
      obtain ⟨lNotJ, ⟨rfl, inL⟩ | ⟨_, inL⟩⟩ := (mem_iff l x).mp hl
    · rfl
    · exact absurd (owned.apart l j x inL inK) lNotJ
    · exact absurd (owned.apart k j x inK inL) kNotJ
    · exact owned.apart k l x inK inL
  · simp only [owned.held_iff, mem_iff]
    constructor
    · rintro ⟨k, member⟩
      rcases eq_or_ne k j with rfl | notJ
      · exact ⟨i, other, .inl ⟨rfl, member⟩⟩
      · refine ⟨k, notJ, .inr ⟨?_, member⟩⟩
        rintro rfl
        rw [nothing] at member
        exact absurd member List.not_mem_nil
    · rintro ⟨k, _, ⟨_, member⟩ | ⟨_, member⟩⟩
      · exact ⟨j, member⟩
      · exact ⟨k, member⟩

end Owned

end Handles
