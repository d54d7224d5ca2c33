import Mathlib.Data.List.Basic
import Pfng.Lib.Program

/-! A list kept in the first entries of a fixed-capacity array. Opening and closing
a slot are the usual shifting loops; every access is checked against the capacity. -/
namespace Checked

variable {α : Type*} {n : ℕ}

/-- Store `v` at entry `i`, if there is such an entry. -/
def put (xs : Vector α n) (i : ℕ) (v : α) : Option (Vector α n) :=
  if h : i < n then some (xs.set i v h) else none

/-- `for (move = count; move > index; --move) xs[move] = xs[move - 1]`. -/
def shiftUp (xs : Vector α n) (index count : ℕ) : Option (Vector α n) :=
  forDown (fun move xs => xs[move-1]?.bind (put xs move)) index (count - index) xs

/-- `for (move = index + 1; move < count; ++move) xs[move - 1] = xs[move]`. -/
def shiftDown (xs : Vector α n) (index count : ℕ) : Option (Vector α n) :=
  forUp (fun move xs => xs[move]?.bind (put xs (move-1))) (index+1) (count - (index+1)) xs

/-- The first `count` entries of `xs` are the list `l`. -/
structure Stored (xs : Vector α n) (count : ℕ) (l : List α) : Prop where
  length : l.length = count
  fits : count ≤ n
  get : ∀ i < count, xs[i]? = l[i]?

/-- The list around a removed entry, when the last entry was moved over it. -/
def swapRemove (p q : List α) : List α :=
  match q.getLast? with
  | none => p
  | some w => p ++ w :: q.dropLast

theorem swapRemove_perm (p q : List α) : (swapRemove p q).Perm (p ++ q) := by
  rcases List.eq_nil_or_concat q with rfl | ⟨q, w, rfl⟩
  · simp [swapRemove]
  · rw [List.concat_eq_append, swapRemove, List.getLast?_concat, List.dropLast_concat]
    exact (List.perm_append_singleton w q).symm.append_left p

theorem put_getElem? {xs : Vector α n} {i : ℕ} {v : α} (h : i < n) :
    Ends (put xs i v) fun ys => ∀ j, ys[j]? = if i = j then some v else xs[j]? := by
  refine ⟨xs.set i v h, dif_pos h, fun j => ?_⟩
  rw [Vector.getElem?_set]

theorem move_getElem? {xs : Vector α n} {i j : ℕ} (hi : i < n) (hj : j < n) :
    Ends (xs[i]?.bind (put xs j)) fun ys => ∀ k, ys[k]? = if j = k then xs[i]? else xs[k]? := by
  rw [Vector.getElem?_eq_getElem hi]
  exact put_getElem? hj

theorem shiftUp_getElem? {xs : Vector α n} {index count : ℕ} (hi : index ≤ count) (hc : count < n) :
    Ends (shiftUp xs index count) fun ys =>
      ∀ j, ys[j]? = if index < j ∧ j ≤ count then xs[j-1]? else xs[j]? := by
  -- entries above `move` are already shifted, those up to `move` are still the old ones
  refine forDown_ends
    (fun move ys => ∀ j, ys[j]? = if move < j ∧ j ≤ count then xs[j-1]? else xs[j]?) ?_ ?_
  · intro j
    rw [if_neg (by omega)]
  · intro move ys hlo hmove same
    refine (move_getElem? (by omega) (by omega)).mono fun zs moved j => ?_
    rw [moved, same, same]
    grind

theorem shiftDown_getElem? {xs : Vector α n} {index count : ℕ} (hi : index < count) (hc : count ≤ n) :
    Ends (shiftDown xs index count) fun ys =>
      ∀ j, ys[j]? = if index ≤ j ∧ j + 1 < count then xs[j+1]? else xs[j]? := by
  have run : Ends (shiftDown xs index count) fun ys =>
      ∀ j, ys[j]? = if index ≤ j ∧ j + 1 < index + 1 + (count - (index+1)) then xs[j+1]? else xs[j]? :=
    forUp_ends (fun move ys => ∀ j, ys[j]? = if index ≤ j ∧ j + 1 < move then xs[j+1]? else xs[j]?)
      ?_ ?_
  · rwa [show index + 1 + (count - (index+1)) = count by omega] at run
  · intro j
    rw [if_neg (by omega)]
  · intro move ys hlo hmove same
    refine (move_getElem? (by omega) (by omega)).mono fun zs moved j => ?_
    rw [moved, same, same]
    grind

namespace Stored

variable {xs : Vector α n} {count : ℕ} {p q : List α} {v w : α}

theorem nil : Stored xs 0 [] := ⟨rfl, Nat.zero_le _, fun i hi => absurd hi (by omega)⟩

theorem take_eq {l : List α} (h : Stored xs count l) : xs.toList.take count = l := by
  apply List.ext_getElem?
  intro i
  rw [List.getElem?_take, Vector.getElem?_toList]
  split
  · next hi => exact h.get i hi
  · next hi => rw [List.getElem?_eq_none (by rw [h.length]; omega)]

theorem load (h : Stored xs count (p ++ v :: q)) : xs[p.length]? = some v := by
  have len := h.length
  simp only [List.length_append, List.length_cons] at len
  rw [h.get p.length (by omega)]
  simp

theorem replace (h : Stored xs count (p ++ v :: q)) :
    Ends (put xs p.length w) fun ys => Stored ys count (p ++ w :: q) := by
  have len := h.length
  simp only [List.length_append, List.length_cons] at len
  refine (put_getElem? (by have := h.fits; omega)).mono fun ys same => ⟨?_, h.fits, fun i hi => ?_⟩
  · simpa using len
  · rw [same, h.get i hi]
    grind

/-- Shifting up from `p.length` leaves a slot there; what it holds does not matter. -/
theorem open_slot (h : Stored xs count (p ++ q)) (room : count < n) :
    Ends (shiftUp xs p.length count) fun ys => ∃ w, Stored ys (count+1) (p ++ w :: q) := by
  have len := h.length
  simp only [List.length_append] at len
  refine (shiftUp_getElem? (by omega) room).mono fun ys shifted => ?_
  refine ⟨ys[p.length], ?_, room, fun i hi => ?_⟩
  · simp only [List.length_append, List.length_cons]
    omega
  · have old := h.get
    have slot : ys[p.length]? = some ys[p.length] := Vector.getElem?_eq_getElem (by omega)
    grind

theorem remove (h : Stored xs count (p ++ v :: q)) :
    Ends (shiftDown xs p.length count) fun ys => Stored ys (count-1) (p ++ q) := by
  have len := h.length
  have fits := h.fits
  simp only [List.length_append, List.length_cons] at len
  refine (shiftDown_getElem? (by omega) h.fits).mono fun ys shifted => ⟨?_, by omega, fun i hi => ?_⟩
  · simp only [List.length_append]
    omega
  · have old := h.get
    grind

theorem pop {l : List α} (h : Stored xs (count+1) (l ++ [v])) : Stored xs count l := by
  have len := h.length
  rw [List.length_append, List.length_singleton] at len
  refine ⟨by omega, by have := h.fits; omega, fun i hi => ?_⟩
  rw [h.get i (by omega), List.getElem?_append_left (by omega)]

theorem push {l : List α} (h : Stored xs count l) (room : count < n) :
    Ends (put xs count v) fun ys => Stored ys (count+1) (l ++ [v]) := by
  have len := h.length
  refine (put_getElem? room).mono fun ys same => ⟨by simp [len], room, fun i hi => ?_⟩
  have old := h.get
  grind

/-- Moving the last entry over the entry at `p.length` removes the latter. -/
theorem swap_remove (h : Stored xs count (p ++ v :: q)) :
    Ends (xs[count-1]?.bind (put xs p.length)) fun ys => Stored ys (count-1) (swapRemove p q) := by
  have len := h.length
  rcases List.eq_nil_or_concat q with rfl | ⟨q, w, rfl⟩
  · rw [List.length_append, List.length_singleton] at len
    subst len
    rw [Nat.add_sub_cancel, h.load]
    exact (h.replace (w := v)).mono fun ys stored => stored.pop
  · rw [List.concat_eq_append] at *
    rw [List.length_append, List.length_cons, List.length_append, List.length_singleton] at len
    have last := h
    rw [show p ++ v :: (q ++ [w]) = (p ++ v :: q) ++ w :: [] by simp] at last
    have here := last.load
    rw [show (p ++ v :: q).length = count - 1 by simp; omega] at here
    rw [here]
    refine (h.replace (w := w)).mono fun ys stored => ?_
    rw [swapRemove, List.getLast?_concat, List.dropLast_concat]
    rw [show p ++ w :: (q ++ [w]) = (p ++ w :: q) ++ [w] by simp,
      show count = count - 1 + 1 by omega] at stored
    exact stored.pop

end Stored

end Checked
