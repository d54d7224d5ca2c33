import Mathlib.Data.List.Nodup
import Mathlib.Data.List.Perm.Basic

/-! Dictionaries that keep the order in which their keys were first set. -/
namespace Dict

variable {κ β ι : Type*} [DecidableEq κ]

def get? (d : List (κ × β)) (k : κ) : Option β := (d.find? (·.1 = k)).map Prod.snd

/-- The value at `k` becomes what `f` makes of the one before; a new key goes to the end. -/
def update (k : κ) (f : Option β → β) : List (κ × β) → List (κ × β)
  | [] => [(k, f none)]
  | (k', x) :: rest => if k' = k then (k', f (some x)) :: rest else (k', x) :: update k f rest

def collect (key : ι → κ) (f : ι → Option β → β) (d : List (κ × β)) (order : List ι) : List (κ × β) :=
  order.foldl (fun d i => update (key i) (f i) d) d

def keys (d : List (κ × β)) : List κ := d.map Prod.fst

variable {d d' : List (κ × β)} {k k' : κ} {f : Option β → β}

@[simp] theorem get?_nil : get? ([] : List (κ × β)) k = none := rfl

theorem get?_cons {x : β} : get? ((k', x) :: d) k = if k' = k then some x else get? d k := by
  unfold get?
  rw [List.find?_cons]
  by_cases same : k' = k <;> simp [same]

theorem get?_update : get? (update k f d) k' = if k' = k then some (f (get? d k)) else get? d k' := by
  induction d with
  | nil =>
      rw [update, get?_cons, get?_nil, get?_nil]
      simp only [eq_comm]
  | cons entry d ih =>
      obtain ⟨key, x⟩ := entry
      rw [update]
      by_cases here : key = k
      · subst here
        rw [if_pos rfl, get?_cons, get?_cons, if_pos rfl, get?_cons]
        by_cases same : k' = key
        · rw [if_pos same.symm, if_pos same]
        · rw [if_neg (Ne.symm same), if_neg same, if_neg (Ne.symm same)]
      · rw [if_neg here, get?_cons, ih, get?_cons, if_neg here, get?_cons]
        by_cases same : k' = k
        · subst same
          rw [if_pos rfl, if_pos rfl, if_neg here]
        · rw [if_neg same, if_neg same]

theorem keys_update : keys (update k f d) = if k ∈ keys d then keys d else keys d ++ [k] := by
  induction d with
  | nil => rfl
  | cons entry d ih =>
      obtain ⟨key, x⟩ := entry
      unfold keys at ih ⊢
      rw [update, List.map_cons]
      by_cases here : key = k
      · rw [if_pos here, if_pos (by rw [here]; exact List.mem_cons_self), List.map_cons]
      · rw [if_neg here, List.map_cons, ih]
        by_cases old : k ∈ d.map Prod.fst
        · rw [if_pos old, if_pos (List.mem_cons_of_mem _ old)]
        · have new : k ∉ key :: d.map Prod.fst := by
            rw [List.mem_cons, not_or]
            exact ⟨Ne.symm here, old⟩
          rw [if_neg old, if_neg new, List.cons_append]

theorem keys_update_of_mem (old : k ∈ keys d) : keys (update k f d) = keys d := by
  rw [keys_update, if_pos old]

theorem eq_map_keys (once : (keys d).Nodup) (default : β) :
    d = (keys d).map fun k => (k, (get? d k).getD default) := by
  induction d with
  | nil => rfl
  | cons entry d ih =>
      obtain ⟨key, x⟩ := entry
      obtain ⟨new, once⟩ := List.nodup_cons.mp once
      have rest : (keys d).map (fun k => (k, (get? ((key, x) :: d) k).getD default)) =
          (keys d).map fun k => (k, (get? d k).getD default) := by
        refine List.map_congr_left fun k member => ?_
        have other : key ≠ k := by
          rintro rfl
          exact new member
        rw [get?_cons, if_neg other]
      change (key, x) :: d = (key, _) :: (keys d).map _
      rw [rest, ← ih once, get?_cons, if_pos rfl, Option.getD_some]

section Collect

variable {key : ι → κ} {step : ι → Option β → β} {order : List ι}

theorem keys_collect_nodup (once : (keys d).Nodup) : (keys (collect key step d order)).Nodup := by
  induction order generalizing d with
  | nil => exact once
  | cons i order ih =>
      refine ih ?_
      rw [keys_update]
      split
      · exact once
      · next new => exact once.append (List.nodup_singleton _) (by simpa using new)

theorem mem_keys_collect :
    k ∈ keys (collect key step d order) ↔ k ∈ keys d ∨ ∃ i ∈ order, key i = k := by
  induction order generalizing d with
  | nil => simp [collect]
  | cons i order ih =>
      change k ∈ keys (collect key step (update (key i) (step i) d) order) ↔ _
      rw [ih, keys_update]
      by_cases old : key i ∈ keys d
      · rw [if_pos old]
        simp only [List.mem_cons, exists_eq_or_imp]
        constructor
        · rintro (here | later)
          · exact .inl here
          · exact .inr (.inr later)
        · rintro (here | rfl | later)
          · exact .inl here
          · exact .inl old
          · exact .inr later
      · rw [if_neg old, List.mem_append, List.mem_singleton, or_assoc, eq_comm]
        simp only [List.mem_cons, exists_eq_or_imp]

/-- The value of a key comes from the updates of that key, in order. -/
theorem get?_collect : get? (collect key step d order) k =
    (order.filter (key · = k)).foldl (fun x i => some (step i x)) (get? d k) := by
  induction order generalizing d with
  | nil => rfl
  | cons i order ih =>
      change get? (collect key step (update (key i) (step i) d) order) k = _
      rw [ih, get?_update, List.filter_cons]
      by_cases here : key i = k
      · subst here
        simp
      · simp [here, Ne.symm here]

/-- Keys that are set for the first time, in the order in which they come. -/
theorem keys_collect_of_nodup (new : ∀ i ∈ order, key i ∉ keys d) (once : (order.map key).Nodup) :
    keys (collect key step d order) = keys d ++ order.map key := by
  induction order generalizing d with
  | nil => exact (List.append_nil _).symm
  | cons i order ih =>
      obtain ⟨here, once⟩ := List.nodup_cons.mp once
      change keys (collect key step (update (key i) (step i) d) order) = _
      have added : keys (update (key i) (step i) d) = keys d ++ [key i] := by
        rw [keys_update, if_neg (new i List.mem_cons_self)]
      rw [ih ?_ once, added, List.map_cons, List.append_assoc, List.singleton_append]
      intro j member
      rw [added, List.mem_append, List.mem_singleton, not_or]
      refine ⟨new j (List.mem_cons_of_mem _ member), ?_⟩
      rintro same
      exact here (same ▸ List.mem_map_of_mem member)

end Collect

end Dict
