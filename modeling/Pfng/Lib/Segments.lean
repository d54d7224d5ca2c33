import Mathlib.Data.List.Basic
import Mathlib.Data.Nat.Notation
import Mathlib.Tactic.Common

/-! The maximal stretches of a list without a separator: as a list, as spans of places, and as a scan
from separator to separator finds them. -/
namespace Segments

variable {α : Type*} {sep : α} {xs first rest : List α} {b e : ℕ}

/-- The places from `b` up to `e` are a maximal nonempty stretch without `sep`. -/
structure IsSegment (sep : α) (xs : List α) (b e : ℕ) : Prop where
  nonempty : b < e
  inside : e ≤ xs.length
  clear : ∀ i, b ≤ i → i < e → xs[i]? ≠ some sep
  opened : b = 0 ∨ xs[b - 1]? = some sep
  closed : e = xs.length ∨ xs[e]? = some sep

def slice (xs : List α) (b e : ℕ) : List α := (xs.drop b).take (e - b)

theorem slice_append_left (xs ys : List α) : slice (xs ++ ys) 0 xs.length = xs := by
  simp [slice]

@[simp] theorem slice_append_right (xs ys : List α) (b e : ℕ) :
    slice (xs ++ ys) (xs.length + b) (xs.length + e) = slice ys b e := by
  simp only [slice, List.drop_append, Nat.add_sub_cancel_left, Nat.add_sub_add_left]
  rw [List.drop_of_length_le (Nat.le_add_right _ _), List.nil_append]

/-- A list has no separator, or is cut at its first one. -/
@[elab_as_elim]
theorem cut_induction (sep : α) {P : List α → Prop} (whole : ∀ xs, sep ∉ xs → P xs)
    (cut : ∀ first rest, sep ∉ first → P rest → P (first ++ sep :: rest)) (xs : List α) : P xs := by
  by_cases h : sep ∈ xs
  · obtain ⟨first, rest, parts, absent⟩ := List.eq_append_cons_of_mem h
    have shorter : rest.length < xs.length := by
      rw [parts, List.length_append, List.length_cons]
      omega
    rw [parts]
    exact cut first rest absent (cut_induction sep whole cut rest)
  · exact whole xs h
termination_by xs.length

section Spans

theorem isSegment_whole (absent : sep ∉ xs) :
    IsSegment sep xs b e ↔ xs ≠ [] ∧ b = 0 ∧ e = xs.length := by
  have none (i : ℕ) : xs[i]? ≠ some sep := fun h => absent (List.mem_of_getElem? h)
  constructor
  · intro h
    have hb := h.opened.resolve_right (none _)
    have he := h.closed.resolve_right (none _)
    refine ⟨?_, hb, he⟩
    rintro rfl
    rw [he] at h
    exact Nat.not_lt_zero b h.nonempty
  · rintro ⟨some, rfl, rfl⟩
    exact ⟨List.length_pos_iff.mpr some, Nat.le_refl _, fun i _ _ => none i, Or.inl rfl, Or.inl rfl⟩

theorem getElem?_first (absent : sep ∉ first) {i : ℕ} (h : i < first.length) :
    (first ++ sep :: rest)[i]? ≠ some sep := by
  rw [List.getElem?_append_left h]
  exact fun found => absent (List.mem_of_getElem? found)

theorem getElem?_rest (first rest : List α) (i : ℕ) :
    (first ++ sep :: rest)[first.length + (1 + i)]? = rest[i]? := by
  rw [List.getElem?_append_right (Nat.le_add_right _ _), Nat.add_sub_cancel_left, Nat.add_comm 1 i,
    List.getElem?_cons_succ]

theorem IsSegment.of_first (absent : sep ∉ first) (some : first ≠ []) :
    IsSegment sep (first ++ sep :: rest) 0 first.length :=
  ⟨List.length_pos_iff.mpr some, by simp, fun _ _ h => getElem?_first absent h, Or.inl rfl,
    Or.inr (by simp)⟩

theorem IsSegment.of_rest (first : List α) (h : IsSegment sep rest b e) :
    IsSegment sep (first ++ sep :: rest) (first.length + (1 + b)) (first.length + (1 + e)) where
  nonempty := by have := h.nonempty; omega
  inside := by have := h.inside; simp; omega
  clear i hb he := by
    obtain ⟨j, rfl⟩ := Nat.exists_eq_add_of_le (show first.length + 1 ≤ i by omega)
    rw [Nat.add_assoc, getElem?_rest]
    exact h.clear j (by omega) (by omega)
  opened := by
    right
    cases b with
    | zero => simp
    | succ b =>
      rw [show first.length + (1 + (b + 1)) - 1 = first.length + (1 + b) by omega, getElem?_rest]
      exact h.opened.resolve_left (Nat.succ_ne_zero b)
  closed := by
    rw [getElem?_rest]
    refine h.closed.imp_left fun he => ?_
    simp [he, Nat.add_comm]

theorem IsSegment.to_first (absent : sep ∉ first) (h : IsSegment sep (first ++ sep :: rest) b e)
    (he : e ≤ first.length) : first ≠ [] ∧ b = 0 ∧ e = first.length := by
  have hb : b < first.length := Nat.lt_of_lt_of_le h.nonempty he
  refine ⟨List.length_pos_iff.mp (Nat.zero_lt_of_lt hb), ?_, Nat.le_antisymm he ?_⟩
  · exact h.opened.resolve_right (getElem?_first absent (by omega))
  · by_contra inside
    refine h.closed.elim (fun whole => ?_) (getElem?_first absent (Nat.lt_of_not_le inside))
    simp only [List.length_append, List.length_cons] at whole
    omega

theorem IsSegment.to_rest (h : IsSegment sep (first ++ sep :: rest) (first.length + (1 + b))
    (first.length + (1 + e))) : IsSegment sep rest b e where
  nonempty := by have := h.nonempty; omega
  inside := by have := h.inside; simp at this; omega
  clear i hb he := by
    rw [← getElem?_rest first rest i]
    exact h.clear _ (by omega) (by omega)
  opened := by
    cases b with
    | zero => exact Or.inl rfl
    | succ b =>
      right
      have opened := h.opened.resolve_left (by omega)
      rwa [show first.length + (1 + (b + 1)) - 1 = first.length + (1 + b) by omega,
        getElem?_rest] at opened
  closed := by
    have closed := h.closed
    rw [getElem?_rest] at closed
    refine closed.imp_left fun he => ?_
    simp at he
    omega

/-- A segment of a cut list lies before the separator or after it. -/
theorem isSegment_cut (absent : sep ∉ first) :
    IsSegment sep (first ++ sep :: rest) b e ↔ first ≠ [] ∧ b = 0 ∧ e = first.length ∨
      ∃ b' e', IsSegment sep rest b' e' ∧ b = first.length + (1 + b') ∧
        e = first.length + (1 + e') := by
  constructor
  · intro h
    by_cases before : e ≤ first.length
    · exact Or.inl (h.to_first absent before)
    · right
      have after : first.length + 1 ≤ b := by
        by_contra hb
        exact h.clear first.length (by omega) (by omega) (by simp)
      obtain ⟨b, rfl⟩ := Nat.exists_eq_add_of_le after
      obtain ⟨e, rfl⟩ := Nat.exists_eq_add_of_le (show first.length + 1 ≤ e by omega)
      simp only [Nat.add_assoc] at h ⊢
      exact ⟨b, e, h.to_rest, rfl, rfl⟩
  · rintro (⟨some, rfl, rfl⟩ | ⟨b, e, h, rfl, rfl⟩)
    · exact .of_first absent some
    · exact h.of_rest first

def headSpan (first : List α) : List (ℕ × ℕ) := if first = [] then [] else [(0, first.length)]

theorem mem_headSpan {first : List α} :
    (b, e) ∈ headSpan first ↔ first ≠ [] ∧ b = 0 ∧ e = first.length := by
  by_cases h : first = [] <;> simp [headSpan, h]

theorem headSpan_pairwise (first : List α) (r : ℕ × ℕ → ℕ × ℕ → Prop) :
    (headSpan first).Pairwise r := by
  unfold headSpan
  split <;> simp

/-- A span behind the first separator, which is at place `n`. -/
def behind (n : ℕ) (s : ℕ × ℕ) : ℕ × ℕ := (n + (1 + s.1), n + (1 + s.2))

theorem mem_behind {spans : List (ℕ × ℕ)} {n : ℕ} :
    (b, e) ∈ spans.map (behind n) ↔
      ∃ b' e', (b', e') ∈ spans ∧ b = n + (1 + b') ∧ e = n + (1 + e') := by
  simp only [List.mem_map, Prod.exists, behind, Prod.mk.injEq, eq_comm]

theorem behind_pieces (first : List α) (rest : List α) (s : ℕ × ℕ) :
    slice (first ++ sep :: rest) (behind first.length s).1 (behind first.length s).2 =
      slice rest s.1 s.2 := by
  rw [behind, slice_append_right]
  exact slice_append_right [sep] rest s.1 s.2

end Spans

section Lists
variable [DecidableEq α]

def segments (sep : α) (xs : List α) : List (List α) := (xs.splitOn sep).filter (· ≠ [])

theorem segments_whole (absent : sep ∉ xs) : segments sep xs = if xs = [] then [] else [xs] := by
  rw [segments, List.splitOn_eq_singleton absent]
  by_cases h : xs = [] <;> simp [h]

@[simp] theorem segments_nil (sep : α) : segments sep [] = [] := by
  rw [segments_whole List.not_mem_nil, if_pos rfl]

theorem segments_append_cons (xs ys : List α) :
    segments sep (xs ++ sep :: ys) = segments sep xs ++ segments sep ys := by
  rw [segments, List.splitOn_append_cons_self, List.filter_append, segments, segments]

theorem segments_intercalate {entries : List (List α)} (h : ∀ s ∈ entries, s ≠ [] ∧ sep ∉ s) :
    segments sep ([sep].intercalate entries) = entries := by
  by_cases none : entries = []
  · simp [none]
  · rw [segments, List.splitOn_intercalate sep (fun s hs => (h s hs).2) none, List.filter_eq_self]
    exact fun s hs => decide_eq_true (h s hs).1

theorem segments_append_sep (xs : List α) : segments sep (xs ++ [sep]) = segments sep xs := by
  rw [segments_append_cons, segments_nil, List.append_nil]

theorem headSpan_pieces (absent : sep ∉ first) (ys : List α) :
    ((headSpan first).map fun s => slice (first ++ ys) s.1 s.2) = segments sep first := by
  rw [segments_whole absent]
  by_cases h : first = []
  · simp [headSpan, h]
  · simp [headSpan, h, slice_append_left]

/-- The pieces are the slices at the spans, in order. -/
theorem segments_spans (sep : α) (xs : List α) :
    ∃ spans : List (ℕ × ℕ), spans.Pairwise (fun s t => s.2 < t.1) ∧
      (∀ b e, (b, e) ∈ spans ↔ IsSegment sep xs b e) ∧
      segments sep xs = spans.map fun s => slice xs s.1 s.2 := by
  induction xs using cut_induction sep with
  | whole xs absent =>
    refine ⟨headSpan xs, headSpan_pairwise xs _, fun b e => ?_, ?_⟩
    · rw [mem_headSpan, isSegment_whole absent]
    · rw [← headSpan_pieces absent [], List.append_nil]
  | cut first rest absent ih =>
    obtain ⟨spans, ordered, places, pieces⟩ := ih
    refine ⟨headSpan first ++ spans.map (behind first.length), ?_, ?_, ?_⟩
    · rw [List.pairwise_append, List.pairwise_map]
      refine ⟨headSpan_pairwise first _, ordered.imp fun h => ?_, ?_⟩
      · simp only [behind]
        omega
      · intro s hs t ht
        obtain ⟨-, -, last⟩ := mem_headSpan.mp hs
        obtain ⟨b, e, -, next, -⟩ := mem_behind.mp ht
        omega
    · intro b e
      rw [List.mem_append, mem_headSpan, mem_behind, isSegment_cut absent]
      simp only [places]
    · rw [segments_append_cons, ← headSpan_pieces absent (sep :: rest), pieces, List.map_append,
        List.map_map]
      congr 1
      exact List.map_congr_left fun s _ => (behind_pieces first rest s).symm

theorem mem_segments {s : List α} :
    s ∈ segments sep xs ↔ ∃ b e, IsSegment sep xs b e ∧ s = slice xs b e := by
  obtain ⟨spans, -, places, pieces⟩ := segments_spans sep xs
  simp only [pieces, List.mem_map, Prod.exists, places, eq_comm]

end Lists

section Scan
variable [DecidableEq α]

/-- The place of the first separator from `b` on. -/
def next (sep : α) (xs : List α) (b : ℕ) : Option ℕ :=
  ((xs.drop b).findIdx? (· == sep)).map (b + ·)

theorem next_none (h : next sep xs b = none) : sep ∉ xs.drop b := by
  simp only [next, Option.map_eq_none_iff, List.findIdx?_eq_none_iff, beq_eq_false_iff_ne] at h
  exact fun found => h sep found rfl

theorem next_inside (h : next sep xs b = some e) : e ≤ xs.length := by
  obtain ⟨i, found, rfl⟩ := Option.map_eq_some_iff.mp h
  have inside := (List.findIdx?_eq_some_iff_findIdx_eq.mp found).1
  rw [List.length_drop] at inside
  omega

theorem next_some (h : next sep xs b = some e) :
    b ≤ e ∧ sep ∉ slice xs b e ∧ xs.drop b = slice xs b e ++ sep :: xs.drop (e + 1) := by
  obtain ⟨i, found, rfl⟩ := Option.map_eq_some_iff.mp h
  obtain ⟨inside, rfl⟩ := List.findIdx?_eq_some_iff_findIdx_eq.mp found
  have here := beq_iff_eq.mp (List.findIdx_getElem (w := inside))
  rw [slice, Nat.add_sub_cancel_left, Nat.add_assoc, ← List.drop_drop]
  refine ⟨Nat.le_add_right _ _, fun before => ?_, ?_⟩
  · exact absurd (List.false_of_mem_take_findIdx before) (by simp)
  · nth_rewrite 1 [← List.take_append_drop ((xs.drop b).findIdx (· == sep)) (xs.drop b)]
    rw [List.drop_eq_getElem_cons inside, here]

theorem segments_slice (inside : e ≤ xs.length) (absent : sep ∉ slice xs b e) :
    segments sep (slice xs b e) = if e - b ≠ 0 then [slice xs b e] else [] := by
  have length : (slice xs b e).length = e - b := by
    rw [slice, List.length_take, List.length_drop]
    omega
  rw [segments_whole absent, ite_not, ← length]
  simp only [List.length_eq_zero_iff]

theorem segments_drop_none (h : next sep xs b = none) :
    segments sep (xs.drop b) =
      if xs.length - b ≠ 0 then [slice xs b xs.length] else [] := by
  have last : xs.drop b = slice xs b xs.length := by
    rw [slice, ← List.length_drop, List.take_length]
  rw [last, segments_slice (Nat.le_refl _) (last ▸ next_none h)]

theorem segments_drop_some (h : next sep xs b = some e) :
    segments sep (xs.drop b) =
      (if e - b ≠ 0 then [slice xs b e] else []) ++ segments sep (xs.drop (e + 1)) := by
  obtain ⟨le, absent, parts⟩ := next_some h
  rw [parts, segments_append_cons, segments_slice (next_inside h) absent]

end Scan

end Segments
