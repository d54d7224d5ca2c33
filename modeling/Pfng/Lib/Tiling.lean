import Mathlib.Data.List.Perm.Subperm
import Pfng.Lib.Carving

/-! A region `0, ..., bytes - 1` divided between a separated free list and an unordered
list of live extents. The free list is a function of the live extents alone. -/
namespace Extent

structure Tiles (bytes : ℕ) (free live : List Extent) : Prop where
  separated : Separated free
  live_nonempty : ∀ e ∈ live, 0 < e.size
  live_apart : live.Pairwise Apart
  cover : ∀ x, x < bytes ↔ Covers free x ∨ Covers live x
  exclusive : ∀ x, Covers free x → ¬ Covers live x

theorem Apart.symm {e f : Extent} (h : e.Apart f) : f.Apart e := Or.symm h

theorem Apart.not_both {e f : Extent} (h : e.Apart f) {x : ℕ} (he : e.Contains x) :
    ¬ f.Contains x := by
  simp only [Apart, Contains] at *
  omega

theorem contains_offset {e : Extent} (pos : 0 < e.size) : e.Contains e.offset := by
  simp only [Contains, stop]
  omega

namespace Tiles

variable {bytes : ℕ} {free live live' : List Extent} {p q : List Extent} {e b : Extent}

theorem empty : Tiles 0 [] [] :=
  ⟨separated_nil, by simp, .nil, by simp, by simp⟩

theorem whole (pos : 0 < bytes) : Tiles bytes [⟨0, bytes⟩] [] := by
  refine ⟨separated_cons.mpr ⟨pos, by simp, separated_nil⟩, by simp, .nil, fun x => ?_, by simp⟩
  simp [Contains, stop]

theorem perm (h : Tiles bytes free live) (same : live.Perm live') : Tiles bytes free live' := by
  have cov : ∀ x, Covers live' x ↔ Covers live x := fun x => by
    simp only [Covers, same.mem_iff]
  refine ⟨h.separated, fun e he => h.live_nonempty e (same.mem_iff.mpr he),
    (same.pairwise_iff Apart.symm).mp h.live_apart, fun x => ?_, fun x hx => ?_⟩
  · rw [cov, h.cover]
  · rw [cov]
    exact h.exclusive x hx

theorem free_stop_le (h : Tiles bytes free live) (he : e ∈ free) : e.stop ≤ bytes := by
  by_contra past
  have pos := h.separated.nonempty e he
  have inside : e.Contains (e.stop - 1) := by
    simp only [Contains, stop]
    omega
  have := (h.cover (e.stop - 1)).mpr (.inl ⟨e, he, inside⟩)
  omega

theorem live_stop_le (h : Tiles bytes free live) (he : e ∈ live) : e.stop ≤ bytes := by
  by_contra past
  have pos := h.live_nonempty e he
  have inside : e.Contains (e.stop - 1) := by
    simp only [Contains, stop]
    omega
  have := (h.cover (e.stop - 1)).mpr (.inr ⟨e, he, inside⟩)
  omega

theorem apart (h : Tiles bytes free live) (he : e ∈ free) (hb : b ∈ live) : e.Apart b := by
  by_contra meet
  have hep := h.separated.nonempty e he
  have hbp := h.live_nonempty b hb
  -- the larger of the two offsets lies in both extents
  refine h.exclusive (max e.offset b.offset) ⟨e, he, ?_⟩ ⟨b, hb, ?_⟩ <;>
    simp only [Apart, Contains, stop] at * <;> omega

theorem free_unique {free' : List Extent} (h : Tiles bytes free live)
    (h' : Tiles bytes free' live') (same : ∀ e, e ∈ live ↔ e ∈ live') : free = free' := by
  refine h.separated.ext h'.separated fun x => ?_
  have cov : Covers live' x ↔ Covers live x := by simp only [Covers, same]
  have := h.cover x
  have := h'.cover x
  have := h.exclusive x
  have := h'.exclusive x
  tauto

theorem run_free (h : Tiles bytes free live) {a n : ℕ} (pos : 0 < n) (inside : a + n ≤ bytes)
    (clear : ∀ b ∈ live, (⟨a, n⟩ : Extent).Apart b) :
    ∃ e ∈ free, e.offset ≤ a ∧ a + n ≤ e.stop := by
  refine h.separated.run_inside pos fun x low high => ?_
  refine ((h.cover x).mp (by omega)).resolve_right ?_
  rintro ⟨b, hb, hx⟩
  exact (clear b hb).not_both ⟨low, high⟩ hx

/-- Every free extent but one at offset zero begins where a live extent stops. -/
theorem offset_zero_or_stop (h : Tiles bytes free live) (he : e ∈ free) :
    e.offset = 0 ∨ ∃ b ∈ live, b.stop = e.offset := by
  by_contra! hne
  obtain ⟨start, hne⟩ := hne
  have pos := h.separated.nonempty e he
  have below : e.offset - 1 < bytes := by
    have := h.free_stop_le he
    simp only [stop] at this
    omega
  rcases (h.cover _).mp below with ⟨f, hf, low, high⟩ | ⟨b, hb, low, high⟩
  · -- a free extent there would touch `e`
    obtain ⟨g, hg, glow, ghigh⟩ := h.separated.run_inside (a := e.offset - 1) (n := 2) (by omega)
      fun x hlo hhi => by
        by_cases hx : x = e.offset - 1
        · exact ⟨f, hf, by subst hx; exact ⟨low, high⟩⟩
        · refine ⟨e, he, ?_⟩
          simp only [Contains, stop]
          omega
    have at_start : e.Contains e.offset := contains_offset pos
    have ge : g = e := h.separated.eq_of_contains hg he ⟨by omega, by omega⟩ at_start
    subst ge
    omega
  · have := h.apart he hb
    have hb' := hne b hb
    simp only [Apart, stop] at *
    omega

theorem free_length_le (h : Tiles bytes free live) : free.length ≤ live.length + 1 := by
  have sub : free.map offset ⊆ 0 :: live.map stop := by
    intro x hx
    obtain ⟨e, he, rfl⟩ := List.mem_map.mp hx
    rcases h.offset_zero_or_stop he with zero | ⟨b, hb, touch⟩
    · simp [zero]
    · exact List.mem_cons_of_mem _ (List.mem_map.mpr ⟨b, hb, touch⟩)
  simpa using (h.separated.offsets_nodup.subperm sub).length_le

theorem carve {a n : ℕ} (h : Tiles bytes (p ++ e :: q) live) (low : e.offset ≤ a)
    (high : a + n ≤ e.stop) (pos : 0 < n) :
    Tiles bytes (p ++ (Extent.carve e a n ++ q)) (live ++ [⟨a, n⟩]) := by
  obtain ⟨sep, cov⟩ := h.separated.carve low high pos
  have clear : ∀ b ∈ live, b.Apart ⟨a, n⟩ := fun b hb => by
    have := h.apart (e := e) (by simp) hb
    simp only [Apart, stop] at *
    omega
  have run : ∀ x, (⟨a, n⟩ : Extent).Contains x → Covers (p ++ e :: q) x := fun x hx => by
    refine ⟨e, by simp, ?_⟩
    simp only [Contains, stop] at *
    omega
  refine ⟨sep, fun b hb => ?_, ?_, fun x => ?_, fun x hx => ?_⟩
  · rcases List.mem_append.mp hb with hb | hb
    · exact h.live_nonempty b hb
    · obtain rfl := List.mem_singleton.mp hb
      exact pos
  · refine List.pairwise_append.mpr ⟨h.live_apart, by simp, fun b hb c hc => ?_⟩
    obtain rfl := List.mem_singleton.mp hc
    exact clear b hb
  · simp only [h.cover, cov, covers_append live, covers_cons _ [], covers_nil, or_false]
    have := run x
    tauto
  · obtain ⟨old, out⟩ := (cov x).mp hx
    rw [covers_append, covers_cons, not_or, not_or]
    exact ⟨h.exclusive x old, out, covers_nil x⟩

/-- Giving the first live extent back to the free list. -/
theorem join (h : Tiles bytes (p ++ q) (b :: live)) (before : ∀ e ∈ p, e.offset < b.offset)
    (after : ∀ f ∈ q, b.offset ≤ f.offset) : Tiles bytes (Extent.join p b q) live := by
  have pos := h.live_nonempty b (by simp)
  have left : ∀ e ∈ p, e.stop ≤ b.offset := fun e he => by
    have := h.apart (e := e) (by simp [he]) (List.mem_cons_self)
    have := before e he
    simp only [Apart, stop] at *
    omega
  have right : ∀ f ∈ q, b.stop ≤ f.offset := fun f hf => by
    have := h.apart (e := f) (by simp [hf]) (List.mem_cons_self)
    have := h.separated.nonempty f (by simp [hf])
    have := after f hf
    simp only [Apart, stop] at *
    omega
  obtain ⟨sep, cov⟩ := join_spec h.separated pos left right
  obtain ⟨apart, rest⟩ := List.pairwise_cons.mp h.live_apart
  refine ⟨sep, fun e he => h.live_nonempty e (by simp [he]), rest, fun x => ?_, fun x hx => ?_⟩
  · rw [h.cover, cov, covers_cons]
    tauto
  · rintro ⟨e, he, inside⟩
    rcases (cov x).mp hx with old | new
    · exact h.exclusive x old ⟨e, by simp [he], inside⟩
    · exact (apart e he).not_both new inside

end Tiles

end Extent
