import Pfng.Lib.Words
import Pfng.Tcm.Arena

/-! The aligned offset of a free block. When the round-up wraps, the offset it gives lies
past every block, so the fit test rejects it. -/
namespace Pfng.Tcm

theorem isPowerOfTwo_iff {value : ℕ} : isPowerOfTwo value = true ↔ ∃ k, value = 2^k := by
  rw [← Words.and_pred_eq_zero_iff]
  simp [isPowerOfTwo]

theorem alignUp_eq {value alignment : ℕ} (pow : isPowerOfTwo alignment = true) :
    alignUp value alignment = (value + alignment - 1) % 2^64 / alignment * alignment := by
  obtain ⟨k, rfl⟩ := isPowerOfTwo_iff.mp pow
  rw [alignUp, Words.and_not_low (Nat.mod_lt _ (by omega))]

theorem alignment_pos {alignment : ℕ} (pow : isPowerOfTwo alignment = true) : 0 < alignment := by
  obtain ⟨k, rfl⟩ := isPowerOfTwo_iff.mp pow
  exact Nat.two_pow_pos k

variable {base alignment bytes : ℕ} {e : Block}

theorem alignedOffset_of_lt (pow : isPowerOfTwo alignment = true)
    (room : base + e.offset + alignment - 1 < 2^64) :
    alignment ∣ base + alignedOffset base alignment e ∧
      e.offset ≤ alignedOffset base alignment e ∧
      ∀ x, alignment ∣ x → base + e.offset ≤ x → base + alignedOffset base alignment e ≤ x := by
  have pos := alignment_pos pow
  have up := Words.le_round_up (v := base + e.offset) pos
  have down := Nat.div_mul_le_self (base + e.offset + alignment - 1) alignment
  have least := fun x => Words.round_up_least (v := base + e.offset) (m := alignment) (x := x)
  have multiple := Nat.dvd_mul_left alignment ((base + e.offset + alignment - 1) / alignment)
  rw [alignedOffset, alignUp_eq pow, Nat.mod_eq_of_lt room]
  generalize (base + e.offset + alignment - 1) / alignment * alignment = address at *
  rw [show (address + 2^64 - base) % 2^64 = address - base by omega,
    show base + (address - base) = address by omega]
  exact ⟨multiple, by omega, least⟩

theorem alignedOffset_of_ge (pow : isPowerOfTwo alignment = true) (small : alignment < 2^64)
    (mapped : 0 < base) (high : base + e.offset < 2^64)
    (wrap : 2^64 ≤ base + e.offset + alignment - 1) :
    alignedOffset base alignment e = 2^64 - base ∧
      ∀ x, alignment ∣ x → base + e.offset ≤ x → 2^64 ≤ x := by
  obtain ⟨k, rfl⟩ := isPowerOfTwo_iff.mp pow
  have bound : k < 64 := (Nat.pow_lt_pow_iff_right (by omega)).mp small
  constructor
  · have zero : (base + e.offset + 2^k - 1) % 2^64 / 2^k = 0 := Nat.div_eq_of_lt (by omega)
    rw [alignedOffset, alignUp_eq pow, zero, Nat.zero_mul]
    omega
  · intro x hx low
    -- `2^64` is a multiple of the alignment too, so the next multiple is not below it
    have whole : 2^k ∣ 2^64 := pow_dvd_pow 2 (by omega)
    by_contra below
    have gap := Nat.le_of_dvd (by omega) (Nat.dvd_sub whole hx)
    omega

theorem not_misfit (fits : ¬ Misfit e (alignedOffset base alignment e) bytes)
    (pow : isPowerOfTwo alignment = true) (small : alignment < 2^64) (mapped : 0 < base)
    (high : base + e.stop < 2^64) :
    alignment ∣ base + alignedOffset base alignment e ∧
      e.offset ≤ alignedOffset base alignment e ∧
      alignedOffset base alignment e + bytes ≤ e.stop ∧
      ∀ x, alignment ∣ x → base + e.offset ≤ x → base + alignedOffset base alignment e ≤ x := by
  simp only [Misfit, Extent.stop, not_or, not_lt] at fits high ⊢
  by_cases room : base + e.offset + alignment - 1 < 2^64
  · obtain ⟨multiple, low, least⟩ := alignedOffset_of_lt pow room
    exact ⟨multiple, low, by omega, least⟩
  · have := (alignedOffset_of_ge (e := e) pow small mapped (by omega) (by omega)).1
    omega

theorem misfit (misfit : Misfit e (alignedOffset base alignment e) bytes) (pos : 0 < bytes)
    (pow : isPowerOfTwo alignment = true) (small : alignment < 2^64) (mapped : 0 < base)
    (high : base + e.stop < 2^64) {x : ℕ} (hx : alignment ∣ x) (low : base + e.offset ≤ x) :
    base + e.stop < x + bytes := by
  simp only [Misfit, Extent.stop] at misfit high ⊢
  by_cases room : base + e.offset + alignment - 1 < 2^64
  · obtain ⟨-, above, least⟩ := alignedOffset_of_lt pow room
    have := least x hx low
    omega
  · have := (alignedOffset_of_ge pow small mapped (by omega) (by omega)).2 x hx low
    omega

end Pfng.Tcm
