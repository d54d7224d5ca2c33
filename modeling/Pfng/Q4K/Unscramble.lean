import Pfng.Q4K.Parts

/-! The grouped kernel takes the six-bit fields apart again: four bytes at a time, under masks that
keep every byte to itself. -/
namespace Pfng.Q4K
open Checked Words

variable {α : Type}

section Fields

theorem field_parts : ∀ b : BitVec 8, (b &&& 63).toNat < 2 ^ 6 ∧ (b &&& 15).toNat < 2 ^ 6 ∧
    (b >>> 4).toNat < 2 ^ 6 ∧ ((b >>> 6) <<< 4).toNat < 2 ^ 6 := by decide

theorem q4Scale_lt (w : ℕ → BitVec 8) (i : ℕ) : (q4Scale w i).toNat < 64 := by
  rw [q4Scale]
  split
  · exact (field_parts _).1
  · rw [BitVec.toNat_or]
    exact Nat.or_lt_two_pow (field_parts _).2.1 (field_parts _).2.2.2

theorem q4Min_lt (w : ℕ → BitVec 8) (i : ℕ) : (q4Min w i).toNat < 64 := by
  rw [q4Min]
  split
  · exact (field_parts _).1
  · rw [BitVec.toNat_or]
    exact Nat.or_lt_two_pow (field_parts _).2.2.1 (field_parts _).2.2.2

theorem top_bits : ∀ a : Fin 64, ∀ b : Fin 4,
    (BitVec.ofNat 8 a ||| BitVec.ofNat 8 b <<< 6) &&& 0x3f = BitVec.ofNat 8 a ∧
      (BitVec.ofNat 8 a ||| BitVec.ofNat 8 b <<< 6) >>> 6 = BitVec.ofNat 8 b := by decide

theorem top_bits_of_lt {a b : BitVec 8} (ha : a.toNat < 64) (hb : b.toNat < 4) :
    (a ||| b <<< 6) &&& 0x3f = a ∧ (a ||| b <<< 6) >>> 6 = b := by
  have back := top_bits ⟨a.toNat, ha⟩ ⟨b.toNat, hb⟩
  simpa only [BitVec.ofNat_toNat, BitVec.setWidth_eq] using back

theorem nibbles_join : ∀ b : BitVec 8, b &&& 0x0f#8 ||| (b >>> 4) <<< 4 = b := by decide

theorem high_lt : ∀ b : BitVec 8, b.toNat < 64 → (b >>> 4).toNat < 4 := by decide

end Fields

section Words

variable {w : BitVec 32} {i : ℕ}

theorem kmask1_byte : ∀ i < 4, byteOf kmask1 i = 0x3f := by decide

theorem kmask2_byte : ∀ i < 4, byteOf kmask2 i = 0x0f := by decide

theorem kmask2_bits : ∀ i < 4, ∀ j < 8, kmask2.getLsbD (8 * i + j) = decide (4 + j < 8) := by decide

theorem kmask3_bits : ∀ i < 4, ∀ j < 8, kmask3.getLsbD (8 * i + j) = decide (6 + j < 8) := by decide

theorem byteOf_kmask1 (hi : i < 4) : byteOf (w &&& kmask1) i = byteOf w i &&& 0x3f := by
  rw [byteOf_and, kmask1_byte i hi]

theorem byteOf_kmask2 (hi : i < 4) : byteOf (w &&& kmask2) i = byteOf w i &&& 0x0f := by
  rw [byteOf_and, kmask2_byte i hi]

theorem byteOf_shift_kmask2 (hi : i < 4) : byteOf (w >>> 4 &&& kmask2) i = byteOf w i >>> 4 :=
  byteOf_ushiftRight_and (kmask2_bits i hi)

theorem byteOf_kmask3 (hi : i < 4) :
    byteOf ((w >>> 6 &&& kmask3) <<< 4) i = (byteOf w i >>> 6) <<< 4 := by
  rw [byteOf_shiftLeft hi, byteOf_ushiftRight_and (kmask3_bits i hi)]
  intro x top
  rw [BitVec.getLsbD_and]
  by_cases inside : x < 32
  · have bit := kmask3_bits (x / 8) (by omega) (x % 8) (by omega)
    rw [show 8 * (x / 8) + x % 8 = x by omega, decide_eq_false (by omega)] at bit
    rw [bit, Bool.and_false]
  · rw [BitVec.getLsbD_of_ge kmask3 x (by omega), Bool.and_false]

end Words

section Unscramble

variable (utmp : ℕ → BitVec 32) {i : ℕ}

theorem unscramble_first (hi : i < 4) : unscramble utmp i = utmp i &&& kmask1 := by
  interval_cases i <;> rfl

theorem unscramble_second (hi : i < 4) : unscramble utmp (4 + i) =
    utmp (8 + i) &&& kmask2 ||| (utmp i >>> 6 &&& kmask3) <<< 4 := by
  interval_cases i <;> rfl

theorem unscramble_third (hi : i < 4) : unscramble utmp (8 + i) = utmp (4 + i) &&& kmask1 := by
  interval_cases i <;> rfl

theorem unscramble_fourth (hi : i < 4) : unscramble utmp (12 + i) =
    utmp (8 + i) >>> 4 &&& kmask2 ||| (utmp (4 + i) >>> 6 &&& kmask3) <<< 4 := by
  interval_cases i <;> rfl

end Unscramble

section Lanes

variable {records : ℕ → BlockQ4K α} {sb : ℕ} {bytes : ℕ → BitVec 8}

theorem groupByte_low (records : ℕ → BlockQ4K α) (sb : ℕ) {column : ℕ} (hc : column < 16) :
    groupByte records sb column &&& 0x3f = q4Scale (records column).scales sb ∧
      groupByte records sb column >>> 6 = q4Scale (records (column + 16)).scales sb >>> 4 := by
  rw [groupByte, if_pos hc]
  exact top_bits_of_lt (q4Scale_lt _ _) (high_lt _ (q4Scale_lt _ _))

theorem groupByte_middle (records : ℕ → BlockQ4K α) (sb : ℕ) {column : ℕ} (hc : column < 16) :
    groupByte records sb (16 + column) &&& 0x3f = q4Min (records column).scales sb ∧
      groupByte records sb (16 + column) >>> 6 = q4Min (records (column + 16)).scales sb >>> 4 := by
  rw [groupByte, if_neg (by omega), if_pos (by omega), Nat.add_sub_cancel_left, Nat.add_comm 16]
  exact top_bits_of_lt (q4Min_lt _ _) (high_lt _ (q4Min_lt _ _))

theorem groupByte_high (records : ℕ → BlockQ4K α) (sb column : ℕ) :
    groupByte records sb (32 + column) &&& 0x0f = q4Scale (records (column + 16)).scales sb &&& 0x0f ∧
      groupByte records sb (32 + column) >>> 4 = q4Min (records (column + 16)).scales sb &&& 0x0f := by
  rw [groupByte, if_neg (by omega), if_neg (by omega), show 32 + column - 16 = column + 16 by omega]
  exact nibbles_of_pack (nibble_lt _).1 (nibble_lt _).1

theorem utmpLanes_eq (packed : ∀ r < 48, bytes r = groupByte records sb r) {lane : ℕ}
    (hl : lane < 32) :
    utmpLanes (unscramble fun i => ofBytes fun j => bytes (4 * i + j)) 0 lane =
        (q4Scale (records lane).scales sb).toNat ∧
      utmpLanes (unscramble fun i => ofBytes fun j => bytes (4 * i + j)) 8 lane =
        (q4Min (records lane).scales sb).toNat := by
  have word : ∀ i, ∀ j < 4, byteOf (ofBytes fun j => bytes (4 * i + j)) j = bytes (4 * i + j) :=
    fun i j hj => byteOf_ofBytes hj
  have hj : lane % 4 < 4 := Nat.mod_lt _ (by decide)
  by_cases low : lane < 16
  · have first : bytes (4 * (lane / 4) + lane % 4) = groupByte records sb lane := by
      rw [show 4 * (lane / 4) + lane % 4 = lane by omega, packed _ (by omega)]
    have second : bytes (4 * (4 + lane / 4) + lane % 4) = groupByte records sb (16 + lane) := by
      rw [show 4 * (4 + lane / 4) + lane % 4 = 16 + lane by omega, packed _ (by omega)]
    constructor
    · rw [utmpLanes, Nat.zero_add, unscramble_first _ (by omega), byteOf_kmask1 hj, word _ _ hj,
        first, (groupByte_low records sb low).1]
    · rw [utmpLanes, unscramble_third _ (by omega), byteOf_kmask1 hj, word _ _ hj, second,
        (groupByte_middle records sb low).1]
  · obtain ⟨column, hc, rfl⟩ : ∃ column < 16, lane = column + 16 := ⟨lane - 16, by omega, by omega⟩
    have index : (column + 16) / 4 = 4 + column / 4 ∧ (column + 16) % 4 = column % 4 := by omega
    have hj : column % 4 < 4 := Nat.mod_lt _ (by decide)
    have first : bytes (4 * (column / 4) + column % 4) = groupByte records sb column := by
      rw [show 4 * (column / 4) + column % 4 = column by omega, packed _ (by omega)]
    have second : bytes (4 * (4 + column / 4) + column % 4) = groupByte records sb (16 + column) := by
      rw [show 4 * (4 + column / 4) + column % 4 = 16 + column by omega, packed _ (by omega)]
    have third : bytes (4 * (8 + column / 4) + column % 4) = groupByte records sb (32 + column) := by
      rw [show 4 * (8 + column / 4) + column % 4 = 32 + column by omega, packed _ (by omega)]
    constructor
    · rw [utmpLanes, Nat.zero_add, index.1, index.2, unscramble_second _ (by omega), byteOf_or,
        byteOf_kmask2 hj, byteOf_kmask3 hj, word _ _ hj, word _ _ hj, first, third,
        (groupByte_low records sb hc).2, (groupByte_high records sb column).1]
      exact congrArg (fun b : BitVec 8 => (b.toNat : ℤ)) (nibbles_join _)
    · rw [utmpLanes, index.1, index.2, show 8 + (4 + column / 4) = 12 + column / 4 by omega,
        unscramble_fourth _ (by omega), byteOf_or, byteOf_shift_kmask2 hj, byteOf_kmask3 hj,
        word _ _ hj, word _ _ hj, second, third, (groupByte_middle records sb hc).2,
        (groupByte_high records sb column).2]
      exact congrArg (fun b : BitVec 8 => (b.toNat : ℤ)) (nibbles_join _)

end Lanes

end Pfng.Q4K
