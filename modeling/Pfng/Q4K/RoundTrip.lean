import Mathlib.Data.Rat.Floor
import Pfng.Lib.Folds
import Pfng.Q4K.Quantizer

/-! Which inputs of `quantize_row_q4_K` keep their scales and minimums through the twelve packed
bytes. -/
namespace Pfng.Q4K
open Checked Function Rounding Register Finset Folds

variable {α : Type} [Field α] [LinearOrder α]

def lowest (x : ℕ → α) (sb : ℕ) : α :=
  (range 32).inf' nonempty_range_32 fun j => x (sb * 32 + j)

def highest (x : ℕ → α) (sb : ℕ) : α :=
  (range 32).sup' nonempty_range_32 fun j => x (sb * 32 + j)

def step (x : ℕ → α) (sb : ℕ) : α := (highest x sb - lowest x sb) / 15

def depth (x : ℕ → α) (sb : ℕ) : α := -lowest x sb / (if step x sb = 0 then 1 else step x sb)

def peak (f : ℕ → α) : α := max 0 ((range 8).sup' nonempty_range_8 f)

def Rounds (part whole : α) : Prop := -(if whole = 0 then 63 else whole) < 126 * part

/-- Nearest to 0, 21, 42 or 63 when the whole is 63. -/
def Aligned (part whole : α) : Prop :=
  126 * part < whole ∨ (41 * whole ≤ 126 * part ∧ 126 * part < 43 * whole) ∨
    (83 * whole ≤ 126 * part ∧ 126 * part < 85 * whole) ∨ 125 * whole ≤ 126 * part

/-- No sub-block lies too far above zero, and the last four hold aligned shares. -/
structure Recoverable (x : ℕ → α) : Prop where
  rounds : ∀ i < 8, Rounds (depth x i) (peak (depth x))
  scales : ∀ i, 4 ≤ i → i < 8 → Aligned (step x i) (peak (step x))
  mins : ∀ i, 4 ≤ i → i < 8 → Aligned (depth x i) (peak (depth x))

omit [Field α] in
theorem extremes_eq (x : ℕ → α) (sb : ℕ) : extremes x sb = (lowest x sb, highest x sb) :=
  foldl_extremes_eq (f := fun j => x (sb * 32 + j)) (n := 31) _

theorem ls_eq (x : ℕ → α) : ls x = step x := by
  funext sb
  rw [ls, extremes_eq, step]

theorem lm_eq (x : ℕ → α) : lm x = depth x := by
  funext sb
  rw [lm, extremes_eq, ls_eq, depth, orOne, ite_not]

theorem maxs_eq (x : ℕ → α) : maxs x = peak (step x) := by
  rw [maxs, ls_eq]
  exact foldl_max_eq _

theorem maxm_eq (x : ℕ → α) : maxm x = peak (depth x) := by
  rw [maxm, lm_eq]
  exact foldl_max_eq _

theorem le_peak (f : ℕ → α) {i : ℕ} (h : i < 8) : f i ≤ peak f :=
  (le_sup' f (mem_range.mpr h)).trans (le_max_right _ _)

theorem peak_nonneg (f : ℕ → α) : 0 ≤ peak f := le_max_left _ _

variable [FloorRing α]

def share (part whole : α) : Option ℤ := (intRound (part / orOne (whole / 63))).map (min 63)

theorem scaleField_eq (x : ℕ → α) (i : ℕ) : scaleField x i = share (step x i) (peak (step x)) := by
  rw [scaleField, ds, ls_eq, maxs_eq, share]

theorem minField_eq (x : ℕ → α) (i : ℕ) : minField x i = share (depth x i) (peak (depth x)) := by
  rw [minField, dm, lm_eq, maxm_eq, share]

variable [IsStrictOrderedRing α]

section Share

variable {part whole : α} {n : ℤ}

omit [FloorRing α] in
theorem lt_ratio_iff (nonneg : 0 ≤ whole) (c : α) :
    c < part / orOne (whole / 63) ↔ c * (if whole = 0 then 63 else whole) < 63 * part := by
  rcases nonneg.eq_or_lt with rfl | pos
  · simp only [orOne, zero_div, ne_eq, not_true, if_false, div_one, if_true]
    constructor <;> intro h <;> linarith
  · have ne : whole / 63 ≠ 0 := by positivity
    rw [orOne, if_pos ne, if_neg pos.ne', lt_div_iff₀ (by positivity)]
    constructor <;> intro h <;> linarith

theorem away_nonneg_iff_rounds (nonneg : 0 ≤ whole) :
    0 ≤ away (part / orOne (whole / 63)) ↔ Rounds part whole := by
  rw [away_nonneg_iff, lt_ratio_iff nonneg, Rounds]
  constructor <;> intro h <;> linarith

theorem away_le_63 (nonneg : 0 ≤ whole) (le : part ≤ whole) :
    away (part / orOne (whole / 63)) ≤ 63 := by
  refine away_le (by decide) (not_lt.mp fun above => ?_)
  rw [lt_ratio_iff nonneg] at above
  push_cast at above
  split at above
  · linarith
  · linarith

theorem share_eq (nonneg : 0 ≤ whole) (le : part ≤ whole) (rounds : Rounds part whole) :
    ∃ n, share part whole = some n ∧ 0 ≤ n ∧ n ≤ 63 := by
  have low := (away_nonneg_iff_rounds nonneg).mpr rounds
  have high := away_le_63 nonneg le
  refine ⟨away (part / orOne (whole / 63)), ?_, low, high⟩
  have fits : Fits 32 (away (part / orOne (whole / 63))) := by
    rw [Fits]
    omega
  rw [share, intRound, if_pos fits, Option.map_some, min_eq_right high]

theorem eq_away_of_share (nonneg : 0 ≤ whole) (le : part ≤ whole) (same : share part whole = some n) :
    n = away (part / orOne (whole / 63)) := by
  rw [share, intRound] at same
  split at same
  · rw [Option.map_some, Option.some_inj, min_eq_right (away_le_63 nonneg le)] at same
    exact same.symm
  · cases same

theorem rounds_of_share (nonneg : 0 ≤ whole) (le : part ≤ whole) (same : share part whole = some n)
    (low : 0 ≤ n) : Rounds part whole := by
  rw [eq_away_of_share nonneg le same] at low
  exact (away_nonneg_iff_rounds nonneg).mp low

theorem away_eq_field_iff (pos : 0 < whole) (hn : 0 < n) :
    away (part / orOne (whole / 63)) = n ↔
      (2 * n - 1) * whole ≤ 126 * part ∧ 126 * part < (2 * n + 1) * whole := by
  have unit : 0 < whole / 63 := by positivity
  rw [away_eq_iff hn, orOne, if_pos unit.ne', le_div_iff₀ unit, div_lt_iff₀ unit]
  constructor <;> intro h <;> constructor <;> linarith [h.1, h.2]

theorem away_eq_zero_iff_lt (pos : 0 < whole) (rounds : Rounds part whole) :
    away (part / orOne (whole / 63)) = 0 ↔ 126 * part < whole := by
  have unit : 0 < whole / 63 := by positivity
  rw [Rounds, if_neg pos.ne'] at rounds
  rw [away_eq_zero_iff, orOne, if_pos unit.ne', lt_div_iff₀ unit, div_lt_iff₀ unit]
  constructor
  · intro h
    linarith [h.2]
  · intro h
    constructor <;> linarith

theorem aligned_iff (nonneg : 0 ≤ whole) (le : part ≤ whole) (same : share part whole = some n)
    (low : 0 ≤ n) : (n = 0 ∨ n = 21 ∨ n = 42 ∨ n = 63) ↔ Aligned part whole := by
  have rounds := rounds_of_share nonneg le same low
  rw [eq_away_of_share nonneg le same]
  rcases nonneg.eq_or_lt with rfl | pos
  · rw [Rounds, if_pos rfl] at rounds
    have zero : away (part / orOne (0 / 63)) = 0 := by
      rw [away_eq_zero_iff, orOne, zero_div, if_neg (not_not.mpr rfl), div_one]
      constructor <;> linarith
    refine iff_of_true (.inl zero) ?_
    rcases le.eq_or_lt with rfl | neg
    · exact .inr (.inr (.inr (by simp)))
    · exact .inl (by linarith)
  · have top : 126 * part < 127 * whole := by linarith
    rw [away_eq_zero_iff_lt pos rounds, away_eq_field_iff pos (by decide),
      away_eq_field_iff pos (by decide), away_eq_field_iff pos (by decide), Aligned]
    norm_num [top]

end Share

section Block

variable {x : ℕ → α} {s m : ℕ → ℤ}

omit [FloorRing α] in
theorem orOne_pos {v : α} (h : 0 ≤ v) : 0 < orOne v := by
  rcases h.eq_or_lt with rfl | pos
  · rw [orOne, if_neg (not_not.mpr rfl)]
    exact one_pos
  · rwa [orOne, if_pos pos.ne']

omit [FloorRing α] in
theorem range_le (x : ℕ → α) (sb : ℕ) : highest x sb - lowest x sb ≤ 15 * orOne (step x sb) := by
  have steps : highest x sb - lowest x sb = 15 * step x sb := by
    rw [step]
    ring
  rw [steps, orOne]
  split
  · exact le_rfl
  · linarith [not_not.mp ‹_›]

/-- The quant of element `j` of a sub-block, without the clamp. -/
def level (x : ℕ → α) (sb j : ℕ) : ℤ := away ((x (sb * 32 + j) - lowest x sb) / orOne (step x sb))

omit [FloorRing α] in
theorem step_nonneg (x : ℕ → α) (sb : ℕ) : 0 ≤ step x sb := by
  have below : lowest x sb ≤ x (sb * 32 + 0) := inf'_le _ (mem_range.mpr (by decide))
  have above : x (sb * 32 + 0) ≤ highest x sb :=
    le_sup' (fun j => x (sb * 32 + j)) (mem_range.mpr (by decide))
  rw [step]
  linarith

theorem level_range (x : ℕ → α) (sb : ℕ) {j : ℕ} (h : j < 32) :
    0 ≤ level x sb j ∧ level x sb j ≤ 15 := by
  have below : lowest x sb ≤ x (sb * 32 + j) := inf'_le _ (mem_range.mpr h)
  have above : x (sb * 32 + j) ≤ highest x sb := le_sup' (fun j => x (sb * 32 + j)) (mem_range.mpr h)
  have unit := orOne_pos (step_nonneg x sb)
  constructor
  · exact away_nonneg (div_nonneg (by linarith) unit.le)
  · apply away_le (by decide)
    rw [div_le_iff₀ unit]
    push_cast
    linarith [range_le x sb]

theorem quant_eq (x : ℕ → α) (sb : ℕ) {j : ℕ} (h : j < 32) : quant x sb j = some (level x sb j) := by
  have shift : x (sb * 32 + j) / orOne (ls x sb) + lm x sb =
      (x (sb * 32 + j) - lowest x sb) / orOne (step x sb) := by
    rw [ls_eq, lm_eq, depth, ← ite_not, ← orOne, ← add_div, sub_eq_add_neg]
  obtain ⟨low, high⟩ := level_range x sb h
  have fits : Fits 32 (level x sb j) := by
    rw [Fits]
    omega
  rw [quant, shift, intRound, ← level, if_pos fits, Option.map_some, min_eq_left high,
    max_eq_right low]

def levels (x : ℕ → α) (pair j : ℕ) : BitVec 8 :=
  BitVec.ofInt 8 (level x (pair * 2) j) ||| BitVec.ofInt 8 (level x (pair * 2 + 1) j) <<< 4

theorem packQuants_ends (x : ℕ → α) : Ends (packQuants x) fun qs =>
    ∀ pair < 4, ∀ j < 32, qs (pair * 32 + j) = levels x pair j := by
  refine loop_ends (fun n (qs : ℕ → BitVec 8) =>
    ∀ pair < n, ∀ j < 32, qs (pair * 32 + j) = levels x pair j) (fun pair hp => by omega)
    fun p hp qs before => ?_
  have row : Ends (forUp (fun j qs => (quant x (p * 2) j).bind fun low =>
      (quant x (p * 2 + 1) j).map fun high =>
        update qs (p * 32 + j) (BitVec.ofInt 8 low ||| BitVec.ofInt 8 high <<< 4)) 0 32 qs)
      fun qs => (∀ pair < p, ∀ j < 32, qs (pair * 32 + j) = levels x pair j) ∧
        ∀ j < 32, qs (p * 32 + j) = levels x p j := by
    refine loop_ends (fun n (qs : ℕ → BitVec 8) =>
      (∀ pair < p, ∀ j < 32, qs (pair * 32 + j) = levels x pair j) ∧
        ∀ j < n, qs (p * 32 + j) = levels x p j) ⟨before, fun j hj => by omega⟩ fun k hk qs done => ?_
    rw [quant_eq x (p * 2) hk, quant_eq x (p * 2 + 1) hk]
    refine .some ⟨fun pair hpair j hj => ?_, fun j hj => ?_⟩
    · dsimp only
      rw [update_of_ne (by omega)]
      exact done.1 pair hpair j hj
    · dsimp only
      rcases Nat.lt_succ_iff_lt_or_eq.mp hj with old | rfl
      · rw [update_of_ne (by omega)]
        exact done.2 j old
      · rw [update_self]
        rfl
  refine row.mono fun qs done pair hpair j hj => ?_
  rcases Nat.lt_succ_iff_lt_or_eq.mp hpair with old | rfl
  · exact done.1 pair old j hj
  · exact done.2 j hj

theorem choose_below {β : Type} [Inhabited β] {n : ℕ} {P : ℕ → β → Prop}
    (h : ∀ i < n, ∃ y, P i y) : ∃ f : ℕ → β, ∀ i < n, P i (f i) := by
  choose f hf using h
  refine ⟨fun i => if hi : i < n then f i hi else default, fun i hi => ?_⟩
  simp only [dif_pos hi]
  exact hf i hi

theorem toNat_ofInt {n : ℤ} (low : 0 ≤ n) (high : n ≤ 63) : ((BitVec.ofInt 8 n).toNat : ℤ) = n := by
  rw [BitVec.toNat_ofInt]
  omega

omit [FloorRing α] in
theorem rounds_of_nonneg {part whole : α} (hp : 0 ≤ part) (hw : 0 ≤ whole) : Rounds part whole := by
  rw [Rounds]
  split
  · linarith
  · have : 0 < whole := lt_of_le_of_ne hw (Ne.symm ‹_›)
    linarith

theorem scaleField_range (x : ℕ → α) {i : ℕ} (hi : i < 8) :
    ∃ n, scaleField x i = some n ∧ 0 ≤ n ∧ n ≤ 63 := by
  rw [scaleField_eq]
  exact share_eq (peak_nonneg _) (le_peak _ hi) (rounds_of_nonneg (step_nonneg x i) (peak_nonneg _))

/-- What a decoder finds in field `i` when the quantiser computed `f`. -/
def stored (f : ℕ → ℤ) (i : ℕ) : BitVec 8 :=
  if i < 4 then BitVec.ofInt 8 (f i) else turn (BitVec.ofInt 8 (f i))

/-- The ratios of a block, and that they fit into six bits. -/
structure Ratios (x : ℕ → α) (s m : ℕ → ℤ) : Prop where
  scale : ∀ i < 8, scaleField x i = some (s i) ∧ 0 ≤ s i ∧ s i ≤ 63
  min : ∀ i < 8, minField x i = some (m i) ∧ 0 ≤ m i ∧ m i ≤ 63

/-- What the quantiser writes, with the fields before they are packed. -/
structure Encoded (half : α → α) (x : ℕ → α) (s m : ℕ → ℤ) (o : BlockQ4K α) : Prop where
  scale : ∀ i < 8, scaleField x i = some (s i)
  min : ∀ i < 8, minField x i = some (m i)
  d : o.d = half (ds x)
  dmin : o.dmin = half (dm x)
  packed : ∃ S M : ℕ → BitVec 8, (∀ i < 8, S i = BitVec.ofInt 8 (s i)) ∧
    (∀ i < 8, M i = BitVec.ofInt 8 (m i)) ∧ o.scales = packScales S M
  quants : ∀ pair < 4, ∀ j < 32, o.qs (pair * 32 + j) = levels x pair j

/-- What the quantiser writes, as its readers find it. -/
structure Written (half : α → α) (x : ℕ → α) (s m : ℕ → ℤ) (o : BlockQ4K α) : Prop where
  d : o.d = half (ds x)
  dmin : o.dmin = half (dm x)
  scale : ∀ i < 8, q4Scale o.scales i = stored s i
  min : ∀ i < 8, q4Min o.scales i = stored m i
  quants : ∀ pair < 4, ∀ j < 32, o.qs (pair * 32 + j) = levels x pair j

theorem quantizeBlock_encoded (half : α → α) (scale : ∀ i < 8, scaleField x i = some (s i))
    (min : ∀ i < 8, minField x i = some (m i)) : Ends (quantizeBlock half x) (Encoded half x s m) := by
  refine (array_ends 0 fun i hi => by rw [scale i hi]; rfl).bind fun S hs => ?_
  refine (array_ends 0 fun i hi => by rw [min i hi]; rfl).bind fun M hm => ?_
  exact (packQuants_ends x).map fun qs quants => ⟨scale, min, rfl, rfl, ⟨S, M, hs, hm, rfl⟩, quants⟩

theorem small_fields {f : ℕ → ℤ} {bytes : ℕ → BitVec 8} (same : ∀ i < 8, bytes i = BitVec.ofInt 8 (f i))
    (range : ∀ i < 8, 0 ≤ f i ∧ f i ≤ 63) : ∀ i < 8, (bytes i).toNat < 64 := by
  intro i hi
  have back := toNat_ofInt (range i hi).1 (range i hi).2
  have top := (range i hi).2
  rw [same i hi]
  omega

variable {half : α → α} {o : BlockQ4K α}

theorem Encoded.scale_range (encoded : Encoded half x s m o) : ∀ i < 8, 0 ≤ s i ∧ s i ≤ 63 := by
  intro i hi
  obtain ⟨n, same, range⟩ := scaleField_range x hi
  rw [encoded.scale i hi, Option.some_inj] at same
  exact same ▸ range

theorem Encoded.q4Scale_eq (encoded : Encoded half x s m o) {i : ℕ} (hi : i < 8) :
    q4Scale o.scales i = stored s i := by
  obtain ⟨S, M, hs, _, scales⟩ := encoded.packed
  rw [scales, q4Scale_packScales (small_fields hs encoded.scale_range) hi, hs i hi]
  rfl

theorem Encoded.ratios (encoded : Encoded half x s m o)
    (rounds : ∀ i < 8, Rounds (depth x i) (peak (depth x))) : Ratios x s m where
  scale i hi := ⟨encoded.scale i hi, encoded.scale_range i hi⟩
  min i hi := by
    obtain ⟨n, same, range⟩ := share_eq (peak_nonneg _) (le_peak _ hi) (rounds i hi)
    have own := encoded.min i hi
    rw [minField_eq, same, Option.some_inj] at own
    rw [encoded.min i hi, ← own]
    exact ⟨rfl, range⟩

theorem Encoded.written (encoded : Encoded half x s m o) (r : Ratios x s m) : Written half x s m o := by
  refine ⟨encoded.d, encoded.dmin, fun i hi => encoded.q4Scale_eq hi, fun i hi => ?_, encoded.quants⟩
  obtain ⟨S, M, hs, hm, scales⟩ := encoded.packed
  rw [scales, q4Min_packScales (small_fields hs encoded.scale_range)
    (small_fields hm fun i hi => (r.min i hi).2) hi, hm i hi]
  rfl

theorem quantizeBlock_ends (half : α → α) (r : Ratios x s m) :
    Ends (quantizeBlock half x) (Written half x s m) :=
  (quantizeBlock_encoded half (fun i hi => (r.scale i hi).1) fun i hi => (r.min i hi).1).mono
    fun _ encoded => encoded.written r

theorem fields_of_array {n : ℕ} {field : ℕ → Option ℤ} {bytes : ℕ → BitVec 8}
    (run : (array n 0 fun i => (field i).map (BitVec.ofInt 8)) = some bytes) :
    ∃ f : ℕ → ℤ, ∀ i < n, field i = some (f i) := by
  have each : ∀ i < n, ∃ v, field i = some v := by
    intro i hi
    obtain ⟨v, same, _⟩ :=
      Option.map_eq_some_iff.mp ((updates_some run).1 i (Nat.zero_le i) (by omega))
    exact ⟨v, same⟩
  exact choose_below each

theorem encoded_of_some (run : quantizeBlock half x = some o) : ∃ s m, Encoded half x s m o := by
  obtain ⟨S, first, rest⟩ := Option.bind_eq_some_iff.mp run
  obtain ⟨M, second, _⟩ := Option.bind_eq_some_iff.mp rest
  obtain ⟨s, hs⟩ := fields_of_array first
  obtain ⟨m, hm⟩ := fields_of_array second
  obtain ⟨o', run', encoded⟩ := quantizeBlock_encoded half hs hm
  rw [run] at run'
  cases run'
  exact ⟨s, m, encoded⟩

omit [IsStrictOrderedRing α] in
theorem quantizeRow_ends {half : α → α} {input : ℕ → α} {blocks : ℕ} {output : ℕ → BlockQ4K α}
    {P : ℕ → BlockQ4K α → Prop}
    (each : ∀ b < blocks, Ends (quantizeBlock half fun i => input (b * 256 + i)) (P b)) :
    Ends (quantizeRow half input blocks output) fun o => ∀ b < blocks, P b (o b) := by
  exact updates_ends each output

end Block

/-- The three readers of the packed scales: the reference, the grouped adapter, and one column of
a tile that the 12-row adapter expands, with the other columns and the old bytes of that tile. -/
inductive Reader
  | dot
  | group
  | my (column : Fin 32) (tile : ℕ → ℕ → BitVec 8) (old : Fields)

def Reader.fields : Reader → (ℕ → BitVec 8) → Fields
  | .dot, w => unpackScales w
  | .group, w => ⟨q4Scale w, q4Min w⟩
  | .my column tile old, w =>
      let o := expandTile (update tile column w) 32 old
      ⟨fun i => o.scales (i * 32 + column), fun i => o.mins (i * 32 + column)⟩

theorem Reader.fields_eq (reader : Reader) (w : ℕ → BitVec 8) {i : ℕ} (h : i < 8) :
    (reader.fields w).scales i = q4Scale w i ∧ (reader.fields w).mins i = q4Min w i := by
  cases reader with
  | dot => exact ⟨unpackScales_scales w h, unpackScales_mins w h⟩
  | group => exact ⟨rfl, rfl⟩
  | my column tile old =>
      have both := expandTile_eq (update tile column w) (Nat.le_refl 32) old column.isLt h
      rw [update_self] at both
      exact both

/-- The eight scales and minimums are six-bit fields, and the reader finds them in the block. -/
def RoundTrips (reader : Reader) (x : ℕ → α) (o : BlockQ4K α) : Prop :=
  ∃ s m, Ratios x s m ∧ ∀ i < 8,
    (((reader.fields o.scales).scales i).toNat : ℤ) = s i ∧
      (((reader.fields o.scales).mins i).toNat : ℤ) = m i

theorem stored_eq_iff {f : ℕ → ℤ} {i : ℕ} (low : 0 ≤ f i) (high : f i ≤ 63) :
    ((stored f i).toNat : ℤ) = f i ↔ (4 ≤ i → f i = 0 ∨ f i = 21 ∨ f i = 42 ∨ f i = 63) := by
  have back := toNat_ofInt low high
  rw [stored]
  split
  · exact iff_of_true back fun _ => by omega
  · have turned := turn_eq_self_iff (v := BitVec.ofInt 8 (f i)) (by omega)
    rw [← BitVec.toNat_inj] at turned
    simp only [List.mem_cons, List.not_mem_nil, or_false] at turned
    constructor
    · intro same _
      have := turned.mp (by omega)
      omega
    · intro fixed
      have := turned.mpr (by omega)
      omega

/-- Once the ratios fit into six bits, the condition is left for the last four fields. -/
theorem Ratios.recoverable_iff {x : ℕ → α} {s m : ℕ → ℤ} (r : Ratios x s m) :
    (∀ i < 8, ((stored s i).toNat : ℤ) = s i ∧ ((stored m i).toNat : ℤ) = m i) ↔ Recoverable x := by
  have scale : ∀ i < 8, ((stored s i).toNat : ℤ) = s i ↔
      (4 ≤ i → Aligned (step x i) (peak (step x))) := by
    intro i hi
    obtain ⟨same, low, high⟩ := r.scale i hi
    rw [scaleField_eq] at same
    rw [stored_eq_iff low high, aligned_iff (peak_nonneg _) (le_peak _ hi) same low]
  have min : ∀ i < 8, ((stored m i).toNat : ℤ) = m i ↔
      (4 ≤ i → Aligned (depth x i) (peak (depth x))) := by
    intro i hi
    obtain ⟨same, low, high⟩ := r.min i hi
    rw [minField_eq] at same
    rw [stored_eq_iff low high, aligned_iff (peak_nonneg _) (le_peak _ hi) same low]
  constructor
  · intro all
    refine ⟨fun i hi => ?_, fun i hi hi' => (scale i hi').mp (all i hi').1 hi,
      fun i hi hi' => (min i hi').mp (all i hi').2 hi⟩
    obtain ⟨same, low, _⟩ := r.min i hi
    rw [minField_eq] at same
    exact rounds_of_share (peak_nonneg _) (le_peak _ hi) same low
  · intro ok i hi
    exact ⟨(scale i hi).mpr fun h => ok.scales i h hi, (min i hi).mpr fun h => ok.mins i h hi⟩

theorem Recoverable.ratios {x : ℕ → α} (ok : Recoverable x) : ∃ s m, Ratios x s m := by
  have min : ∀ i < 8, ∃ n, minField x i = some n ∧ 0 ≤ n ∧ n ≤ 63 := by
    intro i hi
    rw [minField_eq]
    exact share_eq (peak_nonneg _) (le_peak _ hi) (ok.rounds i hi)
  obtain ⟨s, hs⟩ := choose_below fun i hi => scaleField_range x hi
  obtain ⟨m, hm⟩ := choose_below min
  exact ⟨s, m, hs, hm⟩

variable {reader : Reader} {input : ℕ → α} {blocks : ℕ} {output : ℕ → BlockQ4K α}

theorem row_ends (reader : Reader) {s m : ℕ → ℕ → ℤ}
    (ratios : ∀ b < blocks, Ratios (fun i => input (b * 256 + i)) (s b) (m b)) :
    Ends (quantizeRow half input blocks output) fun o => ∀ b < blocks, ∀ i < 8,
      (reader.fields (o b).scales).scales i = stored (s b) i ∧
        (reader.fields (o b).scales).mins i = stored (m b) i := by
  refine (quantizeRow_ends fun b hb => quantizeBlock_ends half (ratios b hb)).mono ?_
  intro o all b hb i hi
  have read := reader.fields_eq (o b).scales hi
  rw [read.1, read.2]
  exact ⟨(all b hb).scale i hi, (all b hb).min i hi⟩

/-- A row keeps its scales and minimums through the packed bytes just when every block of it is
recoverable. -/
theorem row_round_trips_iff :
    Ends (quantizeRow half input blocks output) (fun o =>
      ∀ b < blocks, RoundTrips reader (fun i => input (b * 256 + i)) (o b)) ↔
    ∀ b < blocks, Recoverable fun i => input (b * 256 + i) := by
  constructor
  · rintro ⟨o, run, trips⟩
    obtain ⟨s, trips⟩ := choose_below trips
    obtain ⟨m, trips⟩ := choose_below trips
    obtain ⟨o', run', fields⟩ := row_ends reader fun b hb => (trips b hb).1
    rw [run] at run'
    cases run'
    intro b hb
    refine (trips b hb).1.recoverable_iff.mp fun i hi => ?_
    rw [← (fields b hb i hi).1, ← (fields b hb i hi).2]
    exact (trips b hb).2 i hi
  · intro ok
    obtain ⟨s, ratios⟩ := choose_below fun b hb => (ok b hb).ratios
    obtain ⟨m, ratios⟩ := choose_below ratios
    refine (row_ends reader ratios).mono fun o fields b hb => ⟨s b, m b, ratios b hb, fun i hi => ?_⟩
    rw [(fields b hb i hi).1, (fields b hb i hi).2]
    exact (ratios b hb).recoverable_iff.mpr (ok b hb) i hi

def twoSpikes (i : ℕ) : ℚ := if i = 1 then 63 else if i = 129 then 1 else 0

def blank (_ : ℕ) : BlockQ4K ℚ := ⟨0, 0, fun _ => 0, fun _ => 0⟩

/-- The scale 1 of sub-block 4 is read as 16, and inputs above zero have negative minimums. -/
theorem two_spikes_lost :
    scaleField twoSpikes 4 = some 1 ∧
    (quantizeRow id twoSpikes 1 blank).map (fun o => (unpackScales (o 0).scales).scales 4) = some 16 ∧
    minField (fun _ => (1 : ℚ)) 0 = some (-1) ∧
    ¬ Ends (quantizeRow id twoSpikes 1 blank) (fun o =>
      ∀ b < 1, RoundTrips .dot (fun i => twoSpikes (b * 256 + i)) (o b)) := by
  have field : scaleField twoSpikes 4 = some 1 := by decide +kernel
  have read : (quantizeRow id twoSpikes 1 blank).map
      (fun o => (unpackScales (o 0).scales).scales 4) = some 16 := by decide +kernel
  refine ⟨field, read, by decide +kernel, ?_⟩
  rintro ⟨o, run, trips⟩
  obtain ⟨s, m, ratios, reads⟩ := trips 0 (by decide)
  have same := (ratios.scale 4 (by decide)).1
  simp only [Nat.zero_mul, Nat.zero_add] at same
  rw [field, Option.some_inj] at same
  rw [run, Option.map_some, Option.some_inj] at read
  have wrong := (reads 4 (by decide)).1
  rw [Reader.fields, read, ← same] at wrong
  exact absurd wrong (by decide)

/-- Sub-blocks 0 and 4 to 6 reach below zero; the last four have steps and depths in thirds. -/
def thirds (i : ℕ) : ℚ :=
  if i = 0 then -1 else if i = 1 then 2 else if i = 128 then -15 else if i = 160 then -20
  else if i = 161 then 10 else if i = 192 then -15 else if i = 193 then 30 else 0

/-- Fields of 21, 42 and 63 are recovered, beside a scale of 4. -/
theorem thirds_recovered :
    ([0, 4, 5, 6, 7].map (scaleField thirds) = [some 4, some 21, some 42, some 63, some 0]) ∧
    ([0, 4, 5, 6, 7].map (minField thirds) = [some 21, some 63, some 42, some 21, some 0]) ∧
    Ends (quantizeRow id thirds 1 blank) (fun o =>
      ∀ b < 1, RoundTrips .dot (fun i => thirds (b * 256 + i)) (o b)) ∧
    Ends (quantizeRow id thirds 1 blank) (fun o =>
      ∀ b < 1, RoundTrips .group (fun i => thirds (b * 256 + i)) (o b)) := by
  have ok : ∀ b < 1, Recoverable fun i => thirds (b * 256 + i) := by
    intro b hb
    obtain rfl : b = 0 := by omega
    refine ⟨?_, ?_, ?_⟩
    · simp only [Rounds]
      decide +kernel
    · simp only [Aligned]
      decide +kernel
    · simp only [Aligned]
      decide +kernel
  exact ⟨by decide +kernel, by decide +kernel, row_round_trips_iff.mpr ok, row_round_trips_iff.mpr ok⟩

end Pfng.Q4K
