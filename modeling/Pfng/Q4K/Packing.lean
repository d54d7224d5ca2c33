import Pfng.Q4K.Kernel

/-! What the Q4_K packing loops leave in memory, whatever it held before. -/
namespace Pfng.Q4K
open Checked Layout

variable {α : Type} {activation : ℕ → BlockQ8K α} {entry : ℕ → ℕ → ℕ → BitVec 8}
variable {size : Buffer → ℕ} {mr tiles blocks : ℕ}

/-- The packed bytes, cell by cell; `entry slot position column` is the weight byte. -/
def packed (mr : ℕ) (activation : ℕ → BlockQ8K α) (blocks : ℕ) (entry : ℕ → ℕ → ℕ → BitVec 8) :
    Contents Buffer fun _ => BitVec 8
  | .activationQs, x =>
      (activation ((x / (256 * mr) / blocks * mr + x % (256 * mr) % mr) * blocks +
        x / (256 * mr) % blocks)).qs (x % (256 * mr) / mr)
  | .weightQs, x => entry (x / 4096) (x % 4096 / 32) (x % 32)

theorem packed_activationQs {tile b x i : ℕ} (hb : b < blocks) (hx : x < mr) (hi : i < 256) :
    packed mr activation blocks entry .activationQs
        ((tile * blocks + b) * (256 * mr) + (i * mr + x)) =
      (activation ((tile * mr + x) * blocks + b)).qs i := by
  have index : i * mr + x < 256 * mr := index_lt hi hx
  simp only [packed]
  rw [Layout.row index, column index, Layout.row hx, column hx, Layout.row hb, column hb]

theorem packed_weightQs {slot position x : ℕ} (hp : position < 128) (hx : x < 32) :
    packed mr activation blocks entry .weightQs (slot * 4096 + (position * 32 + x)) =
      entry slot position x := by
  have index : position * 32 + x < 4096 := by omega
  simp only [packed]
  rw [Layout.row index, column index, Layout.row hx]
  congr 1
  omega

theorem packActivation_writes (entry : ℕ → ℕ → ℕ → BitVec 8)
    (sizes : size .activationQs = tiles * blocks * (256 * mr)) :
    ∃ S : Region Buffer, Writes size (packActivation mr activation tiles blocks)
        (packed mr activation blocks entry) S ∧ (∀ x, ¬ S .weightQs x) ∧
      ∀ tile b x i, tile < tiles → b < blocks → x < mr → i < 256 →
        S .activationQs ((tile * blocks + b) * (256 * mr) + (i * mr + x)) := by
  refine ⟨_, Writes.loop fun tile ht => Writes.loop fun b hb => Writes.loop fun x hx =>
    Writes.loop fun i hi => Writes.store ?_ ?_, ?_, ?_⟩
  · rw [sizes]
    exact index_lt (index_lt ht hb) (index_lt hi hx)
  · exact (packed_activationQs hb hx hi).symm
  · simp
  · intro tile b x i ht hb hx hi
    exact ⟨tile, ht, b, hb, x, hx, i, hi, rfl, rfl⟩

def source (weight : ℕ → BlockQ4K α) (blocks slot x : ℕ) : BlockQ4K α :=
  weight ((slot / blocks * 32 + x) * blocks + slot % blocks)

theorem source_slot (weight : ℕ → BlockQ4K α) {tile b x : ℕ} (hb : b < blocks) :
    source weight blocks (tile * blocks + b) x = weight ((tile * 32 + x) * blocks + b) := by
  rw [source, Layout.row hb, column hb]

def myEntry (weight : ℕ → BlockQ4K α) (blocks slot position x : ℕ) : BitVec 8 :=
  q4Value (source weight blocks slot x) (position * 2) |||
    q4Value (source weight blocks slot x) (position * 2 + 1) <<< 4

def groupEntry (weight : ℕ → BlockQ4K α) (blocks slot position x : ℕ) : BitVec 8 :=
  q4Value (source weight blocks slot x) (position / 32 * 2 * 32 + position % 32) |||
    q4Value (source weight blocks slot x) ((position / 32 * 2 + 1) * 32 + position % 32) <<< 4

theorem packMy_writes (activation : ℕ → BlockQ8K α) (weight : ℕ → BlockQ4K α)
    (sizes : size .weightQs = tiles * blocks * 4096) :
    ∃ S : Region Buffer, Writes size (packMy weight tiles blocks)
        (packed mr activation blocks (myEntry weight blocks)) S ∧
      ∀ tile b position x, tile < tiles → b < blocks → position < 128 → x < 32 →
        S .weightQs ((tile * blocks + b) * 4096 + (position * 32 + x)) := by
  refine ⟨_, Writes.loop fun tile ht => Writes.loop fun b hb => Writes.loop fun x hx =>
    Writes.loop fun subblock hs => Writes.loop fun pair hp => Writes.store ?_ ?_, ?_⟩
  · rw [sizes]
    exact index_lt (index_lt ht hb) (by omega)
  · rw [packed_weightQs (by omega) hx, myEntry, source_slot weight hb,
      show (subblock * 16 + pair) * 2 = subblock * 32 + pair * 2 by omega]
  · intro tile b position x ht hb hp hx
    exact ⟨tile, ht, b, hb, x, hx, position / 16, by omega, position % 16, by omega, rfl, by omega⟩

theorem packGroup_writes (activation : ℕ → BlockQ8K α) (weight : ℕ → BlockQ4K α)
    (sizes : size .weightQs = tiles * blocks * 4096) :
    ∃ S : Region Buffer, Writes size (packGroup weight tiles blocks)
        (packed mr activation blocks (groupEntry weight blocks)) S ∧
      ∀ tile b position x, tile < tiles → b < blocks → position < 128 → x < 32 →
        S .weightQs ((tile * blocks + b) * 4096 + (position * 32 + x)) := by
  refine ⟨_, Writes.loop fun tile ht => Writes.loop fun b hb => Writes.loop fun x hx =>
    Writes.loop fun group hg => Writes.loop fun z hz => Writes.store ?_ ?_, ?_⟩
  · rw [sizes]
    exact index_lt (index_lt ht hb) (by omega)
  · rw [show group * 1024 + z * 32 + x = (group * 32 + z) * 32 + x by omega,
      packed_weightQs (by omega) hx, groupEntry, source_slot weight hb, Layout.row hz, column hz]
  · intro tile b position x ht hb hp hx
    exact ⟨tile, ht, b, hb, x, hx, position / 32, by omega, position % 32, by omega, rfl, by omega⟩

end Pfng.Q4K
