import Brandy.Core.UbiMbr
import Brandy.Theory.Gpt.Table

/-!
# Four Copies of a Table

The length of the last partition is put into all four copies of the partition table, together with a
checksum, which is computed for the first copy only. A copy that differs from the first one
anywhere, as in its number, ends up with a checksum that is not its own.

## Main definitions

* `Valid`: A copy has the checksum of its content.
* `Adjusted`: All copies are valid and have the new length.

## Theorems

* `adjusted_iff`: When adjusting leaves the copies valid.
-/

namespace Brandy.UbiMbr

open Memory Gpt

/-- What the checksum of a table is over. -/
def content (mbr : Mem) : List UInt8 := read mbr 4 (sunxiMbrSize - 4)

/-- The copy has the checksum of its content. -/
def Valid (b : Board) (mbr : Mem) : Prop := b.crc32 (content mbr) = le mbr 0 4

/-- The copies have the same partitions. -/
structure Shared (copies : Nat → Mem) : Prop where
  count_pos : 0 < partCount (copies 0)
  count_le : partCount (copies 0) ≤ sunxiMbrMaxPartCount
  count_eq : ∀ i < 4, partCount (copies i) = partCount (copies 0)
  array_eq : ∀ i < 4, read (copies i) 32 (128 * 120) = read (copies 0) 32 (128 * 120)

/-- All copies are valid, their last partition has the new length and the others are as they
    were. -/
structure Adjusted (b : Board) (copies copies' : Nat → Mem) (sects : Nat) : Prop where
  valid : ∀ i < 4, Valid b (copies' i)
  last : ∀ i < 4, lenlo (copies' i) (partCount (copies' i) - 1) = sects
  others : ∀ i < 4, ∀ j < sunxiMbrMaxPartCount, j + 1 ≠ partCount (copies i) →
    read (copies' i) (arrayAt j) 128 = read (copies i) (arrayAt j) 128

/-- A copy with the new length, before it gets a checksum. -/
def resized (copies : Nat → Mem) (sects i : Nat) : Mem :=
  setLe (copies i) (arrayAt (partCount (copies 0) - 1) + 12) 4 sects

section

variable {b : Board} {copies : Nat → Mem} {sects i : Nat}

theorem content_setLe (m : Mem) (v : Nat) : content (setLe m 0 4 v) = content m :=
  read_setLe_apart (by decide)

theorem adjustSunxiMbr_of_ne (hsects : sects < 2 ^ 32)
    (hne : sects ≠ lenlo (copies 0) (partCount (copies 0) - 1)) (hi : i < 4) :
    adjustSunxiMbr b copies sects i =
      setLe (resized copies sects i) 0 4 (b.crc32 (content (resized copies sects 0))) := by
  let org := setLe (resized copies sects 0) 0 4 (b.crc32 (content (resized copies sects 0)))
  have hlen : lenlo org (partCount (copies 0) - 1) = sects := by
    rw [lenlo, le_setLe_apart (.inr (by unfold arrayAt; omega)), resized, le_setLe hsects]
  have hcrc : le org 0 4 = b.crc32 (content (resized copies sects 0)) := le_setLe (b.crc32_lt _)
  unfold adjustSunxiMbr
  simp only [if_neg hne]
  by_cases h0 : i = 0
  · rw [if_pos h0, h0]
    rfl
  · rw [if_neg h0, if_pos hi]
    exact congrArg₂ (fun len crc => setLe (setLe (copies i) _ 4 len) 0 4 crc) hlen hcrc

/-- Adjusting the copies leaves them valid exactly if there is nothing to adjust or their checksums
    are all the same. -/
theorem adjusted_iff (hsects : sects < 2 ^ 32) (hs : Shared copies)
    (hv : ∀ i < 4, Valid b (copies i)) :
    Adjusted b copies (adjustSunxiMbr b copies sects) sects ↔
      sects = lenlo (copies 0) (partCount (copies 0) - 1) ∨
        ∀ i < 4, b.crc32 (content (resized copies sects i)) =
          b.crc32 (content (resized copies sects 0)) := by
  have hpos := hs.count_pos
  have hle := hs.count_le
  unfold sunxiMbrMaxPartCount at hle
  by_cases hne : sects = lenlo (copies 0) (partCount (copies 0) - 1)
  · refine iff_of_true ?_ (.inl hne)
    have hsame : adjustSunxiMbr b copies sects = copies := if_pos hne
    rw [hsame]
    refine ⟨hv, fun i hi => ?_, fun _ _ _ _ _ => rfl⟩
    have hlast := (agree_of_read (hs.array_eq i hi)).le (128 * (partCount (copies 0) - 1) + 12)
      (w := 4) (by omega)
    rw [hs.count_eq i hi, hne, lenlo, lenlo, arrayAt]
    convert hlast using 2 <;> push_cast <;> ring
  have hvalid : ∀ i < 4, Valid b (adjustSunxiMbr b copies sects i) ↔
      b.crc32 (content (resized copies sects i)) = b.crc32 (content (resized copies sects 0)) := by
    intro i hi
    rw [Valid, adjustSunxiMbr_of_ne hsects hne hi, content_setLe, le_setLe (b.crc32_lt _)]
  rw [or_iff_right hne]
  refine ⟨fun h i hi => (hvalid i hi).mp (h.valid i hi), fun h =>
    ⟨fun i hi => (hvalid i hi).mpr (h i hi), fun i hi => ?_, fun i hi j hj hother => ?_⟩⟩
  · have hcount : partCount (adjustSunxiMbr b copies sects i) = partCount (copies 0) := by
      rw [adjustSunxiMbr_of_ne hsects hne hi, partCount, le_setLe_apart (by decide), resized,
        le_setLe_apart (.inl (by unfold arrayAt; omega))]
      exact hs.count_eq i hi
    rw [hcount, adjustSunxiMbr_of_ne hsects hne hi, lenlo,
      le_setLe_apart (.inr (by unfold arrayAt; omega)), resized, le_setLe hsects]
  · rw [hs.count_eq i hi] at hother
    rw [adjustSunxiMbr_of_ne hsects hne hi,
      read_setLe_apart (.inr (by unfold arrayAt; omega)), resized,
      read_setLe_apart (by unfold arrayAt; omega)]

end

/-- A board whose checksum is the number of a copy. -/
def numberBoard : Board :=
  { emmcBoard 0 with
    crc32 bs := leValue ((bs.drop 16).take 4)
    crc32_lt bs := (leValue_lt _).trans_le
      (Nat.pow_le_pow_right (by decide) (List.length_take_le 4 _)) }

/-- A copy of a table with one empty partition and its number. -/
def numberedCopy (b : Board) (i : Nat) : Mem :=
  let mbr := setLe (setLe (store (fun _ => 0) 8 sunxiMbrMagic) 20 4 i) 24 4 1
  setLe mbr 0 4 (b.crc32 (content mbr))

theorem valid_numberedCopy (b : Board) (i : Nat) : Valid b (numberedCopy b i) := by
  rw [Valid, numberedCopy, content_setLe, le_setLe (b.crc32_lt _)]

theorem partCount_numberedCopy (b : Board) (i : Nat) : partCount (numberedCopy b i) = 1 := by
  rw [partCount, numberedCopy, le_setLe_apart (by decide), le_setLe (by decide)]

theorem shared_numberedCopy (b : Board) : Shared (numberedCopy b) := by
  have harray : ∀ i, read (numberedCopy b i) 32 (128 * 120) =
      read (store (fun _ => 0) 8 sunxiMbrMagic) 32 (128 * 120) := fun i => by
    rw [numberedCopy, read_setLe_apart (by decide), read_setLe_apart (by decide),
      read_setLe_apart (by decide)]
  refine ⟨?_, ?_, fun i _ => ?_, fun i _ => ?_⟩
  · rw [partCount_numberedCopy]
    decide
  · rw [partCount_numberedCopy]
    decide
  · rw [partCount_numberedCopy, partCount_numberedCopy]
  · rw [harray, harray]

/-- Four equal copies get a new length. -/
theorem adjusted_equalCopies :
    Adjusted numberBoard (fun _ => numberedCopy numberBoard 0)
      (adjustSunxiMbr numberBoard (fun _ => numberedCopy numberBoard 0) 5) 5 := by
  have hshared : Shared fun _ => numberedCopy numberBoard 0 := by
    refine ⟨?_, ?_, fun _ _ => rfl, fun _ _ => rfl⟩
    · rw [partCount_numberedCopy]
      decide
    · rw [partCount_numberedCopy]
      decide
  exact (adjusted_iff (by decide) hshared fun _ _ => valid_numberedCopy _ 0).mpr
    (.inr fun _ _ => rfl)

/-- The checksum tells the first two copies apart when they have got a length of 1. -/
def TellsApart (b : Board) : Prop :=
  b.crc32 (content (resized (numberedCopy b) 1 1)) ≠
    b.crc32 (content (resized (numberedCopy b) 1 0))

/-- With any such checksum the second copy is not valid afterwards. -/
theorem numberedCopy_stale : (∃ b, TellsApart b) ∧ ∀ b, TellsApart b →
    Shared (numberedCopy b) ∧ (∀ i < 4, Valid b (numberedCopy b i)) ∧
      ¬ Valid b (adjustSunxiMbr b (numberedCopy b) 1 1) := by
  refine ⟨⟨numberBoard, by unfold TellsApart; decide +kernel⟩, fun b hb =>
    ⟨shared_numberedCopy b, fun i _ => valid_numberedCopy b i, ?_⟩⟩
  have hlen : lenlo (numberedCopy b 0) (partCount (numberedCopy b 0) - 1) = 0 := by
    rw [partCount_numberedCopy, lenlo, numberedCopy, le_setLe_apart (by decide),
      le_setLe_apart (by decide), le_setLe_apart (by decide)]
    decide +kernel
  rw [Valid, adjustSunxiMbr_of_ne (by decide) (by rw [hlen]; decide) (by decide), content_setLe,
    le_setLe (b.crc32_lt _)]
  exact hb

end Brandy.UbiMbr
