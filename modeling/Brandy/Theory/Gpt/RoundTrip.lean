import Brandy.Theory.Gpt.Table
import Mathlib.Data.List.TakeWhile

/-!
# There and Back

A table of an image, converted to a GPT and back. The way back takes the place of the first
partition from its entry and every other one from the lengths before it, which for contiguous
partitions is the same. What can go wrong is the count: it stops at the first entry whose start is
not positive as a 32-bit `long`. On a storage without a logical offset the first partition may well
start at sector 0, and then nothing of the table is left.

## Main definitions

* `Restored`, `RoundTrips`: All partitions but the last come back.
* `Survives`: The starts are positive.

## Theorems

* `placeOf_convert`: The place of a partition comes back.
* `roundTrips_iff`: When a table comes back.
-/

namespace Brandy.Gpt

open Memory Word List Option

/-- Character `j` of a name in 16-bit characters with `k` zero bytes behind it. -/
theorem take_drop_wide (name : List UInt8) {j k : Nat} (h : 2 * j + 2 ≤ 2 * name.length + k) :
    (((name.flatMap fun c => [c, 0]) ++ replicate k 0).drop (2 * j)).take 2 =
      [name.getD j 0, 0] := by
  induction j generalizing name with
  | zero =>
    cases name with
    | nil =>
      obtain ⟨k, rfl⟩ : ∃ k', k = k' + 2 := ⟨k - 2, by simp only [length_nil] at h; omega⟩
      rfl
    | cons c cs => rfl
  | succ j ih =>
    cases name with
    | nil =>
      simp only [length_nil] at h
      rw [flatMap_nil, nil_append, drop_replicate, take_replicate,
        min_eq_left (by omega)]
      rfl
    | cons c cs =>
      simp only [length_cons] at h
      rw [show 2 * (j + 1) = 2 * j + 2 by omega, flatMap_cons, getD_cons_succ]
      exact ih cs (by omega)

theorem takeWhile_chars {name : List UInt8} (hname : ∀ c ∈ name, c ≠ 0) {n : Nat}
    (hlen : name.length < n) :
    ((List.range n).map fun j => (name.getD j 0).toNat).takeWhile (· != 0) =
      name.map UInt8.toNat := by
  induction name generalizing n with
  | nil =>
    obtain ⟨n, rfl⟩ : ∃ n', n = n' + 1 := ⟨n - 1, by omega⟩
    rw [range_succ_eq_map]
    rfl
  | cons c cs ih =>
    obtain ⟨n, rfl⟩ : ∃ n', n = n' + 1 := ⟨n - 1, by omega⟩
    have hc : c.toNat ≠ 0 := fun h => hname c mem_cons_self (UInt8.toNat_inj.mp h)
    have htail := ih (fun d hd => hname d (mem_cons_of_mem c hd)) (n := n)
      (by simpa only [length_cons, Nat.add_lt_add_iff_right] using hlen)
    rw [range_succ_eq_map, map_cons, takeWhile_cons, getD_cons_zero,
      if_pos (bne_iff_ne.mpr hc), List.map_map, map_cons, ← htail]
    rfl

theorem nameString_ne_zero {mbr : Mem} (i n : Nat) : ∀ c ∈ nameString mbr i n, c ≠ 0 := by
  intro c hc
  exact bne_iff_ne.mp (mem_takeWhile_imp (p := (· != 0)) hc)

variable {i : Nat}

theorem nameString_eq {mbr : Mem} (h : (nameString mbr i 16).length ≤ 15) :
    nameString mbr i 36 = nameString mbr i 16 := by
  unfold nameString at h ⊢
  rw [show (36 : Nat) = 16 + 20 from rfl, read_add, takeWhile_append, length_read,
    if_neg (by omega)]

theorem isUdisk_iff {mbr : Mem} {n : Nat} (hn : 6 ≤ n) :
    isUdisk mbr i = true ↔ nameString mbr i n = udisk := by
  have hsplit : read mbr (arrayAt i + 32) n =
      read mbr (arrayAt i + 32) 6 ++ read mbr (arrayAt i + 32 + 6) (n - 6) := by
    have hadd := read_add mbr (arrayAt i + 32) 6 (n - 6)
    rwa [Nat.add_sub_cancel' hn] at hadd
  rw [isUdisk, beq_iff_eq, nameString]
  constructor
  · intro h
    rw [hsplit, h]
    rfl
  · intro h
    -- the byte behind the name is the zero that ends it
    have hwhole := takeWhile_append_dropWhile (p := (· != 0))
      (l := read mbr (arrayAt i + 32) n)
    rw [h] at hwhole
    rcases hrest : (read mbr (arrayAt i + 32) n).dropWhile (· != 0) with _ | ⟨c, rest⟩
    · have hlen := congrArg length hwhole
      rw [hrest, length_read] at hlen
      have hfive : (udisk ++ []).length = 5 := rfl
      omega
    · have hc : c = 0 := by
        have hhead := head?_dropWhile_not (· != 0) (read mbr (arrayAt i + 32) n)
        rw [hrest] at hhead
        simpa using hhead
      have happend : (udisk ++ [0]) ++ rest =
          read mbr (arrayAt i + 32) 6 ++ read mbr (arrayAt i + 32 + 6) (n - 6) := by
        rw [← hsplit, ← hwhole, hrest, hc, append_assoc, singleton_append]
      exact (append_inj_left happend (by rw [length_read]; rfl)).symm

section

variable (b : Board) (storageType : StorageType) {mbr : Mem} (buf : Mem)

theorem partitionName_convert (hvalid : mbrValid b mbr) (hi : i < partCount mbr) {j : Nat}
    (hj : j < 36) :
    partitionName (converted b storageType mbr buf) i j =
      ((entryName b mbr i).getD j 0).toNat := by
  have hbytes : (entryBytes b storageType mbr i).drop (56 + 2 * j) =
      (wideName (entryName b mbr i)).drop (2 * j) := by
    rw [entryBytes, ← drop_drop, drop_left']
    simp only [length_append, length_leBytes]
    rfl
  have hwide : ((wideName (entryName b mbr i)).drop (2 * j)).take 2 =
      [(entryName b mbr i).getD j 0, 0] :=
    take_drop_wide _ (by rw [length_flatMap_wide]; omega)
  have hread := read_sub (converted b storageType mbr buf) (entryAt i) 128 (56 + 2 * j) 2 (by omega)
  rw [read_convert b storageType hvalid hi, hbytes, hwide] at hread
  push_cast at hread
  rw [← add_assoc] at hread
  rw [partitionName, le, hread]
  simp only [leValue, UInt8.toNat_zero, mul_zero, add_zero]

theorem narrowName_convert (hvalid : mbrValid b mbr) (hi : i < partCount mbr)
    (hlen : (entryName b mbr i).length ≤ 15) (hne : ∀ c ∈ entryName b mbr i, c ≠ 0) :
    narrowName (converted b storageType mbr buf) i = entryName b mbr i := by
  have hchars : (List.range 16).map (partitionName (converted b storageType mbr buf) i) =
      (List.range 16).map fun j => ((entryName b mbr i).getD j 0).toNat :=
    map_congr_left fun j hj => partitionName_convert b storageType buf hvalid hi
      (by have := mem_range.mp hj; omega)
  rw [narrowName, hchars, takeWhile_chars hne (by omega), List.map_map]
  refine (map_congr_left fun c _ => ?_).trans (List.map_id _)
  exact UInt8.ofNat_toNat

theorem entryAttributes_div (mbr : Mem) (i : Nat) :
    entryAttributes mbr i / 2 ^ 48 = if ro mbr i = 1 then 0x6000 else 0x8000 := by
  unfold entryAttributes
  split <;> split <;> rfl

theorem attributes_convert (hvalid : mbrValid b mbr) (hi : i < partCount mbr) :
    attributes (converted b storageType mbr buf) i = entryAttributes mbr i := by
  have hlt : entryAttributes mbr i < 256 ^ 8 := by
    unfold entryAttributes
    split <;> split <;> norm_num
  exact le_convert b storageType buf hvalid hi
    (basicDataGuid ++ partGuid i ++ leBytes 8 (entryStart b storageType mbr i) ++
      leBytes 8 (entryEnd b storageType mbr i)) (wideName (entryName b mbr i))
    (by simp only [entryBytes, append_assoc]) hlt

end

/-- The place of partition `i` when the first one starts at `start`. -/
def placeOf (start : Nat) (ps : List Partition) : Nat → Nat
  | 0 => start
  | i + 1 => u64 (placeOf start ps i + (ps[i]?.elim 0 Partition.lenlo))

theorem placeOf_cons (start : Nat) (p : Partition) (ps : List Partition) (i : Nat) :
    placeOf start (p :: ps) (i + 1) = placeOf (u64 (start + p.lenlo)) ps i := by
  induction i with
  | zero => rfl
  | succ i ih => rw [placeOf, ih, placeOf, getElem?_cons_succ]

theorem getElem?_placePartitions (start : Nat) (ps : List Partition) (i : Nat) :
    (placePartitions start ps)[i]? = ps[i]?.map fun p =>
      { p with addrhi := placeOf start ps i / 2 ^ 32, addrlo := placeOf start ps i % 2 ^ 32 } := by
  induction ps generalizing start i with
  | nil => rfl
  | cons p ps ih =>
    cases i with
    | zero => rfl
    | succ i =>
      rw [placePartitions, getElem?_cons_succ, getElem?_cons_succ, ih, placeOf_cons]

/-- The names of an image have 1 to 15 bytes. -/
def Named (mbr : Mem) : Prop :=
  ∀ i < partCount mbr, 1 ≤ (nameString mbr i 16).length ∧ (nameString mbr i 16).length ≤ 15

/-- A partition is partition `i` of an image. -/
structure SamePartition (mbr : Mem) (i : Nat) (p : Partition) : Prop where
  name_eq : p.name = nameString mbr i 16
  addrhi_eq : p.addrhi = addrhi mbr i
  addrlo_eq : p.addrlo = addrlo mbr i
  lenhi_eq : p.lenhi = lenhi mbr i
  lenlo_eq : p.lenlo = lenlo mbr i
  ro_eq : p.ro = ro mbr i

/-- The table has all the partitions of an image, and each but the last is as it was. -/
structure Restored (mbr : Mem) (t : Table) : Prop where
  count_eq : min t.partCount (partCount mbr) = partCount mbr
  partition_eq : ∀ i, i + 1 < partCount mbr → ∃ p, t.array[i]? = some p ∧ SamePartition mbr i p

section

variable (b : Board) (storageType : StorageType)

/-- The way back ends with a table that has the partitions. -/
def RoundTrips (mbr heap : Mem) : Prop :=
  ∃ fuel t, gptConvertToSunxiMbr b storageType
    (converted b storageType mbr (clearedBuffer heap)) fuel = some t ∧ Restored mbr t

/-- Every partition but the last has a positive start as a `long`, a flag of 0 or 1 and a name that
    the converter keeps, and if all 56 entries of a buffer are in use, something behind it ends the
    count. -/
structure Survives (mbr heap : Mem) : Prop where
  positive : ∀ i, i + 1 < partCount mbr → 0 < s32 (addrlo mbr i + logicOffset b storageType)
  flag : ∀ i, i + 1 < partCount mbr → ro mbr i ≤ 1
  name : ∀ i, i + 1 < partCount mbr → nameString mbr i 16 = udisk → b.lastPartitionName = udisk
  stops : partCount mbr = 56 → 0 < s32 (addrlo mbr 55 + logicOffset b storageType) →
    ∃ j, 56 ≤ j ∧ ¬ 0 < s32 (startingLba heap j)

theorem startingLba_behind {mbr : Mem} {buf : Mem} (hvalid : mbrValid b mbr) {j : Nat}
    (hj : partCount mbr ≤ j) :
    startingLba (converted b storageType mbr buf) j = startingLba buf j := by
  have hplace : 1024 + 128 * (partCount mbr : Int) ≤ entryAt j + 32 := by
    rw [entryAt_eq]
    omega
  have happart : ∀ (m : Mem) (f : HeaderField) (v : Nat),
      read (setField m gptHeadOffset f v) (entryAt j + 32) 8 = read m (entryAt j + 32) 8 := by
    intro m f v
    refine read_setField_apart (.inr ?_)
    simp only [gptHeadOffset, sizeofGptHeader]
    omega
  unfold startingLba le
  rw [converted_eq b storageType hvalid, read_sealHeader _ _ _ _ _ (by omega), filledBuffer,
    read_fillEntries_behind _ _ _ _ hplace]
  simp only [fillHeader, happart]
  rw [read_store_apart]
  · simp only [happart]
    rw [read_store_apart _ (.inr ?_)]
    have hlen := length_remainMbr
    omega
  · right
    have hlen : guid.length = 16 := rfl
    simp only [gptHeadOffset]
    omega

theorem startingLba_cleared (heap : Mem) {j : Nat} (hj : j < 56) :
    startingLba (clearedBuffer heap) j = 0 := by
  have hzero : read (clearedBuffer heap) (entryAt j + 32) 8 =
    read (fun _ => 0) (entryAt j + 32) 8 := read_congr _ fun x hlo hhi => by
      rw [entryAt_eq] at hlo hhi
      exact if_pos ⟨by omega, by simp only [gptBuffSize]; omega⟩
  unfold startingLba le
  rw [hzero]
  rfl

theorem startingLba_heap {heap : Mem} {j : Nat} (hj : 56 ≤ j) :
    startingLba (clearedBuffer heap) j = startingLba heap j := by
  unfold startingLba le
  rw [read_congr]
  intro x hlo hhi
  rw [entryAt_eq] at hlo
  refine if_neg fun hx => ?_
  simp only [gptBuffSize] at hx
  omega

theorem countUsed_spec {buf : Mem} {pos fuel used : Nat} (h : countUsed buf pos fuel = some used) :
    (∀ i, pos ≤ i → i < used → 0 < s32 (startingLba buf i)) ∧
      ¬ 0 < s32 (startingLba buf used) := by
  induction fuel generalizing pos with
  | zero => cases h
  | succ fuel ih =>
    rw [countUsed] at h
    by_cases hpos : 0 < s32 (startingLba buf pos)
    · rw [if_pos hpos] at h
      obtain ⟨hused, hstop⟩ := ih h
      refine ⟨fun i hlo hhi => ?_, hstop⟩
      rcases hlo.eq_or_lt with rfl | hlt
      · exact hpos
      · exact hused i hlt hhi
    · rw [if_neg hpos, some.injEq] at h
      subst h
      exact ⟨fun i hlo hhi => absurd hlo (by omega), hpos⟩

variable {mbr : Mem} (hc : Contiguous mbr) (buf : Mem) (hvalid : mbrValid b mbr)
include hc hvalid

theorem entryLength_convert (hi : i + 1 < partCount mbr) :
    entryLength (converted b storageType mbr buf) i = lenlo mbr i := by
  have hend := entryEnd_succ b storageType hc hi
  have hlen : lenlo mbr i < 2 ^ 32 := le_lt mbr 4
  have hnext := hc.addrlo_succ i hi
  rw [entryStart_eq b storageType hc hi] at hend
  rw [entryLength, startingLba_convert b storageType buf hvalid (by omega),
    endingLba_convert b storageType buf hvalid (by omega),
    entryStart_eq b storageType hc (by omega)]
  simp only [u64]
  omega

/-- The place that the way back gives to a partition but the last is the old one, by the lengths
    before it. -/
theorem placeOf_convert {used : Nat} (hused : partCount mbr ≤ used + 1)
    (hi : i + 1 < partCount mbr) :
    placeOf
      (u32 ((startingLba (converted b storageType mbr buf) 0 : Int) - logicOffset b storageType))
      ((List.range (used + 1)).map
        (tableEntry (converted b storageType mbr buf) (used + 1))) i = addrlo mbr i := by
  induction i with
  | zero =>
    have haddr : addrlo mbr 0 < 2 ^ 32 := le_lt mbr 4
    rw [placeOf, startingLba_convert b storageType buf hvalid (by omega),
      entryStart_eq b storageType hc (by omega)]
    exact u32_of_range _ (by push_cast; omega) haddr
  | succ i ih =>
    have haddr : addrlo mbr (i + 1) < 2 ^ 32 := le_lt mbr 4
    have hnext := hc.addrlo_succ i (by omega)
    rw [placeOf, ih (by omega), getElem?_map,
      getElem?_range (show i < used + 1 by omega)]
    simp only [map_some, elim_some, tableEntry]
    rw [if_neg (by omega), entryLength_convert b storageType hc buf hvalid (by omega)]
    simp only [u64]
    omega

/-- What comes back for a partition but the last. -/
def returnedPartition (mbr : Mem) (i : Nat) : Partition :=
  ⟨addrhi mbr i, addrlo mbr i, lenhi mbr i, lenlo mbr i, if ro mbr i = 1 then 1 else 0,
    entryName b mbr i⟩

theorem getElem?_tableFor (hnamed : Named mbr) {used : Nat} (hused : partCount mbr ≤ used + 1)
    (hi : i + 1 < partCount mbr) :
    (tableFor b storageType (converted b storageType mbr buf) used).array[i]? =
      some (returnedPartition b mbr i) := by
  have haddr : addrlo mbr i < 2 ^ 32 := le_lt mbr 4
  have hlen : lenlo mbr i < 2 ^ 32 := le_lt mbr 4
  have hlengths := hnamed i (by omega)
  have hname : narrowName (converted b storageType mbr buf) i = entryName b mbr i := by
    refine narrowName_convert b storageType buf hvalid (by omega) ?_ ?_
    · unfold entryName
      split
      · exact b.lastPartitionName_length
      · rw [nameString_eq hlengths.2]
        exact hlengths.2
    · unfold entryName
      split
      · exact b.lastPartitionName_ne
      · exact nameString_ne_zero i 36
  rw [tableFor, getElem?_placePartitions, placeOf_convert b storageType hc buf hvalid hused hi,
    getElem?_map, getElem?_range (show i < used + 1 by omega)]
  simp only [map_some, tableEntry, hname, returnedPartition,
    attributes_convert b storageType buf hvalid (show i < partCount mbr by omega),
    entryAttributes_div, entryLength_convert b storageType hc buf hvalid hi]
  rw [if_neg (by omega), if_neg (by omega), hc.addrhi_eq i (by omega), hc.lenhi_eq i (by omega),
    Nat.div_eq_of_lt haddr, Nat.div_eq_of_lt hlen, Nat.mod_eq_of_lt haddr, Nat.mod_eq_of_lt hlen]
  split <;> rfl

omit hc hvalid

/-- A partition comes back as it was exactly with a flag of 0 or 1 and a name that the converter
    keeps. -/
theorem samePartition_iff (hnamed : Named mbr) (hi : i < partCount mbr) :
    SamePartition mbr i (returnedPartition b mbr i) ↔
      ro mbr i ≤ 1 ∧ (nameString mbr i 16 = udisk → b.lastPartitionName = udisk) := by
  have hname : entryName b mbr i = nameString mbr i 16 ↔
      (nameString mbr i 16 = udisk → b.lastPartitionName = udisk) := by
    unfold entryName
    by_cases hudisk : isUdisk mbr i = true
    · rw [if_pos hudisk, (isUdisk_iff (by decide)).mp hudisk]
      exact ⟨fun h _ => h, fun h => h rfl⟩
    · rw [if_neg hudisk, nameString_eq (hnamed i hi).2]
      exact ⟨fun _ h => absurd ((isUdisk_iff (by decide)).mpr h) hudisk, fun _ => rfl⟩
  have hflag : (if ro mbr i = 1 then 1 else 0) = ro mbr i ↔ ro mbr i ≤ 1 := by
    split <;> omega
  rw [← hname, ← hflag]
  constructor
  · intro h
    exact ⟨h.ro_eq, h.name_eq⟩
  · rintro ⟨hro, hkept⟩
    exact ⟨hkept, rfl, rfl, rfl, rfl, hro⟩

theorem restored_tableFor_iff (buf : Mem) (hvalid : mbrValid b mbr) (hc : Contiguous mbr)
    (hnamed : Named mbr) {used : Nat} :
    Restored mbr (tableFor b storageType (converted b storageType mbr buf) used) ↔
      partCount mbr ≤ used + 1 ∧ ∀ i, i + 1 < partCount mbr →
        ro mbr i ≤ 1 ∧ (nameString mbr i 16 = udisk → b.lastPartitionName = udisk) := by
  constructor
  · intro h
    have hcount : partCount mbr ≤ used + 1 := min_eq_right_iff.mp h.count_eq
    refine ⟨hcount, fun i hi => ?_⟩
    obtain ⟨p, hp, hsame⟩ := h.partition_eq i hi
    rw [getElem?_tableFor b storageType hc buf hvalid hnamed hcount hi, some.injEq] at hp
    subst hp
    exact (samePartition_iff b hnamed (by omega)).mp hsame
  · rintro ⟨hcount, hkept⟩
    refine ⟨min_eq_right hcount, fun i hi => ⟨returnedPartition b mbr i, ?_, ?_⟩⟩
    · exact getElem?_tableFor b storageType hc buf hvalid hnamed hcount hi
    · exact (samePartition_iff b hnamed (by omega)).mpr (hkept i hi)

/-- Converting a table to a GPT and back restores the partitions but the last exactly if the table
    meets the condition. -/
theorem roundTrips_iff (heap : Mem) (hvalid : mbrValid b mbr) (hc : Contiguous mbr)
    (hnamed : Named mbr) :
    RoundTrips b storageType mbr heap ↔ Survives b storageType mbr heap := by
  have hstart : ∀ i < partCount mbr,
      (startingLba (converted b storageType mbr (clearedBuffer heap)) i : Int) =
        addrlo mbr i + logicOffset b storageType := fun i hi => by
    rw [startingLba_convert b storageType _ hvalid hi, entryStart_eq b storageType hc hi]
    rfl
  have hmax := hc.count_le
  constructor
  · rintro ⟨fuel, t, hconvert, hrestored⟩
    rcases hcount : countUsed (converted b storageType mbr (clearedBuffer heap)) 0 fuel
      with _ | used
    · simp only [gptConvertToSunxiMbr, hcount] at hconvert
      cases hconvert
    obtain ⟨hused, hstop⟩ := countUsed_spec hcount
    rw [gptConvert_eq b storageType hcount, some.injEq] at hconvert
    subst hconvert
    obtain ⟨hle, hkept⟩ :=
      (restored_tableFor_iff b storageType _ hvalid hc hnamed).mp hrestored
    refine ⟨fun i hi => ?_, fun i hi => (hkept i hi).1, fun i hi => (hkept i hi).2, ?_⟩
    · have hi' := hused i (Nat.zero_le i) (by omega)
      rwa [hstart i (by omega)] at hi'
    · -- the count has gone past the last entry of the buffer
      intro hfull hlast
      have hbehind : 56 ≤ used := by
        by_contra hlt
        obtain rfl : used = 55 := by omega
        exact hstop (by rwa [hstart 55 (by omega)])
      refine ⟨used, hbehind, ?_⟩
      rwa [startingLba_behind b storageType hvalid (by omega), startingLba_heap hbehind]
        at hstop
  · intro hs
    -- some entry ends the count: the first one behind the table, or one behind the buffer
    have hend : ∃ j, ¬ 0 < s32 (startingLba (converted b storageType mbr (clearedBuffer heap)) j)
        := by
      by_cases hfull : partCount mbr = 56
      · by_cases hlast : 0 < s32 (addrlo mbr 55 + logicOffset b storageType)
        · obtain ⟨j, hj, hstop⟩ := hs.stops hfull hlast
          refine ⟨j, ?_⟩
          rwa [startingLba_behind b storageType hvalid (by omega), startingLba_heap hj]
        · exact ⟨55, by rwa [hstart 55 (by omega)]⟩
      · refine ⟨partCount mbr, ?_⟩
        rw [startingLba_behind b storageType hvalid le_rfl,
          startingLba_cleared heap (by omega)]
        decide +kernel
    obtain ⟨stop, hstop⟩ := hend
    obtain ⟨used, -, hused, hunused⟩ := exists_first_unused hstop
    have hle : partCount mbr ≤ used + 1 := by
      by_contra hlt
      refine hunused ?_
      rw [hstart used (by omega)]
      exact hs.positive used (by omega)
    have hcount := countUsed_eq (Nat.zero_le used) (fun i _ hi => hused i hi) hunused
      (show used - 0 < used + 1 by omega)
    refine ⟨used + 1, _, gptConvert_eq b storageType hcount, ?_⟩
    exact (restored_tableFor_iff b storageType _ hvalid hc hnamed).mpr
      ⟨hle, fun i hi => ⟨hs.flag i hi, hs.name i hi⟩⟩

end

/-- `boot` at sector 0 of a NAND, and `UDISK`. -/
def bootImage : Mem :=
  imageOf [partitionBytes 0 64 [0x62, 0x6f, 0x6f, 0x74] 1, partitionBytes 64 64 udisk 0]

theorem contiguous_bootImage : Contiguous bootImage where
  count_pos := by decide +kernel
  count_le := by decide +kernel
  addrhi_eq := by decide +kernel
  lenhi_eq := by decide +kernel
  lenlo_pos := by decide +kernel
  addrlo_succ i hi := by
    have hcount : partCount bootImage = 2 := by decide +kernel
    obtain rfl : i = 0 := by omega
    decide +kernel

theorem named_bootImage : Named bootImage := by
  unfold Named
  decide +kernel

/-- On an eMMC the offset makes every start positive, and the table comes back. -/
theorem roundTrips_bootImage :
    mbrValid (emmcBoard 100000) bootImage ∧ Contiguous bootImage ∧ Named bootImage ∧
      RoundTrips (emmcBoard 100000) .emmc bootImage fun _ => 0 := by
  have hvalid : mbrValid (emmcBoard 100000) bootImage := by decide +kernel
  have hcount : partCount bootImage = 2 := by decide +kernel
  refine ⟨hvalid, contiguous_bootImage, named_bootImage, ?_⟩
  refine (roundTrips_iff _ _ _ hvalid contiguous_bootImage named_bootImage).mpr ?_
  constructor
  · intro i hi
    obtain rfl : i = 0 := by omega
    decide +kernel
  · intro i hi
    obtain rfl : i = 0 := by omega
    decide +kernel
  · intro _ _ _
    rfl
  · intro hfull
    omega

/-- On a NAND there is no offset. The first entry starts at sector 0, which ends the count: one
    partition comes back. -/
theorem first_at_zero_lost :
    mbrValid (emmcBoard 100000) bootImage ∧ Contiguous bootImage ∧ Named bootImage ∧
      (gptConvertToSunxiMbr (emmcBoard 100000) .nand
        (converted (emmcBoard 100000) .nand bootImage (clearedBuffer fun _ => 0)) 1).map
          Table.partCount = some 1 ∧
      ¬ RoundTrips (emmcBoard 100000) .nand bootImage fun _ => 0 := by
  have hcount : partCount bootImage = 2 := by decide +kernel
  have hzero : ¬ 0 < s32 (startingLba (converted (emmcBoard 100000) .nand bootImage
      (clearedBuffer fun _ => 0)) 0) := by decide +kernel
  refine ⟨by decide +kernel, contiguous_bootImage, named_bootImage, by decide +kernel, ?_⟩
  rintro ⟨fuel, t, hconvert, hrestored⟩
  cases fuel with
  | zero => cases hconvert
  | succ fuel =>
    have hused : countUsed (converted (emmcBoard 100000) .nand bootImage
        (clearedBuffer fun _ => 0)) 0 (fuel + 1) = some 0 := if_neg hzero
    rw [gptConvert_eq _ _ hused, some.injEq] at hconvert
    have hmin := hrestored.count_eq
    rw [← hconvert, hcount] at hmin
    exact absurd hmin (by decide)

end Brandy.Gpt
