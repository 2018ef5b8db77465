import Brandy.Core.Gpt

/-!
# The Converted Table

What `sunxi_mbr_convert_to_gpt` leaves in its buffer, and when that is a table. The converter takes
the starts from the image and the end of the last entry from the size of the device. The check that
the callers make leaves out the offset that the converter adds and the room for the backup copy, so
it accepts devices for which the last entry ends before it starts.

## Main definitions

* `converted`: The converted table.
* `WellFormed`: The entries are in order, without overlap and on the usable part.
* `LastFits`: The last partition starts there.

## Theorems

* `getField_convert`, `read_convert`: The header and the entries.
* `entries_wellFormed_iff`: When the entries are a table.
* `tables_fit_iff`: When the data fits the work buffer.
-/

namespace Brandy.Gpt

open Memory Word List

variable {f : HeaderField}

theorem HeaderField.apart {g : HeaderField} (h : f ≠ g) :
    f.offset + f.width ≤ g.offset ∨ g.offset + g.width ≤ f.offset := by
  revert h
  cases f <;> cases g <;> decide

theorem HeaderField.end_le (f : HeaderField) : f.offset + f.width ≤ sizeofGptHeader := by
  cases f <;> decide

theorem getField_setField_ne {m : Mem} {head : Int} {g : HeaderField} {v : Nat} (h : f ≠ g) :
    getField (setField m head f v) head g = getField m head g := by
  refine le_setLe_apart ?_
  rcases HeaderField.apart h with h | h
  · exact .inr (by omega)
  · exact .inl (by omega)

theorem getField_setField {m : Mem} {head : Int} {v : Nat} (h : v < 256 ^ f.width) :
    getField (setField m head f v) head f = v :=
  le_setLe h

theorem read_setField_apart {m : Mem} {head a : Int} {f : HeaderField} {v n : Nat}
    (h : a + n ≤ head ∨ head + sizeofGptHeader ≤ a) :
    read (setField m head f v) a n = read m a n := by
  have hend := f.end_le
  refine read_setLe_apart ?_
  rcases h with h | h
  · exact .inl (by omega)
  · exact .inr (by omega)

theorem getField_store_apart (m : Mem) (head a : Int) (bs : List UInt8) (f : HeaderField)
    (h : a + bs.length ≤ head ∨ head + sizeofGptHeader ≤ a) :
    getField (store m a bs) head f = getField m head f := by
  have hend := f.end_le
  refine le_store_apart _ ?_
  rcases h with h | h
  · exact .inr (by omega)
  · exact .inl (by omega)

/-- The members that neither the loop over the entries nor a checksum changes. -/
abbrev HeaderField.Constant (f : HeaderField) : Prop :=
  f ≠ .reserved1 ∧ f ≠ .headerCrc32 ∧ f ≠ .partitionEntryArrayCrc32

theorem length_remainMbr : remainMbr.length = 512 := by
  simp only [remainMbr, length_append, length_replicate]
  rfl

theorem getField_store_guid (m : Mem) (head : Int) (f : HeaderField) :
    getField (store m (head + 56) guid) head f = getField m head f := by
  have hplace : f.offset + f.width ≤ 56 ∨ 72 ≤ f.offset := by cases f <;> decide
  have hlen : guid.length = 16 := rfl
  refine le_store_apart _ ?_
  rcases hplace with h | h
  · exact .inl (by omega)
  · exact .inr (by omega)

theorem entryAt_eq (i : Nat) : entryAt i = 1024 + 128 * (i : Int) := rfl

theorem length_flatMap_wide (name : List UInt8) :
    (name.flatMap fun c => [c, 0]).length = 2 * name.length := by
  rw [length_flatMap]
  simp only [length_cons, length_nil, map_const', sum_replicate, smul_eq_mul]
  omega

theorem length_wideName {name : List UInt8} (h : name.length ≤ 36) :
    (wideName name).length = 72 := by
  simp only [wideName, length_append, length_replicate, length_flatMap_wide]
  omega

theorem length_nameString_le (mbr : Mem) (i n : Nat) : (nameString mbr i n).length ≤ n := by
  have h := (takeWhile_sublist (· != 0) : (nameString mbr i n).Sublist _).length_le
  rwa [length_read] at h

theorem u64_lt {x : Int} : u64 x < 2 ^ 64 := by
  simp only [u64]
  omega

variable {i : Nat} {mbr : Mem}

section

variable (b : Board) (storageType : StorageType)

theorem length_entryName_le (mbr : Mem) (i : Nat) : (entryName b mbr i).length ≤ 36 := by
  have hlast := b.lastPartitionName_length
  have hname := length_nameString_le mbr i 36
  unfold entryName
  split <;> omega

@[simp] theorem length_entryBytes (mbr : Mem) (i : Nat) :
    (entryBytes b storageType mbr i).length = 128 := by
  simp only [entryBytes, length_append, length_leBytes,
    length_wideName (length_entryName_le b mbr i)]
  rfl

/-- The loop over the entries changes no member of the header but `reserved1`. -/
theorem getField_fillEntries (mbr buf : Mem) (n : Nat) (hf : f ≠ .reserved1) :
    getField (fillEntries b storageType mbr buf n) 512 f = getField buf 512 f := by
  induction n with
  | zero => rfl
  | succ i ih =>
    have hstore : getField (store (fillEntries b storageType mbr buf i) (entryAt i)
        (entryBytes b storageType mbr i)) 512 f = getField buf 512 f := by
      rw [getField_store_apart, ih]
      right
      rw [entryAt_eq, sizeofGptHeader]
      omega
    simp only [fillEntries]
    split
    · exact (getField_setField_ne hf.symm).trans hstore
    · exact hstore

theorem read_fillEntries_succ (mbr buf : Mem) (i : Nat) {a : Int} (ha : 604 ≤ a) (k : Nat) :
    read (fillEntries b storageType mbr buf (i + 1)) a k =
      read (store (fillEntries b storageType mbr buf i) (entryAt i)
        (entryBytes b storageType mbr i)) a k := by
  simp only [fillEntries]
  split
  · exact read_setField_apart (.inr ha)
  · rfl

theorem read_fillEntries_behind (mbr buf : Mem) {n : Nat} {a : Int} (h : entryAt n ≤ a) (k : Nat) :
    read (fillEntries b storageType mbr buf n) a k = read buf a k := by
  rw [entryAt_eq] at h
  induction n with
  | zero => rfl
  | succ i ih =>
    rw [read_fillEntries_succ _ _ _ _ _ (by omega), read_store_apart, ih (by omega)]
    rw [length_entryBytes, entryAt_eq]
    omega

theorem read_fillEntries (mbr buf : Mem) {n : Nat} (hi : i < n) :
    read (fillEntries b storageType mbr buf n) (entryAt i) 128 =
      entryBytes b storageType mbr i := by
  induction n with
  | zero => omega
  | succ j ih =>
    rw [read_fillEntries_succ _ _ _ _ _ (by rw [entryAt_eq]; omega)]
    rcases Nat.lt_succ_iff_lt_or_eq.mp hi with hlt | rfl
    · rw [read_store_apart, ih hlt]
      rw [entryAt_eq, entryAt_eq]
      omega
    · have hread := read_store (fillEntries b storageType mbr buf i) (entryAt i)
        (entryBytes b storageType mbr i)
      rwa [length_entryBytes] at hread

/-- The buffer before the checksums. -/
def filledBuffer (mbr buf : Mem) : Mem :=
  fillEntries b storageType mbr (fillHeader b storageType mbr (store buf 0 remainMbr))
    (partCount mbr)

/-- The converted table. -/
def converted (mbr buf : Mem) : Mem := (sunxiMbrConvertToGpt b storageType mbr buf).2

theorem convert_eq {buf : Mem} (hvalid : mbrValid b mbr) :
    sunxiMbrConvertToGpt b storageType mbr buf =
      (u32 (512 + 512 + partCount mbr * gptEntrySize),
        sealHeader b (filledBuffer b storageType mbr buf) sizeofGptHeader) :=
  if_pos hvalid

theorem converted_eq {buf : Mem} (hvalid : mbrValid b mbr) :
    converted b storageType mbr buf =
      sealHeader b (filledBuffer b storageType mbr buf) sizeofGptHeader := by
  rw [converted, convert_eq b storageType hvalid]

variable (buf : Mem)

theorem read_sealHeader (size : Nat) (a : Int) (n : Nat)
    (h : 604 ≤ a) : read (sealHeader b buf size) a n = read buf a n := by
  simp only [sealHeader]
  rw [read_setField_apart (.inr h), read_setField_apart (.inr h)]

theorem getField_sealHeader (size : Nat) (hcrc : f ≠ .headerCrc32)
    (harray : f ≠ .partitionEntryArrayCrc32) :
    getField (sealHeader b buf size) 512 f = getField buf 512 f :=
  (getField_setField_ne hcrc.symm).trans (getField_setField_ne harray.symm)

theorem read_convert {buf : Mem} (hvalid : mbrValid b mbr) (hi : i < partCount mbr) :
    read (converted b storageType mbr buf) (entryAt i) 128 = entryBytes b storageType mbr i := by
  rw [converted_eq b storageType hvalid, read_sealHeader, filledBuffer,
    read_fillEntries b storageType _ _ hi]
  rw [entryAt_eq]
  omega

theorem le_convert (hvalid : mbrValid b mbr) (hi : i < partCount mbr) {w v : Nat}
    (before after : List UInt8)
    (hbytes : entryBytes b storageType mbr i = before ++ (leBytes w v ++ after)) (hv : v < 256 ^ w)
    : le (converted b storageType mbr buf) (entryAt i + before.length) w = v := by
  have hlen : before.length + w ≤ 128 := by
    rw [← length_entryBytes b storageType mbr i, hbytes]
    simp only [length_append, length_leBytes]
    omega
  unfold le
  rw [read_sub _ _ 128 _ _ hlen, read_convert b storageType hvalid hi, hbytes,
    drop_left, take_left' (length_leBytes v), leValue_leBytes v hv]

theorem lastUsable_lt : lastUsable b storageType < 2 ^ 64 := by
  unfold lastUsable
  split <;> exact u64_lt

theorem entryEnd_lt (mbr : Mem) (i : Nat) : entryEnd b storageType mbr i < 2 ^ 64 := by
  unfold entryEnd
  split
  · split
    · exact u64_lt
    · exact lastUsable_lt b storageType
  · exact u64_lt

theorem startingLba_convert (hvalid : mbrValid b mbr) (hi : i < partCount mbr) :
    startingLba (converted b storageType mbr buf) i = entryStart b storageType mbr i :=
  le_convert b storageType buf hvalid hi (basicDataGuid ++ partGuid i)
    (leBytes 8 (entryEnd b storageType mbr i) ++
      (leBytes 8 (entryAttributes mbr i) ++ wideName (entryName b mbr i)))
    (by simp only [entryBytes, append_assoc]) u64_lt

theorem endingLba_convert (hvalid : mbrValid b mbr) (hi : i < partCount mbr) :
    endingLba (converted b storageType mbr buf) i = entryEnd b storageType mbr i :=
  le_convert b storageType buf hvalid hi
    (basicDataGuid ++ partGuid i ++ leBytes 8 (entryStart b storageType mbr i))
    (leBytes 8 (entryAttributes mbr i) ++ wideName (entryName b mbr i))
    (by simp only [entryBytes, append_assoc]) (entryEnd_lt b storageType mbr i)

/-- What the converter assigns to a member of the header, before the entries are known. -/
def headerValue (mbr : Mem) : HeaderField → Nat
  | .signature => gptHeaderSignature
  | .revision => 0x00010000
  | .headerSize => sizeofGptHeader
  | .headerCrc32 | .reserved1 | .partitionEntryArrayCrc32 => 0
  | .myLba => 1
  | .alternateLba => u64 (s32 (totalSectors b storageType - 1))
  | .firstUsableLba => u32 (addrlo mbr 0 + logicOffset b storageType)
  | .lastUsableLba => lastUsable b storageType
  | .partitionEntryLba => 2
  | .numPartitionEntries => partCount mbr
  | .sizeofPartitionEntry => gptEntrySize

theorem headerValue_lt (mbr : Mem) (f : HeaderField) :
    headerValue b storageType mbr f < 256 ^ f.width := by
  cases f with
  | alternateLba => exact u64_lt
  | firstUsableLba => exact (u32_lt _).trans (by decide)
  | lastUsableLba => exact lastUsable_lt b storageType
  | numPartitionEntries => exact le_lt mbr 4
  | _ => exact of_decide_eq_true rfl

theorem getField_fillHeader (mbr buf : Mem) (f : HeaderField) :
    getField (fillHeader b storageType mbr buf) 512 f = headerValue b storageType mbr f := by
  have hlt := headerValue_lt b storageType mbr f
  cases f <;> simp (disch := decide) only [fillHeader, getField_setField_ne, getField_store_guid,
    gptHeadOffset] <;> exact getField_setField hlt

theorem getField_convert {buf : Mem} (hvalid : mbrValid b mbr) (hf : f.Constant) :
    getField (converted b storageType mbr buf) 512 f = headerValue b storageType mbr f := by
  rw [converted_eq b storageType hvalid, getField_sealHeader b _ _ hf.2.1 hf.2.2, filledBuffer,
    getField_fillEntries b storageType _ _ _ hf.1, getField_fillHeader]

end

/-- The partitions of an image follow each other, none of them is empty, and the upper halves of
    their places are not used. -/
structure Contiguous (mbr : Mem) : Prop where
  count_pos : 0 < partCount mbr
  count_le : partCount mbr ≤ 56
  addrhi_eq : ∀ i < partCount mbr, addrhi mbr i = 0
  lenhi_eq : ∀ i < partCount mbr, lenhi mbr i = 0
  lenlo_pos : ∀ i < partCount mbr, 0 < lenlo mbr i
  addrlo_succ : ∀ i, i + 1 < partCount mbr → addrlo mbr (i + 1) = addrlo mbr i + lenlo mbr i

/-- The entries of a buffer are a table. -/
structure WellFormed (buf : Mem) : Prop where
  ordered : ∀ i < getField buf gptHeadOffset .numPartitionEntries,
    startingLba buf i ≤ endingLba buf i
  increasing : ∀ i j, i < j → j < getField buf gptHeadOffset .numPartitionEntries →
    endingLba buf i < startingLba buf j
  first_le : ∀ i < getField buf gptHeadOffset .numPartitionEntries,
    getField buf gptHeadOffset .firstUsableLba ≤ startingLba buf i
  le_last : ∀ i < getField buf gptHeadOffset .numPartitionEntries,
    endingLba buf i ≤ getField buf gptHeadOffset .lastUsableLba
  last_end : ∀ i, i + 1 = getField buf gptHeadOffset .numPartitionEntries →
    endingLba buf i = getField buf gptHeadOffset .lastUsableLba

section

variable (b : Board) (storageType : StorageType)

/-- The last partition starts on the usable part of the device. A UBI volume keeps its length, so it
    has to end with the usable part. -/
def LastFits (mbr : Mem) : Prop :=
  let last := partCount mbr - 1
  if b.ubi then
    addrlo mbr last + logicOffset b storageType + lenlo mbr last = lastUsable b storageType + 1
  else addrlo mbr last + logicOffset b storageType ≤ lastUsable b storageType

theorem logicOffset_lt : logicOffset b storageType < 2 ^ 32 := by
  unfold logicOffset
  split
  iterate 5 exact u32_lt _
  norm_num

variable {mbr : Mem} (hc : Contiguous mbr)

include hc

theorem entryStart_eq (hi : i < partCount mbr) :
    entryStart b storageType mbr i = addrlo mbr i + logicOffset b storageType := by
  have haddr : addrlo mbr i < 2 ^ 32 := le_lt mbr 4
  have hoffset := logicOffset_lt b storageType
  rw [entryStart, hc.addrhi_eq i hi]
  simp only [u64]
  omega

theorem entryEnd_succ (hi : i + 1 < partCount mbr) :
    entryEnd b storageType mbr i + 1 = entryStart b storageType mbr (i + 1) := by
  have haddr : addrlo mbr (i + 1) < 2 ^ 32 := le_lt mbr 4
  have hoffset := logicOffset_lt b storageType
  have hpos := hc.lenlo_pos i (by omega)
  have hnext := hc.addrlo_succ i hi
  rw [entryEnd, if_neg (by omega), entryStart_eq b storageType hc (by omega),
    entryStart_eq b storageType hc hi, hc.lenhi_eq i (by omega)]
  simp only [u64]
  omega

theorem entryEnd_last (hi : i + 1 = partCount mbr) :
    entryEnd b storageType mbr i =
      if b.ubi then addrlo mbr i + logicOffset b storageType + lenlo mbr i - 1
      else lastUsable b storageType := by
  have haddr : addrlo mbr i < 2 ^ 32 := le_lt mbr 4
  have hlen : lenlo mbr i < 2 ^ 32 := le_lt mbr 4
  have hoffset := logicOffset_lt b storageType
  have hpos := hc.lenlo_pos i (by omega)
  rw [entryEnd, if_pos hi]
  split
  · rw [entryStart_eq b storageType hc (by omega)]
    simp only [u64]
    omega
  · rfl

theorem addrlo_lt {j : Nat} (hij : i < j) (hj : j < partCount mbr) :
    addrlo mbr i + lenlo mbr i ≤ addrlo mbr j := by
  induction j, hij using Nat.le_induction with
  | base => exact (hc.addrlo_succ i hj).ge
  | succ j hij ih =>
    have hnext := hc.addrlo_succ j hj
    omega

theorem entryStart_mono {j : Nat} (hij : i ≤ j) (hj : j < partCount mbr) :
    entryStart b storageType mbr i ≤ entryStart b storageType mbr j := by
  rcases hij.eq_or_lt with rfl | hlt
  · rfl
  · have haddr := addrlo_lt hc hlt hj
    rw [entryStart_eq b storageType hc (by omega), entryStart_eq b storageType hc hj]
    omega

theorem entryStart_le_entryEnd (hi : i + 1 < partCount mbr) :
    entryStart b storageType mbr i ≤ entryEnd b storageType mbr i := by
  have hend := entryEnd_succ b storageType hc hi
  have haddr := addrlo_lt hc (Nat.lt_add_one i) hi
  have hpos := hc.lenlo_pos i (by omega)
  rw [entryStart_eq b storageType hc hi] at hend
  rw [entryStart_eq b storageType hc (by omega)]
  omega

theorem entryEnd_lt_entryStart {j : Nat} (hij : i < j) (hj : j < partCount mbr) :
    entryEnd b storageType mbr i < entryStart b storageType mbr j := by
  have hend := entryEnd_succ b storageType hc (show i + 1 < partCount mbr by omega)
  have hmono := entryStart_mono b storageType hc (show i + 1 ≤ j by omega) hj
  omega

theorem wellFormed_iff_lastFits {buf : Mem} (hvalid : mbrValid b mbr) :
    WellFormed (converted b storageType mbr buf) ↔ LastFits b storageType mbr := by
  have hcount : getField (converted b storageType mbr buf) gptHeadOffset .numPartitionEntries =
      partCount mbr := getField_convert b storageType hvalid (by decide)
  have hlast : getField (converted b storageType mbr buf) gptHeadOffset .lastUsableLba =
      lastUsable b storageType := getField_convert b storageType hvalid (by decide)
  obtain ⟨last, hlastIndex⟩ : ∃ last, last + 1 = partCount mbr :=
    ⟨partCount mbr - 1, Nat.sub_add_cancel hc.count_pos⟩
  have hin : last < partCount mbr := by omega
  have hstart := startingLba_convert b storageType buf hvalid hin
  have hend := endingLba_convert b storageType buf hvalid hin
  have hlastEnd := entryEnd_last b storageType hc hlastIndex
  have hstartEq := entryStart_eq b storageType hc hin
  have hpos := hc.lenlo_pos last hin
  rw [LastFits, show partCount mbr - 1 = last by omega]
  constructor
  · intro hwf
    have hordered := hwf.ordered last (by omega)
    have hends := hwf.last_end last (by omega)
    rw [hend, hlast, hlastEnd] at hends
    rw [hstart, hend, hlastEnd, hstartEq] at hordered
    by_cases hubi : b.ubi
    · rw [if_pos hubi] at hends ⊢
      omega
    · rwa [if_neg hubi] at hordered ⊢
  · intro hfits
    -- in both builds the last entry ends with the usable part and starts on it
    have hends : entryEnd b storageType mbr last = lastUsable b storageType ∧
        entryStart b storageType mbr last ≤ lastUsable b storageType := by
      by_cases hubi : b.ubi
      · rw [if_pos hubi] at hfits hlastEnd
        omega
      · rw [if_neg hubi] at hfits hlastEnd
        exact ⟨hlastEnd, hstartEq.trans_le hfits⟩
    have hsplit : ∀ i < partCount mbr, i = last ∨ i < last ∧ i + 1 < partCount mbr :=
      fun i hi => by omega
    constructor
    · intro i hi
      rw [hcount] at hi
      rw [startingLba_convert b storageType buf hvalid hi,
        endingLba_convert b storageType buf hvalid hi]
      rcases hsplit i hi with rfl | ⟨-, hlt⟩
      · exact hends.2.trans_eq hends.1.symm
      · exact entryStart_le_entryEnd b storageType hc hlt
    · intro i j hij hj
      rw [hcount] at hj
      rw [startingLba_convert b storageType buf hvalid hj,
        endingLba_convert b storageType buf hvalid (hij.trans hj)]
      exact entryEnd_lt_entryStart b storageType hc hij hj
    · intro i hi
      rw [hcount] at hi
      rw [startingLba_convert b storageType buf hvalid hi]
      -- the first usable sector is computed in 32 bits, which makes it only smaller
      have hmono := entryStart_mono b storageType hc (Nat.zero_le i) hi
      rw [entryStart_eq b storageType hc hc.count_pos] at hmono
      have hmod := u32_natCast (addrlo mbr 0 + logicOffset b storageType)
      push_cast at hmod
      refine (getField_convert b storageType hvalid (by decide)).trans_le ?_
      exact hmod.trans_le ((Nat.mod_le _ _).trans hmono)
    · intro i hi
      rw [hcount] at hi
      rw [hlast, endingLba_convert b storageType buf hvalid hi]
      rcases hsplit i hi with rfl | ⟨hlt, -⟩
      · exact hends.1.le
      · exact (entryEnd_lt_entryStart b storageType hc hlt hin).le.trans hends.2
    · intro i hi
      rw [hcount] at hi
      obtain rfl : i = last := by omega
      rw [hlast, hend]
      exact hends.1

omit hc

/-- For every valid image with contiguous partitions: the entries of the tables that pass the size
    check are well formed exactly if in all of these the last partition starts on the usable part of
    the device. -/
theorem entries_wellFormed_iff (buf : Mem) (hvalid : mbrValid b mbr) (hc : Contiguous mbr) :
    (compareImageAndFlashSize b mbr = 0 → WellFormed (converted b storageType mbr buf)) ↔
      (compareImageAndFlashSize b mbr = 0 → LastFits b storageType mbr) := by
  rw [wellFormed_iff_lastFits b storageType hc hvalid]

end

/-- `array[i]` of an image. -/
def partitionBytes (addr len : Nat) (name : List UInt8) (ro : Nat) : List UInt8 :=
  leBytes 4 0 ++ leBytes 4 addr ++ leBytes 4 0 ++ leBytes 4 len ++ replicate 16 0 ++
    (name ++ replicate (16 - name.length) 0) ++ leBytes 8 0 ++ leBytes 4 ro ++
    replicate 68 0

/-- An image for a board whose checksums are all 0. -/
def imageOf (parts : List (List UInt8)) : Mem :=
  store (store (store (fun _ => 0) 8 sunxiMbrMagic) 24 (leBytes 4 parts.length)) 32 parts.flatten

/-- A board with an eMMC of some size. -/
def emmcBoard (size : Nat) : Board where
  crc32 _ := 0
  crc32_lt _ := by decide
  lastPartitionName := udisk
  lastPartitionName_length := by decide
  lastPartitionName_ne c hc := by
    rintro rfl
    exact absurd hc (by decide)
  sdmmcOffset := 40960
  norOffset := none
  spriteSize := size
  flashSize := size
  configUbifs := false
  storageTypeExt := .emmc
  nandUseUbi := false
  workModeBoot := true
  logicalBase _ := 40960

/-- `env` and `UDISK`. -/
def envImage : Mem :=
  imageOf [partitionBytes 16000 4000 [0x65, 0x6e, 0x76] 0, partitionBytes 20000 1 udisk 0]

theorem contiguous_envImage : Contiguous envImage where
  count_pos := by decide +kernel
  count_le := by decide +kernel
  addrhi_eq := by decide +kernel
  lenhi_eq := by decide +kernel
  lenlo_pos := by decide +kernel
  addrlo_succ i hi := by
    have hcount : partCount envImage = 2 := by decide +kernel
    obtain rfl : i = 0 := by omega
    decide +kernel

/-- On a device of 100000 sectors the table of the image is well formed. -/
theorem entries_wellFormed_envImage :
    mbrValid (emmcBoard 100000) envImage ∧ Contiguous envImage ∧
      (compareImageAndFlashSize (emmcBoard 100000) envImage = 0 →
        WellFormed (converted (emmcBoard 100000) .emmc envImage fun _ => 0)) := by
  have hvalid : mbrValid (emmcBoard 100000) envImage := by decide +kernel
  refine ⟨hvalid, contiguous_envImage, ?_⟩
  refine (entries_wellFormed_iff _ _ _ hvalid contiguous_envImage).mpr fun _ => ?_
  unfold LastFits
  decide +kernel

/-- A device of 50000 sectors has room for the image without the offset of 40960 sectors, which is
    all that is checked: `UDISK` starts at 60960 and ends at 49966. -/
theorem udisk_behind_end :
    mbrValid (emmcBoard 50000) envImage ∧ Contiguous envImage ∧
      compareImageAndFlashSize (emmcBoard 50000) envImage = 0 ∧
      ¬ WellFormed (converted (emmcBoard 50000) .emmc envImage fun _ => 0) := by
  have hvalid : mbrValid (emmcBoard 50000) envImage := by decide +kernel
  refine ⟨hvalid, contiguous_envImage, by decide +kernel, ?_⟩
  rw [wellFormed_iff_lastFits _ _ contiguous_envImage hvalid]
  unfold LastFits
  decide +kernel

section

variable (b : Board) (storageType : StorageType) {buf : Mem}

theorem length_convert (hvalid : mbrValid b mbr)
    (hcount : partCount mbr ≤ sunxiMbrMaxPartCount) :
    (sunxiMbrConvertToGpt b storageType mbr buf).1 = 1024 + 128 * partCount mbr := by
  simp only [sunxiMbrMaxPartCount] at hcount
  rw [convert_eq b storageType hvalid]
  simp only [gptEntrySize, u32]
  omega

theorem countUsed_eq {pos stop : Nat} (hle : pos ≤ stop)
    (hused : ∀ i, pos ≤ i → i < stop → 0 < s32 (startingLba buf i))
    (hstop : ¬ 0 < s32 (startingLba buf stop)) {fuel : Nat} (hfuel : stop - pos < fuel) :
    countUsed buf pos fuel = some stop := by
  induction fuel generalizing pos with
  | zero => omega
  | succ fuel ih =>
    rw [countUsed]
    rcases hle.eq_or_lt with rfl | hlt
    · rw [if_neg hstop]
    · rw [if_pos (hused pos le_rfl hlt)]
      exact ih hlt (fun i hlo hhi => hused i (by omega) hhi) (by omega)

theorem exists_first_unused {stop : Nat} (hstop : ¬ 0 < s32 (startingLba buf stop)) :
    ∃ used ≤ stop, (∀ i < used, 0 < s32 (startingLba buf i)) ∧
      ¬ 0 < s32 (startingLba buf used) := by
  classical
  have hex : ∃ i, ¬ 0 < s32 (startingLba buf i) := ⟨stop, hstop⟩
  exact ⟨Nat.find hex, Nat.find_min' hex hstop,
    fun i hi => not_not.mp (Nat.find_min hex hi), Nat.find_spec hex⟩

/-- The table that is built for `used` entries. The last partition is one more. -/
def tableFor (buf : Mem) (used : Nat) : Table where
  partCount := used + 1
  array := placePartitions (u32 ((startingLba buf 0 : Int) - logicOffset b storageType))
    ((List.range (used + 1)).map (tableEntry buf (used + 1)))

theorem gptConvert_eq {used fuel : Nat} (h : countUsed buf 0 fuel = some used) :
    gptConvertToSunxiMbr b storageType buf fuel = some (tableFor b storageType buf used) := by
  simp only [gptConvertToSunxiMbr, h]
  rfl

/-- The data for an image fits the work buffer exactly up to 56 partitions, and the table for a GPT
    exactly if one of the first 120 entries ends it. -/
theorem tables_fit_iff :
    (∀ mbr buf, mbrValid b mbr → partCount mbr ≤ sunxiMbrMaxPartCount →
      ((sunxiMbrConvertToGpt b storageType mbr buf).1 ≤ gptBuffSize ↔ partCount mbr ≤ 56)) ∧
    ∀ buf, (∃ used ≤ 128, startingLba buf used = 0) → ∀ fuel, 128 < fuel →
      ∃ t, gptConvertToSunxiMbr b storageType buf fuel = some t ∧
        (t.partCount ≤ sunxiMbrMaxPartCount ↔
          ∃ i < sunxiMbrMaxPartCount, s32 (startingLba buf i) ≤ 0) := by
  constructor
  · intro mbr buf hvalid hcount
    rw [length_convert b storageType hvalid hcount]
    simp only [gptBuffSize]
    omega
  · rintro buf ⟨empty, hempty, hstart⟩ fuel hfuel
    have hstop : ¬ 0 < s32 (startingLba buf empty) := by
      rw [hstart]
      decide +kernel
    obtain ⟨used, hle, hused, hunused⟩ := exists_first_unused hstop
    have hcount : countUsed buf 0 fuel = some used :=
      countUsed_eq (Nat.zero_le used) (fun i _ hi => hused i hi) hunused (by omega)
    refine ⟨_, gptConvert_eq b storageType hcount, ?_⟩
    constructor
    · intro h
      exact ⟨used, h, not_lt.mp hunused⟩
    · rintro ⟨i, hi, hend⟩
      have hge : used ≤ i := by
        by_contra hlt
        exact absurd (hused i (by omega)) (not_lt.mpr hend)
      exact Nat.succ_le_of_lt (hge.trans_lt hi)

end

/-- A GPT with `n` entries in use, each of them at sector 1. -/
def gptOf (n : Nat) : Mem := fun x => if x < entryAt n ∧ x % 128 = 32 then 1 else 0

/-- An image with `n` partitions. -/
def imageWith (n : Nat) : Mem := imageOf (replicate n (partitionBytes 0 1 udisk 0))

/-- The bounds at two partitions and at a GPT with three entries. -/
theorem tables_fit_small :
    (sunxiMbrConvertToGpt (emmcBoard 100000) .emmc envImage fun _ => 0).1 ≤ gptBuffSize ∧
      ∃ t, gptConvertToSunxiMbr (emmcBoard 100000) .emmc (gptOf 3) 200 = some t ∧
        t.partCount ≤ sunxiMbrMaxPartCount := by
  have hfit := tables_fit_iff (emmcBoard 100000) .emmc
  refine ⟨(hfit.1 envImage _ (by decide +kernel) (by decide +kernel)).mpr (by decide +kernel), ?_⟩
  obtain ⟨t, ht, hcount⟩ := hfit.2 (gptOf 3) ⟨3, by decide, by decide +kernel⟩ 200 (by decide)
  exact ⟨t, ht, hcount.mpr ⟨3, by decide, by decide +kernel⟩⟩

/-- An image with 57 partitions needs 8320 bytes, and a GPT with 120 entries gives 121
    partitions. -/
theorem tables_too_long :
    (mbrValid (emmcBoard 100000) (imageWith 57) ∧ partCount (imageWith 57) = 57 ∧
      (sunxiMbrConvertToGpt (emmcBoard 100000) .emmc (imageWith 57) fun _ => 0).1 = 8320) ∧
      startingLba (gptOf 120) 120 = 0 ∧
      (gptConvertToSunxiMbr (emmcBoard 100000) .emmc (gptOf 120) 200).map Table.partCount =
        some 121 := by
  refine ⟨⟨by decide +kernel, by decide +kernel, by decide +kernel⟩, by decide +kernel,
    by decide +kernel⟩

end Brandy.Gpt
