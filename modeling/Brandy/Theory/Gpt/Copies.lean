import Brandy.Theory.Gpt.Table

/-!
# The Two Copies

A GPT is on the flash twice. Each header has the checksums of itself and of its entries and names
the other one's place. The two functions that write the copies work in the same way, so there is one
argument, `holds_of_writes`.

What it asks for is what the code does not check. The entries of the backup copy are written with 14
sectors, which is room for 56 of them. The update writes the front with 14 sectors as well, and
there the first two are not entries, so a name that changes behind the first 48 entries gets into
the backup copy but not into the primary one.

## Main definitions

* `ValidCopy`, `Mirrored`: A copy with its checksums, and two copies that belong together.
* `Ready`, `Holds`: A buffer that can be written, and a device that has the copies of it.
* `DownloadFits`, `UpdateFits`: The conditions on a call.

## Theorems

* `holds_of_writes`: The copies of a buffer that fits.
* `download_mirrored`, `update_mirrored`: What a call leaves.
-/

namespace Brandy.Gpt

open Memory Word

/-- The header at an address has its checksum, and that of the entries at the place it names. -/
structure ValidCopy (crc32 : List UInt8 → Nat) (v : Mem) (head : Int) : Prop where
  header_crc : crc32 (read (setField v head .headerCrc32 0) head (getField v head .headerSize)) =
    getField v head .headerCrc32
  array_crc : crc32 (read v (512 * (getField v head .partitionEntryLba : Int))
      (getField v head .numPartitionEntries * getField v head .sizeofPartitionEntry)) =
    getField v head .partitionEntryArrayCrc32

/-- The address of the backup header that the primary one names. -/
def backupHead (v : Mem) : Int := 512 * (getField v 512 .alternateLba : Int)

/-- Both copies are valid and belong together. -/
structure Mirrored (crc32 : List UInt8 → Nat) (v : Mem) : Prop where
  primary : ValidCopy crc32 v 512
  backup : ValidCopy crc32 v (backupHead v)
  my_eq : getField v 512 .myLba = 1
  backup_my_eq : getField v (backupHead v) .myLba = getField v 512 .alternateLba
  backup_alternate_eq : getField v (backupHead v) .alternateLba = getField v 512 .myLba
  count_eq : getField v (backupHead v) .numPartitionEntries =
    getField v 512 .numPartitionEntries
  size_eq : getField v (backupHead v) .sizeofPartitionEntry =
    getField v 512 .sizeofPartitionEntry
  entries_eq : read v (512 * (getField v (backupHead v) .partitionEntryLba : Int))
      (getField v 512 .numPartitionEntries * getField v 512 .sizeofPartitionEntry) =
    read v (512 * (getField v 512 .partitionEntryLba : Int))
      (getField v 512 .numPartitionEntries * getField v 512 .sizeofPartitionEntry)

theorem getField_lt {m : Mem} (head : Int) {f : HeaderField} :
    getField m head f < 256 ^ f.width := le_lt m _

theorem setField_setField (m : Mem) (head : Int) (f : HeaderField) (v v' : Nat) :
    setField (setField m head f v) head f v' = setField m head f v' := setLe_setLe m _ _ v v'

theorem getField_agree {m m' : Mem} {head head' : Int} {n : Nat} (h : Agree m head m' head' n)
    (hn : sizeofGptHeader ≤ n) (f : HeaderField) : getField m head f = getField m' head' f :=
  h.le f.offset (f.end_le.trans hn)

theorem read_zeroed_agree {m m' : Mem} {head head' : Int} {n : Nat} (h : Agree m head m' head' n)
    {k : Nat} (hk : k ≤ n) :
    read (setField m head .headerCrc32 0) head k =
      read (setField m' head' .headerCrc32 0) head' k := by
  have hstored := (h.store HeaderField.headerCrc32.offset
    (leBytes HeaderField.headerCrc32.width 0)).read 0 (show 0 + k ≤ n by omega)
  rwa [Nat.cast_zero, add_zero, add_zero] at hstored

theorem gptHeadOffset_eq : gptHeadOffset = 512 := rfl

/-- The length of the entries. -/
abbrev arrayLength (buf : Mem) : Nat :=
  getField buf 512 .numPartitionEntries * getField buf 512 .sizeofPartitionEntry

section

variable (b : Board)

/-- The last thing that is done to a header: its own checksum. -/
def stamp (buf : Mem) : Mem :=
  let buf := setField buf gptHeadOffset .headerCrc32 0
  setField buf gptHeadOffset .headerCrc32
    (b.crc32 (read buf gptHeadOffset (getField buf gptHeadOffset .headerSize)))

/-- The header of the backup copy without its checksum. -/
def swapHeader (buf : Mem) : Mem :=
  let val := getField buf gptHeadOffset .myLba
  let buf := setField buf gptHeadOffset .myLba (getField buf gptHeadOffset .alternateLba)
  let buf := setField buf gptHeadOffset .alternateLba val
  setField buf gptHeadOffset .partitionEntryLba
    (u64 (getField buf gptHeadOffset .lastUsableLba + 1))

variable (buf : Mem)

theorem prepareBackup_eq :
    prepareBackupGptHeader b buf = stamp b (swapHeader buf) := rfl

variable {f : HeaderField}

theorem getField_stamp {buf : Mem} (hf : f ≠ .headerCrc32) :
    getField (stamp b buf) 512 f = getField buf 512 f :=
  (getField_setField_ne hf.symm).trans (getField_setField_ne hf.symm)

theorem read_stamp (n : Nat) : read (stamp b buf) 1024 n = read buf 1024 n := by
  simp only [stamp]
  rw [read_setField_apart (.inr (by decide)),
    read_setField_apart (.inr (by decide))]

theorem stamp_valid :
    b.crc32 (read (setField (stamp b buf) 512 .headerCrc32 0) 512
        (getField (stamp b buf) 512 .headerSize)) = getField (stamp b buf) 512 .headerCrc32 := by
  rw [getField_stamp b (by decide)]
  simp only [stamp, gptHeadOffset]
  rw [setField_setField, setField_setField, getField_setField (b.crc32_lt _),
    getField_setField_ne (by decide)]

theorem read_swapHeader (n : Nat) : read (swapHeader buf) 1024 n = read buf 1024 n := by
  simp only [swapHeader]
  rw [read_setField_apart (.inr (by decide)),
    read_setField_apart (.inr (by decide)),
    read_setField_apart (.inr (by decide))]

/-- The members of a header that are the same in both copies. -/
abbrev HeaderField.Kept (f : HeaderField) : Prop :=
  f ≠ .headerCrc32 ∧ f ≠ .myLba ∧ f ≠ .alternateLba ∧ f ≠ .partitionEntryLba

theorem getField_backup (hf : f.Kept) :
    getField (stamp b (swapHeader buf)) 512 f = getField buf 512 f := by
  obtain ⟨hcrc, hmy, halternate, hentry⟩ := hf
  rw [getField_stamp b hcrc]
  simp only [swapHeader, gptHeadOffset]
  rw [getField_setField_ne hentry.symm, getField_setField_ne halternate.symm,
    getField_setField_ne hmy.symm]

theorem myLba_swapHeader :
    getField (swapHeader buf) 512 .myLba = getField buf 512 .alternateLba := by
  simp only [swapHeader, gptHeadOffset]
  rw [getField_setField_ne (by decide), getField_setField_ne (by decide)]
  exact getField_setField (getField_lt _)

theorem alternateLba_swapHeader :
    getField (swapHeader buf) 512 .alternateLba = getField buf 512 .myLba := by
  simp only [swapHeader, gptHeadOffset]
  rw [getField_setField_ne (by decide)]
  exact getField_setField (getField_lt _)

theorem partitionEntryLba_swapHeader :
    getField (swapHeader buf) 512 .partitionEntryLba =
      u64 (getField buf 512 .lastUsableLba + 1) := by
  simp only [swapHeader, gptHeadOffset]
  rw [getField_setField u64_lt, getField_setField_ne (by decide),
    getField_setField_ne (by decide)]

/-- The buffer has a primary header, the entries fit the sectors written for them, and on a device
    that starts at sector `base` of the flash the places of the backup copy are behind the buffer,
    apart from each other and valid sector numbers. -/
structure Fits (base : Nat) (buf : Mem) : Prop where
  my_eq : getField buf 512 .myLba = 1
  entry_eq : getField buf 512 .partitionEntryLba = 2
  size_le : getField buf 512 .headerSize ≤ 512
  entries_le :
    getField buf 512 .numPartitionEntries * getField buf 512 .sizeofPartitionEntry ≤ 7168
  usable_ge : 15 ≤ getField buf 512 .lastUsableLba
  usable_le : getField buf 512 .lastUsableLba + 15 + base ≤ 2 ^ 32
  alternate_ge : 16 ≤ getField buf 512 .alternateLba
  alternate_lt : getField buf 512 .alternateLba + base < 2 ^ 32
  alternate_apart : getField buf 512 .alternateLba ≤ getField buf 512 .lastUsableLba ∨
    getField buf 512 .lastUsableLba + 15 ≤ getField buf 512 .alternateLba

variable {base : Nat} {buf : Mem}

theorem Fits.congr {buf' : Mem} (h : Fits base buf)
    (heq : ∀ f, f.Constant → getField buf' 512 f = getField buf 512 f) : Fits base buf' := by
  have hcount := heq .numPartitionEntries (by decide)
  have hsize := heq .sizeofPartitionEntry (by decide)
  have hlast := heq .lastUsableLba (by decide)
  have halternate := heq .alternateLba (by decide)
  refine ⟨(heq _ (by decide)).trans h.my_eq, (heq _ (by decide)).trans h.entry_eq,
    (heq _ (by decide)).trans_le h.size_le, ?_, ?_, ?_, ?_, ?_, ?_⟩
  all_goals simp only [hcount, hsize, hlast, halternate]
  exacts [h.entries_le, h.usable_ge, h.usable_le, h.alternate_ge, h.alternate_lt, h.alternate_apart]

/-- Moreover the header has its checksums. -/
structure Ready (base : Nat) (buf : Mem) : Prop extends Fits base buf where
  header_crc : b.crc32 (read (setField buf 512 .headerCrc32 0) 512 (getField buf 512 .headerSize)) =
    getField buf 512 .headerCrc32
  array_crc : b.crc32 (read buf 1024
      (getField buf 512 .numPartitionEntries * getField buf 512 .sizeofPartitionEntry)) =
    getField buf 512 .partitionEntryArrayCrc32

theorem mirrored_of_agree {v : Mem} (hr : Ready b base buf)
    (hprimary : Agree v 0 buf 0 (1024 + arrayLength buf))
    (hentries : Agree v (512 * ((getField buf 512 .lastUsableLba : Int) + 1)) buf 1024 7168)
    (hhead : Agree v (512 * (getField buf 512 .alternateLba : Int))
      (stamp b (swapHeader buf)) 512 512) : Mirrored b.crc32 v := by
  have husable := hr.usable_le
  have hsize := hr.size_le
  have hle : arrayLength buf ≤ 7168 := hr.entries_le
  have hfront : Agree v 512 buf 512 512 := fun i hi => by
    have h := hprimary (512 + i) (by omega)
    simpa only [Nat.cast_add, Nat.cast_ofNat, zero_add] using h
  -- the members of the primary header on the device
  have hp : ∀ f, getField v 512 f = getField buf 512 f := getField_agree hfront (by decide)
  have hbackup : backupHead v = 512 * (getField buf 512 .alternateLba : Int) := by
    rw [backupHead, hp]
  -- and those of the backup header
  have hb : ∀ f, getField v (backupHead v) f = getField (stamp b (swapHeader buf)) 512 f := by
    rw [hbackup]
    exact getField_agree hhead (by decide)
  have hkeep : ∀ {f : HeaderField}, f.Kept → getField v (backupHead v) f = getField buf 512 f :=
    fun hf => (hb _).trans (getField_backup b buf hf)
  have hplace : (getField v (backupHead v) .partitionEntryLba : Int) =
      (getField buf 512 .lastUsableLba : Int) + 1 := by
    rw [hb, getField_stamp b (by decide), partitionEntryLba_swapHeader]
    simp only [u64] at husable ⊢
    omega
  -- the entries, at both places
  have hfirst : read v (512 * (getField v 512 .partitionEntryLba : Int)) (arrayLength buf) =
      read buf 1024 (arrayLength buf) := by
    rw [hp, hr.entry_eq]
    exact hprimary.read 1024 le_rfl
  have hsecond : read v (512 * (getField v (backupHead v) .partitionEntryLba : Int))
      (arrayLength buf) = read buf 1024 (arrayLength buf) := by
    have h := hentries.read 0 (show 0 + arrayLength buf ≤ 7168 by omega)
    rw [Nat.cast_zero, add_zero, add_zero] at h
    rw [hplace, h]
  have hcount := hkeep (f := .numPartitionEntries) (by decide)
  have hentry := hkeep (f := .sizeofPartitionEntry) (by decide)
  constructor
  · constructor
    · rw [hp, hp, read_zeroed_agree hfront hsize]
      exact hr.header_crc
    · rw [hp .numPartitionEntries, hp .sizeofPartitionEntry, hp .partitionEntryArrayCrc32, hfirst]
      exact hr.array_crc
  · constructor
    · have hzeroed := read_zeroed_agree hhead hsize
      have hstamp := stamp_valid b (swapHeader buf)
      rw [getField_backup b buf (f := .headerSize) (by decide)] at hstamp
      rw [hkeep (f := .headerSize) (by decide), hbackup, hzeroed, ← hbackup, hb]
      exact hstamp
    · rw [hcount, hentry, hkeep (f := .partitionEntryArrayCrc32) (by decide), hsecond]
      exact hr.array_crc
  · rw [hp]
    exact hr.my_eq
  · rw [hb, hp, getField_stamp b (by decide), myLba_swapHeader]
  · rw [hb, hp, getField_stamp b (by decide), alternateLba_swapHeader]
  · rw [hcount, hp]
  · rw [hentry, hp]
  · rw [hp .numPartitionEntries, hp .sizeofPartitionEntry, hsecond, hfirst]

/-- The device that starts at sector `base` of the flash. -/
def view (base : Nat) (flash : Mem) : Mem := window flash (512 * (base : Int))

/-- A function writes to that device. -/
def Writes (base : Nat) (write : Mem → Nat → List UInt8 → Mem) : Prop :=
  ∀ flash start bytes, start + base < 2 ^ 32 →
    view base (write flash start bytes) = store (view base flash) (512 * (start : Int)) bytes

theorem writes_phywrite : Writes 0 sunxiSpritePhywrite := by
  intro flash start bytes hlt
  have hsector : u32 start = start := u32_of_range _ rfl (by omega)
  unfold sunxiSpritePhywrite view
  rw [hsector, ← window_store]
  simp only [Nat.cast_zero, mul_zero, add_zero]

theorem writes_spriteWrite {storageType : StorageType} :
    Writes (b.logicalBase storageType) (sunxiSpriteWrite b storageType) := by
  intro flash start bytes hlt
  have hstart : u32 start = start := u32_of_range _ rfl (by omega)
  have hsector : u32 (start + b.logicalBase storageType) = start + b.logicalBase storageType :=
    u32_of_range _ (by push_cast; rfl) hlt
  unfold sunxiSpriteWrite view
  rw [hstart, hsector, ← window_store]
  congr 2
  push_cast
  ring

/-- The device has both copies, and the primary one is that of a buffer. -/
structure Holds (base : Nat) (buf flash : Mem) : Prop where
  mirrored : Mirrored b.crc32 (view base flash)
  front : Agree (view base flash) 0 buf 0
    (1024 + getField buf 512 .numPartitionEntries * getField buf 512 .sizeofPartitionEntry)

variable {write : Mem → Nat → List UInt8 → Mem}

theorem view_writeBackup (hw : Writes base write)
    (hlast : getField buf 512 .lastUsableLba + 1 + base < 2 ^ 32)
    (halternate : getField buf 512 .alternateLba + base < 2 ^ 32) (flash : Mem) :
    view base (writeBackup write (prepareBackupGptHeader b buf) flash) =
      store (store (view base flash) (512 * ((getField buf 512 .lastUsableLba : Int) + 1))
        (read buf 1024 7168)) (512 * (getField buf 512 .alternateLba : Int))
        (read (stamp b (swapHeader buf)) 512 512) := by
  have hfield := getField_backup b buf (f := .lastUsableLba) (by decide)
  have hplace : u64 ((getField buf 512 .lastUsableLba : Int) + 1) =
      getField buf 512 .lastUsableLba + 1 := by
    simp only [u64]
    omega
  have hmy : getField (stamp b (swapHeader buf)) 512 .myLba = getField buf 512 .alternateLba := by
    rw [getField_stamp b (by decide), myLba_swapHeader]
  have hbytes : read (stamp b (swapHeader buf)) gptEntryOffset (512 * backupEntrySectors) =
      read buf 1024 7168 := (read_stamp b _ _).trans (read_swapHeader _ _)
  rw [prepareBackup_eq]
  simp only [writeBackup, gptHeadOffset]
  rw [hfield, hplace, hmy, hbytes, hw _ _ _ halternate, hw _ _ _ hlast]
  rfl

variable {flash : Mem}

theorem holds_of_writes (hw : Writes base write) (hr : Ready b base buf)
    (hprimary : Agree (view base flash) 0 buf 0 (1024 + arrayLength buf)) :
    Holds b base buf (writeBackup write (prepareBackupGptHeader b buf) flash) := by
  have hge := hr.usable_ge
  have hle := hr.usable_le
  have halternate := hr.alternate_ge
  have happart := hr.alternate_apart
  have hentries := hr.entries_le
  have hview := view_writeBackup b hw (by omega) hr.alternate_lt flash
  -- the writes are behind the buffer
  have hfront : Agree (view base (writeBackup write (prepareBackupGptHeader b buf) flash)) 0 buf 0
      (1024 + arrayLength buf) := by
    rw [hview]
    refine Agree.store_apart (hprimary.store_apart (.inl ?_)) (.inl ?_)
    · push_cast
      omega
    · push_cast
      omega
  refine ⟨mirrored_of_agree b hr hfront ?_ ?_, hfront⟩
  · rw [hview]
    refine Agree.store_apart agree_store ?_
    rw [length_read]
    omega
  · rw [hview]
    exact agree_store

variable (storageType : StorageType)

theorem setField_of_getField {m : Mem} {head : Int} {v : Nat} (h : getField m head f = v) :
    setField m head f v = m := by
  rw [← h]
  exact setLe_le m _ _

theorem entries_length (h : arrayLength buf ≤ 7168) :
    u32 (getField buf 512 .numPartitionEntries * getField buf 512 .sizeofPartitionEntry) =
      arrayLength buf := u32_of_range _ (Nat.cast_mul _ _).symm (by omega)

/-- The header of the converted table is one with its checksum: the place for it is 0 before. -/
theorem sealHeader_eq (hcrc : getField buf 512 .headerCrc32 = 0)
    (hsize : getField buf 512 .headerSize = 92) (hentries : arrayLength buf ≤ 7168) :
    sealHeader b buf sizeofGptHeader =
      stamp b (setField buf 512 .partitionEntryArrayCrc32
        (b.crc32 (read buf 1024 (arrayLength buf)))) := by
  simp only [sealHeader, stamp, gptHeadOffset, gptEntryOffset]
  rw [entries_length hentries,
    setField_of_getField (getField_setField_ne (by decide) |>.trans hcrc),
    getField_setField_ne (show HeaderField.partitionEntryArrayCrc32 ≠ .headerSize by decide),
    hsize]
  rfl

/-- The buffer with the checksum of the entries and its own, from one with neither. -/
theorem ready_stamp (hf : Fits base buf) :
    Ready b base (stamp b (setField buf 512 .partitionEntryArrayCrc32
      (b.crc32 (read buf 1024 (arrayLength buf))))) := by
  have hfield : ∀ (v : Nat) (f : HeaderField), f ≠ .headerCrc32 → f ≠ .partitionEntryArrayCrc32 →
      getField (stamp b (setField buf 512 .partitionEntryArrayCrc32 v)) 512 f =
        getField buf 512 f := fun v f hcrc harray => by
    rw [getField_stamp b hcrc, getField_setField_ne harray.symm]
  have harray : ∀ v < 2 ^ 32,
      getField (stamp b (setField buf 512 .partitionEntryArrayCrc32 v)) 512
        .partitionEntryArrayCrc32 = v := fun v hv => by
    rw [getField_stamp b (by decide)]
    exact getField_setField hv
  have hbytes : ∀ v n, read (stamp b (setField buf 512 .partitionEntryArrayCrc32 v)) 1024 n
      = read buf 1024 n := fun v n => by
    rw [read_stamp, read_setField_apart (.inr (by decide))]
  refine ⟨hf.congr fun f hconst => hfield _ f hconst.2.1 hconst.2.2, stamp_valid b _, ?_⟩
  rw [hfield _ _ (by decide) (by decide), hfield _ _ (by decide) (by decide), hbytes,
    harray _ (b.crc32_lt _)]

/-- The first sector of the device whose copies are written. -/
def deviceBase (physical : Bool) : Nat := if physical then 0 else b.logicalBase storageType

/-- The function that writes to it. -/
def deviceWrite (physical : Bool) : Mem → Nat → List UInt8 → Mem :=
  if physical then sunxiSpritePhywrite else sunxiSpriteWrite b storageType

theorem writes_device (physical : Bool) :
    Writes (deviceBase b storageType physical) (deviceWrite b storageType physical) := by
  cases physical with
  | true => exact writes_phywrite
  | false => exact writes_spriteWrite b

/-- The flash with the first `n` bytes of a buffer. A physical copy comes after a logical one. -/
def writeFront (physical : Bool) (n : Nat) (buf flash : Mem) : Mem :=
  deviceWrite b storageType physical
    (if physical then sunxiSpriteWrite b storageType flash 0 (read buf 0 n) else flash) 0
    (read buf 0 n)

/-- The flash with both copies. -/
def writeCopies (physical : Bool) (n : Nat) (buf flash : Mem) : Mem :=
  writeBackup (deviceWrite b storageType physical) (prepareBackupGptHeader b buf)
    (writeFront b storageType physical n buf flash)

/-- A download whose copies fit: the storage has a GPT with a backup copy, the entries fit the
    sectors of that copy, and the device is large enough for both and small enough for its sectors
    to have a number. -/
structure DownloadFits (mbr : Mem) : Prop where
  ubi_eq : b.ubi = false
  storage_ne : storageType ≠ .nor ∧ storageType ≠ .ufs
  count_le : partCount mbr ≤ 56
  size_ge : 49 ≤ totalSectors b storageType
  size_le : totalSectors b storageType +
    deviceBase b storageType (downloadBackupPhysical storageType) ≤ 2 ^ 32

theorem totalSectors_lt : totalSectors b storageType < 2 ^ 31 := by
  unfold totalSectors
  split <;> simp only [s32] <;> omega

variable {b storageType}

variable {mbr : Mem}

theorem fits_converted (hf : DownloadFits b storageType mbr) (buf : Mem) (hvalid : mbrValid b mbr) :
    Fits (deviceBase b storageType (downloadBackupPhysical storageType))
      (converted b storageType mbr buf) := by
  have hge := hf.size_ge
  have hle := hf.size_le
  have hlt := totalSectors_lt b storageType
  have hcount := hf.count_le
  have hfield : ∀ {f}, f.Constant → getField (converted b storageType mbr buf) 512 f =
      headerValue b storageType mbr f := getField_convert b storageType hvalid
  have hlast : (getField (converted b storageType mbr buf) 512 .lastUsableLba : Int) =
      totalSectors b storageType - 34 := by
    rw [hfield (by decide), headerValue, lastUsable, if_neg hf.storage_ne.1]
    simp only [u64, s32]
    omega
  have halternate : (getField (converted b storageType mbr buf) 512 .alternateLba : Int) =
      totalSectors b storageType - 1 := by
    rw [hfield (by decide), headerValue]
    simp only [u64, s32]
    omega
  refine ⟨hfield (by decide), hfield (by decide), ?_, ?_, ?_, ?_, ?_, ?_, ?_⟩
  · rw [hfield (by decide)]
    exact of_decide_eq_true rfl
  · rw [hfield (by decide), hfield (by decide)]
    simp only [headerValue, gptEntrySize]
    omega
  iterate 5 omega

theorem ready_converted (hf : DownloadFits b storageType mbr) (buf : Mem) (hvalid : mbrValid b mbr)
    :
    Ready b (deviceBase b storageType (downloadBackupPhysical storageType))
      (converted b storageType mbr buf) := by
  have hfield : ∀ f, f ≠ .reserved1 →
      getField (filledBuffer b storageType mbr buf) 512 f = headerValue b storageType mbr f :=
    fun f h => by rw [filledBuffer, getField_fillEntries b storageType _ _ _ h, getField_fillHeader]
  have hfilled : Fits (deviceBase b storageType (downloadBackupPhysical storageType))
      (filledBuffer b storageType mbr buf) :=
    (fits_converted hf buf hvalid).congr fun f hconst =>
      (hfield f hconst.1).trans (getField_convert b storageType hvalid hconst).symm
  rw [converted_eq b storageType hvalid,
    sealHeader_eq b (hfield _ (by decide)) (hfield _ (by decide)) hfilled.entries_le]
  exact ready_stamp b hfilled

theorem agree_written (hw : Writes base write) (hbase : base < 2 ^ 32) {flash buf : Mem} {n : Nat} :
    Agree (view base (write flash 0 (read buf 0 n))) 0 buf 0 n := by
  rw [hw _ _ _ (by omega)]
  exact agree_store

theorem download_invalid (hubi : b.ubi = false) (hvalid : ¬ mbrValid b mbr) (bufSize : Nat)
    (heap flash : Mem) :
    downloadStandardGpt b storageType mbr bufSize heap flash = (-1, flash) := by
  simp only [downloadStandardGpt, sunxiMbrConvertToGpt, if_neg hvalid, hubi,
    Bool.false_eq_true, if_false, if_true]

theorem download_eq (hubi : b.ubi = false) (hnor : storageType ≠ .nor) (hufs : storageType ≠ .ufs)
    (hvalid : mbrValid b mbr) (hcount : partCount mbr ≤ sunxiMbrMaxPartCount) (bufSize : Nat)
    (heap flash : Mem) :
    downloadStandardGpt b storageType mbr bufSize heap flash =
      (0, writeCopies b storageType (downloadBackupPhysical storageType)
        (512 * ((1024 + 128 * partCount mbr + 511) / 512))
        (converted b storageType mbr (clearedBuffer heap)) flash) := by
  have hlength : (sunxiMbrConvertToGpt b storageType mbr (clearedBuffer heap)).1 =
      1024 + 128 * partCount mbr := length_convert b storageType hvalid hcount
  have hphysical : downloadBackupPhysical storageType = downloadPhysical storageType := by
    rw [downloadBackupPhysical, beq_eq_false_iff_ne.mpr hufs, Bool.or_false]
  simp only [downloadStandardGpt, hubi, hlength, hphysical, if_neg hnor, Bool.false_eq_true,
    if_false, converted]
  rw [if_neg (by omega)]
  cases downloadPhysical storageType <;> rfl

theorem download_holds (hf : DownloadFits b storageType mbr) (bufSize : Nat) (heap flash : Mem)
    (hvalid : mbrValid b mbr) :
    Holds b (deviceBase b storageType (downloadBackupPhysical storageType))
      (converted b storageType mbr (clearedBuffer heap))
      (downloadStandardGpt b storageType mbr bufSize heap flash).2 := by
  have hready := ready_converted hf (clearedBuffer heap) hvalid
  have hbase : deviceBase b storageType (downloadBackupPhysical storageType) < 2 ^ 32 := by
    have hge := hf.size_ge
    have hle := hf.size_le
    omega
  have hcover : 1024 + arrayLength (converted b storageType mbr (clearedBuffer heap)) ≤
      512 * ((1024 + 128 * partCount mbr + 511) / 512) := by
    rw [arrayLength, getField_convert b storageType hvalid (by decide),
      getField_convert b storageType hvalid (by decide)]
    simp only [headerValue, gptEntrySize]
    omega
  rw [download_eq hf.ubi_eq hf.storage_ne.1 hf.storage_ne.2 hvalid
    (hf.count_le.trans (by decide))]
  exact holds_of_writes b (writes_device b storageType _) hready
    ((agree_written (writes_device b storageType _) hbase).mono hcover)

theorem download_mirrored (hf : DownloadFits b storageType mbr) {bufSize : Nat} (heap flash : Mem)
    (hret : (downloadStandardGpt b storageType mbr bufSize heap flash).1 = 0) :
    Mirrored b.crc32 (view (deviceBase b storageType (downloadBackupPhysical storageType))
      (downloadStandardGpt b storageType mbr bufSize heap flash).2) := by
  by_cases hvalid : mbrValid b mbr
  · exact (download_holds hf bufSize heap flash hvalid).mirrored
  · rw [download_invalid hf.ubi_eq hvalid] at hret
    exact absurd hret (Int.neg_ne_zero.mpr one_ne_zero)

/-- The new name is written over an entry and changes no member of the header but `reserved1`. -/
theorem getField_renameUdisk {buf : Mem} (i n : Nat) (hf : f ≠ .reserved1) :
    getField (renameUdisk b buf i n) 512 f = getField buf 512 f := by
  induction n generalizing i with
  | zero => rfl
  | succ n ih =>
    rw [renameUdisk]
    split
    · refine (getField_setField_ne hf.symm).trans (getField_store_apart _ _ _ _ _ (.inr ?_))
      rw [entryAt_eq, gptHeadOffset_eq, sizeofGptHeader]
      omega
    · exact ih (i + 1)

/-- No entry behind the first 48 gets the new name, so nothing changes behind them. -/
theorem renameUdisk_behind {i n : Nat}
    (h : ∀ j, 48 ≤ j → i ≤ j → j < i + n → ¬ (b.workModeBoot && entryIsUdisk buf j) = true)
    {x : Int} (hx : 7168 ≤ x) : renameUdisk b buf i n x = buf x := by
  induction n generalizing i with
  | zero => rfl
  | succ n ih =>
    rw [renameUdisk]
    split
    · next hrenamed =>
        have hname := b.lastPartitionName_length
        have hlen := length_flatMap_wide b.lastPartitionName
        have hi : i < 48 := by
          by_contra hge
          exact h i (by omega) le_rfl (by omega) hrenamed
        rw [setField, setLe, store_apart, store_apart]
        · right
          rw [entryAt_eq, hlen]
          omega
        · right
          rw [length_leBytes, gptHeadOffset_eq]
          simp only [HeaderField.offset, HeaderField.width]
          omega
    · exact ih fun j hj hle hlt => h j hj (by omega) (by omega)

variable (b storageType)

/-- An update whose copies fit. Otherwise the header that is read has to be a primary one with its
    copies on the device, and the entries among those written to the front, unless they are read
    from there and keep their names. -/
structure UpdateFits (heap flash : Mem) : Prop where
  ubi_eq : b.ubi = false
  storage_ne : storageType ≠ .nor
  base_lt : b.logicalBase storageType < 2 ^ 32
  base_apart : b.logicalBase storageType = 0 ∨ 16 ≤ b.logicalBase storageType
  updated : getField (readBuffer b storageType heap flash) 512 .reserved1 = 1 →
    Mirrored b.crc32 (view (deviceBase b storageType (updatePhysical storageType)) flash)
  fits : getField (readBuffer b storageType heap flash) 512 .reserved1 ≠ 1 →
    Fits (deviceBase b storageType (updatePhysical storageType))
      (readBuffer b storageType heap flash)
  written : getField (readBuffer b storageType heap flash) 512 .reserved1 ≠ 1 →
    getField (readBuffer b storageType heap flash) 512 .numPartitionEntries *
      getField (readBuffer b storageType heap flash) 512 .sizeofPartitionEntry ≤ 6144 ∨
    updateReadPhysical storageType = updatePhysical storageType ∧
      ∀ i, 48 ≤ i → i < getField (readBuffer b storageType heap flash) 512 .numPartitionEntries →
        ¬ (b.workModeBoot && entryIsUdisk (readBuffer b storageType heap flash) i) = true

variable {b storageType}

/-- The buffer with a new name and new checksums, from the one that was read. -/
theorem updatedBuffer_eq (hentries : arrayLength buf ≤ 7168) :
    let renamed := renameUdisk b buf 0 (getField buf 512 .numPartitionEntries)
    updatedBuffer b buf =
      stamp b (setField renamed 512 .partitionEntryArrayCrc32
        (b.crc32 (read renamed 1024 (arrayLength renamed)))) := by
  intro renamed
  have hfield : ∀ f, f ≠ .reserved1 → getField renamed 512 f = getField buf 512 f := fun f hf =>
    getField_renameUdisk 0 _ hf
  have hzeroed : ∀ f, f ≠ .partitionEntryArrayCrc32 →
      getField (setField renamed 512 .partitionEntryArrayCrc32 0) 512 f = getField renamed 512 f :=
    fun f hf => getField_setField_ne hf.symm
  have hlength : u32 (getField renamed 512 .numPartitionEntries *
      getField renamed 512 .sizeofPartitionEntry) = arrayLength renamed := by
    refine entries_length ?_
    rw [arrayLength, hfield _ (by decide), hfield _ (by decide)]
    exact hentries
  simp only [updatedBuffer, stamp, gptHeadOffset, gptEntryOffset]
  rw [hzeroed _ (by decide), hzeroed _ (by decide), hlength,
    setField_setField _ _ .partitionEntryArrayCrc32,
    read_setField_apart (.inr (by decide))]

theorem getField_updatedBuffer (hentries : arrayLength buf ≤ 7168) (hf : f.Constant) :
    getField (updatedBuffer b buf) 512 f = getField buf 512 f := by
  rw [updatedBuffer_eq hentries, getField_stamp b hf.2.1,
    getField_setField_ne hf.2.2.symm, getField_renameUdisk _ _ hf.1]

theorem ready_updated (hf : Fits base buf) : Ready b base (updatedBuffer b buf) := by
  rw [updatedBuffer_eq hf.entries_le]
  exact ready_stamp b (hf.congr fun f hconst => getField_renameUdisk 0 _ hconst.1)

theorem setField_behind {m : Mem} {f : HeaderField} {v : Nat} {x : Int} (hx : 604 ≤ x) :
    setField m gptHeadOffset f v x = m x := by
  have hend := f.end_le
  refine store_apart (.inr ?_)
  rw [length_leBytes, gptHeadOffset_eq]
  simp only [sizeofGptHeader] at hend
  omega

/-- The update keeps the entries behind the first 48, unless one of them gets the new name. -/
theorem updatedBuffer_behind
    (h : ∀ i, 48 ≤ i → i < getField buf gptHeadOffset .numPartitionEntries →
      ¬ (b.workModeBoot && entryIsUdisk buf i) = true)
    {x : Int} (hx : 7168 ≤ x) : updatedBuffer b buf x = buf x := by
  simp only [updatedBuffer]
  rw [setField_behind (by omega), setField_behind (by omega),
    setField_behind (by omega), setField_behind (by omega)]
  exact renameUdisk_behind (fun j hj _ hlt => h j hj (by omega)) hx

/-- The buffer of the update is the front of the device that it is read from. -/
theorem agree_readBuffer (hbase : b.logicalBase storageType < 2 ^ 32) (heap flash : Mem) :
    Agree (view (deviceBase b storageType (updateReadPhysical storageType)) flash) 0
      (readBuffer b storageType heap flash) 0 8192 := by
  have hu32 : u32 (b.logicalBase storageType) = b.logicalBase storageType :=
    u32_of_range _ rfl hbase
  intro i hi
  rw [readBuffer, if_pos ⟨by omega, by simp only [gptBuffSize]; omega⟩, hu32, view, deviceBase]
  by_cases hp : updateReadPhysical storageType
  · rw [if_pos hp, if_pos hp]
    simp only [window, Nat.cast_zero, mul_zero, add_zero]
  · rw [if_neg hp, if_neg hp]

variable {heap : Mem}

theorem update_done (hubi : b.ubi = false)
    (hdone : getField (readBuffer b storageType heap flash) 512 .reserved1 = 1) :
    sunxiUpdateGpt b storageType heap flash = (0, flash) := by
  simp only [sunxiUpdateGpt, hubi, Bool.false_eq_true, if_false, gptHeadOffset_eq, if_pos hdone]

section

variable (hfresh : getField (readBuffer b storageType heap flash) 512 .reserved1 ≠ 1)
include hfresh

/-- The front of the device after the primary copy has been updated. The sectors behind those
    written hold what they held. -/
theorem agree_updated (hf : UpdateFits b storageType heap flash) :
    let buf := updatedBuffer b (readBuffer b storageType heap flash)
    Agree (view (deviceBase b storageType (updatePhysical storageType))
      (writeFront b storageType (updatePhysical storageType) 7168 buf flash)) 0 buf 0
      (1024 + arrayLength (readBuffer b storageType heap flash)) := by
  intro buf i hi
  rw [arrayLength] at hi
  have hlt := hf.base_lt
  have hbase : deviceBase b storageType (updatePhysical storageType) < 2 ^ 32 := by
    unfold deviceBase
    split <;> omega
  have hle := (hf.fits hfresh).entries_le
  have hlen : (read buf 0 7168).length = 7168 := length_read _
  have hw := writes_device b storageType (updatePhysical storageType)
  by_cases hfront : i < 7168
  · exact agree_written hw hbase i hfront
  -- a sector that is not written: its entries were read from there and have kept their names
  rcases hf.written hfresh with hshort | ⟨hsame, hnames⟩
  · omega
  have hread := agree_readBuffer hlt heap flash i (by omega)
  have hkept : buf (0 + i) = readBuffer b storageType heap flash (0 + i) :=
    updatedBuffer_behind hnames (by omega)
  rw [hkept, ← hread, hsame, writeFront, hw _ _ _ (by omega),
    store_apart (.inr (by rw [hlen]; push_cast; omega))]
  by_cases hp : updatePhysical storageType
  · simp only [view, window, deviceBase, if_pos hp, Nat.cast_zero, mul_zero, add_zero]
    have hsector : u32 ((u32 (0 : Nat) : Int) + b.logicalBase storageType) =
        b.logicalBase storageType := u32_of_range _ (by simp [u32]) hlt
    refine store_apart ?_
    rw [hsector, hlen]
    rcases hf.base_apart with hzero | hge
    · exact .inr (by omega)
    · exact .inl (by omega)
  · rw [if_neg hp]

theorem update_bad (hubi : b.ubi = false)
    (hbad : headerBad b (readBuffer b storageType heap flash)) :
    sunxiUpdateGpt b storageType heap flash = (-1, flash) := by
  simp only [sunxiUpdateGpt, hubi, Bool.false_eq_true, if_false, gptHeadOffset_eq,
    if_neg hfresh, if_pos hbad]

theorem update_holds (hf : UpdateFits b storageType heap flash)
    (hgood : ¬ headerBad b (readBuffer b storageType heap flash)) :
    Holds b (deviceBase b storageType (updatePhysical storageType))
      (updatedBuffer b (readBuffer b storageType heap flash))
      (sunxiUpdateGpt b storageType heap flash).2 := by
  have hready := ready_updated (b := b) (hf.fits hfresh)
  have hfront := agree_updated hfresh hf
  have hcount := getField_updatedBuffer (b := b) (f := .numPartitionEntries)
    (hf.fits hfresh).entries_le (by decide)
  have hsize := getField_updatedBuffer (b := b) (f := .sizeofPartitionEntry)
    (hf.fits hfresh).entries_le (by decide)
  simp only [arrayLength, ← hcount, ← hsize] at hfront
  have heq : (sunxiUpdateGpt b storageType heap flash).2 =
      writeCopies b storageType (updatePhysical storageType) 7168
        (updatedBuffer b (readBuffer b storageType heap flash)) flash := by
    simp only [sunxiUpdateGpt, hf.ubi_eq, Bool.false_eq_true, if_false, gptHeadOffset_eq,
      if_neg hfresh, if_neg hgood, if_neg hf.storage_ne]
    cases updatePhysical storageType <;> rfl
  rw [heq]
  exact holds_of_writes b (writes_device b storageType _) hready hfront

end

theorem update_mirrored (hf : UpdateFits b storageType heap flash)
    (hret : (sunxiUpdateGpt b storageType heap flash).1 = 0) :
    Mirrored b.crc32 (view (deviceBase b storageType (updatePhysical storageType))
      (sunxiUpdateGpt b storageType heap flash).2) := by
  by_cases hdone : getField (readBuffer b storageType heap flash) 512 .reserved1 = 1
  · rw [update_done hf.ubi_eq hdone]
    exact hf.updated hdone
  by_cases hbad : headerBad b (readBuffer b storageType heap flash)
  · rw [update_bad hdone hf.ubi_eq hbad] at hret
    exact absurd hret (Int.neg_ne_zero.mpr one_ne_zero)
  · exact (update_holds hdone hf hbad).mirrored

end

end Brandy.Gpt
