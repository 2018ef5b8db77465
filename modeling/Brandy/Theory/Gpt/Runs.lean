import Brandy.Theory.Gpt.Copies
import Brandy.Theory.Gpt.RoundTrip
import Mathlib.Data.List.GetD

/-!
# Runs of Downloads and Updates

For an update the condition is one on the flash, so a run has to establish it. On a storage where
the update reads the device that the download writes, a download that fits does so and every later
update keeps it.

## Main definitions

* `Call`, `CallFits`: The functions that write a GPT, and the condition on a call.
* `Plain`, `Kept`: Such a storage, and the invariant.

## Theorems

* `kept_download`, `kept_update`: What one call keeps.
* `copies_mirrored`: Every call of a run leaves both copies.
-/

namespace Brandy.Gpt

open Memory Word List

/-- The functions that write a GPT, with their arguments and the memory behind their buffer. -/
inductive Call where
  | download (mbr : Mem) (bufSize : Nat) (heap : Mem)
  | update (heap : Mem)

section

variable (b : Board) (storageType : StorageType)

/-- The result of a call and the flash after it. -/
def Call.run (flash : Mem) : Call → Int × Mem
  | .download mbr bufSize heap => downloadStandardGpt b storageType mbr bufSize heap flash
  | .update heap => sunxiUpdateGpt b storageType heap flash

/-- The storages for which a call writes the backup copy physically. -/
def Call.physical : Call → Bool
  | .download .. => downloadBackupPhysical storageType
  | .update _ => updatePhysical storageType

/-- A call that returns 0 leaves both copies on the device it writes to. -/
def CallMirrors (flash : Mem) (c : Call) : Prop :=
  (c.run b storageType flash).1 = 0 →
    Mirrored b.crc32
      (view (deviceBase b storageType (c.physical storageType)) (c.run b storageType flash).2)

/-- The condition on a call. -/
def CallFits (flash : Mem) : Call → Prop
  | .download mbr _ _ => DownloadFits b storageType mbr
  | .update heap => UpdateFits b storageType heap flash

/-- Every call of a run, with the flash before it. -/
def EachCall (P : Mem → Call → Prop) (flash : Mem) : List Call → Prop
  | [] => True
  | c :: cs => P flash c ∧ EachCall P (c.run b storageType flash).2 cs

variable {flash : Mem}

theorem callMirrors_of_fits {c : Call} (h : CallFits b storageType flash c) :
    CallMirrors b storageType flash c := by
  cases c with
  | download mbr bufSize heap => exact download_mirrored h heap flash
  | update heap => exact update_mirrored h

/-- In a run whose calls all meet the condition, every call leaves both copies. -/
theorem copies_mirrored (flash : Mem) (calls : List Call)
    (h : EachCall b storageType (CallFits b storageType) flash calls) :
    EachCall b storageType (CallMirrors b storageType) flash calls := by
  induction calls generalizing flash with
  | nil => trivial
  | cons c cs ih =>
    obtain ⟨hfits, hrest⟩ := h
    exact ⟨callMirrors_of_fits b storageType hfits, ih _ hrest⟩

/-- A storage that is a single device for downloads and updates. -/
structure Plain : Prop where
  ubi_eq : b.ubi = false
  storage_ne : storageType ≠ .nor
  base_lt : b.logicalBase storageType < 2 ^ 32
  base_apart : b.logicalBase storageType = 0 ∨ 16 ≤ b.logicalBase storageType
  read_eq : updateReadPhysical storageType = updatePhysical storageType
  download_eq : downloadBackupPhysical storageType = updatePhysical storageType

/-- The device holds the copies of a buffer that fits, and of the entries behind the first 48 no one
    is to be renamed. -/
structure KeptBy (buf flash : Mem) : Prop where
  holds : Holds b (deviceBase b storageType (updatePhysical storageType)) buf flash
  fits : Fits (deviceBase b storageType (updatePhysical storageType)) buf
  size_eq : getField buf 512 .sizeofPartitionEntry = 128
  names : getField buf 512 .reserved1 ≠ 1 →
    ∀ i, 48 ≤ i → i < getField buf 512 .numPartitionEntries → entryIsUdisk buf i = false

/-- The device holds the copies of some such buffer. -/
def Kept (flash : Mem) : Prop := ∃ buf, KeptBy b storageType buf flash

variable {b storageType}

theorem entryIsUdisk_congr {m m' : Mem} {i : Nat}
    (h : ∀ x, entryAt i ≤ x → x < entryAt i + 128 → m x = m' x) :
    entryIsUdisk m i = entryIsUdisk m' i := by
  have hmap : (List.range 6).map (fun j => UInt8.ofNat (partitionName m i j)) =
      (List.range 6).map fun j => UInt8.ofNat (partitionName m' i j) := by
    refine map_congr_left fun j hj => ?_
    have hj6 := mem_range.mp hj
    unfold partitionName le
    rw [read_congr _ fun x hlo hhi => h x (by omega) (by omega)]
  unfold entryIsUdisk
  rw [hmap]

section

variable {buf : Mem} (hp : Plain b storageType) (hk : KeptBy b storageType buf flash) (heap : Mem)
include hp hk

theorem KeptBy.agree_readBuffer :
    Agree (readBuffer b storageType heap flash) 0 buf 0 (1024 + arrayLength buf) := by
  have hentries : arrayLength buf ≤ 7168 := hk.fits.entries_le
  have hread := Gpt.agree_readBuffer hp.base_lt heap flash
  rw [hp.read_eq] at hread
  exact (hread.symm.mono (by omega)).trans hk.holds.front

theorem KeptBy.getField_readBuffer (f : HeaderField) :
    getField (readBuffer b storageType heap flash) 512 f = getField buf 512 f := by
  have hagree := (hk.agree_readBuffer hp heap).drop 512 (k := 512) (by omega)
  exact getField_agree hagree (by decide) f

theorem KeptBy.names_readBuffer (hfresh : getField buf 512 .reserved1 ≠ 1) {i : Nat} (hi : 48 ≤ i)
    (hlt : i < getField buf 512 .numPartitionEntries) :
    entryIsUdisk (readBuffer b storageType heap flash) i = false := by
  have hagree := hk.agree_readBuffer hp heap
  rw [arrayLength, hk.size_eq] at hagree
  rw [entryIsUdisk_congr fun x hlo hhi => ?_]
  · exact hk.names hfresh i hi hlt
  · rw [entryAt_eq] at hlo hhi
    obtain ⟨n, rfl⟩ := Int.eq_ofNat_of_zero_le (show 0 ≤ x by omega)
    simpa only [zero_add] using hagree n (by omega)

theorem KeptBy.not_renamed
    (hfresh : getField (readBuffer b storageType heap flash) 512 .reserved1 ≠ 1) {i : Nat}
    (hi : 48 ≤ i)
    (hlt : i < getField (readBuffer b storageType heap flash) 512 .numPartitionEntries) :
    ¬ (b.workModeBoot && entryIsUdisk (readBuffer b storageType heap flash) i) = true := by
  rw [hk.getField_readBuffer hp heap] at hfresh hlt
  rw [hk.names_readBuffer hp heap hfresh hi hlt, Bool.and_false]
  exact Bool.false_ne_true

theorem KeptBy.updateFits : UpdateFits b storageType heap flash where
  ubi_eq := hp.ubi_eq
  storage_ne := hp.storage_ne
  base_lt := hp.base_lt
  base_apart := hp.base_apart
  updated _ := hk.holds.mirrored
  fits _ := hk.fits.congr fun f _ => hk.getField_readBuffer hp heap f
  written hfresh := .inr ⟨hp.read_eq, fun _ hi hlt => hk.not_renamed hp heap hfresh hi hlt⟩

end

theorem kept_update (hp : Plain b storageType) (hk : Kept b storageType flash) (heap : Mem) :
    Kept b storageType (sunxiUpdateGpt b storageType heap flash).2 := by
  obtain ⟨buf, hk⟩ := hk
  have hf := hk.updateFits hp heap
  have hfields := hk.getField_readBuffer hp heap
  by_cases hdone : getField (readBuffer b storageType heap flash) 512 .reserved1 = 1
  · rw [update_done hp.ubi_eq hdone]
    exact ⟨buf, hk⟩
  by_cases hbad : headerBad b (readBuffer b storageType heap flash)
  · rw [update_bad hdone hp.ubi_eq hbad]
    exact ⟨buf, hk⟩
  have hentries := (hf.fits hdone).entries_le
  have hfresh : getField buf 512 .reserved1 ≠ 1 := fun h => hdone ((hfields _).trans h)
  refine ⟨_, update_holds hdone hf hbad, (ready_updated (hf.fits hdone)).toFits, ?_, ?_⟩
  · rw [getField_updatedBuffer hentries (by decide), hfields, hk.size_eq]
  · intro _ i hi hlt
    rw [getField_updatedBuffer hentries (by decide), hfields] at hlt
    -- behind the first 48 entries nothing has changed
    rw [entryIsUdisk_congr fun x hlo _ => updatedBuffer_behind
      (fun _ => hk.not_renamed hp heap hdone) (by rw [entryAt_eq] at hlo; omega)]
    exact hk.names_readBuffer hp heap hfresh hi hlt

theorem reserved1_fillEntries (mbr buf : Mem) {n i : Nat} (hi : i < n)
    (hudisk : isUdisk mbr i = true) :
    getField (fillEntries b storageType mbr buf n) 512 .reserved1 = 1 := by
  induction n with
  | zero => omega
  | succ j ih =>
    simp only [fillEntries]
    split
    · exact getField_setField (by decide)
    next hnot =>
      have hlt : i < j := by
        rcases Nat.lt_succ_iff_lt_or_eq.mp hi with hlt | rfl
        · exact hlt
        · exact absurd hudisk hnot
      rw [getField_store_apart, ih hlt]
      right
      rw [entryAt_eq, sizeofGptHeader]
      omega

/-- A name of six characters that starts with `"UDISK"` and a zero is that string. -/
theorem eq_udisk_of_chars {name : List UInt8} (hne : ∀ c ∈ name, c ≠ 0)
    (h : (List.range 6).map (fun j => name.getD j 0) = udisk ++ [0]) : name = udisk := by
  have hchar : ∀ j < 6, name.getD j 0 = (udisk ++ [0]).getD j 0 := fun j hj => by
    have hj' := congrArg (fun l => l.getD j 0) h
    simpa only [getD_eq_getElem?_getD, getElem?_map, getElem?_range hj,
      Option.map_some, Option.getD_some] using hj'
  have hget : ∀ j, j < name.length → name.getD j 0 ≠ 0 := fun j hj => by
    rw [getD_eq_getElem _ _ hj]
    exact hne _ (getElem_mem hj)
  have hle : name.length ≤ 5 := by
    by_contra hgt
    exact hget 5 (by omega) (hchar 5 (by decide))
  have hge : 5 ≤ name.length := by
    by_contra hlt
    have hfour := hchar 4 (by decide)
    rw [getD_eq_default _ _ (by omega)] at hfour
    exact absurd hfour (by decide)
  refine ext_getElem (by rw [show udisk.length = 5 from rfl]; omega) fun j hj hj' => ?_
  have hcharj := hchar j (by omega)
  rw [getD_eq_getElem _ _ hj, getD_append _ _ _ _ hj', getD_eq_getElem _ _ hj']
    at hcharj
  exact hcharj

theorem entryIsUdisk_convert {mbr : Mem} (buf : Mem) (hvalid : mbrValid b mbr)
    (hfresh : getField (converted b storageType mbr buf) 512 .reserved1 ≠ 1) {i : Nat}
    (hi : i < partCount mbr) : entryIsUdisk (converted b storageType mbr buf) i = false := by
  have hnot : ¬ isUdisk mbr i = true := fun hudisk => by
    refine hfresh ?_
    rw [converted_eq b storageType hvalid, getField_sealHeader b _ _ (by decide) (by decide),
      filledBuffer]
    exact reserved1_fillEntries mbr _ hi hudisk
  rw [Bool.eq_false_iff]
  intro hname
  rw [entryIsUdisk, beq_iff_eq] at hname
  have hchars : (List.range 6).map (fun j => UInt8.ofNat
      (partitionName (converted b storageType mbr buf) i j)) =
      (List.range 6).map fun j => (nameString mbr i 36).getD j 0 :=
    map_congr_left fun j hj => by
      have hj6 := mem_range.mp hj
      rw [partitionName_convert b storageType buf hvalid hi (by omega), entryName, if_neg hnot]
      exact UInt8.ofNat_toNat
  rw [hchars] at hname
  exact hnot ((isUdisk_iff (by decide)).mpr (eq_udisk_of_chars (nameString_ne_zero i 36) hname))

theorem kept_download {mbr : Mem} (hp : Plain b storageType) (hf : DownloadFits b storageType mbr)
    (hvalid : mbrValid b mbr) {bufSize : Nat} {heap flash : Mem} :
    Kept b storageType (downloadStandardGpt b storageType mbr bufSize heap flash).2 := by
  have hholds := download_holds hf bufSize heap flash hvalid
  have hready := ready_converted hf (clearedBuffer heap) hvalid
  rw [hp.download_eq] at hholds hready
  refine ⟨_, hholds, hready.toFits, getField_convert b storageType hvalid (by decide), ?_⟩
  intro hfresh i _ hlt
  rw [getField_convert b storageType hvalid (by decide)] at hlt
  exact entryIsUdisk_convert _ hvalid hfresh hlt

variable (b storageType)

theorem eachCall_fits (hp : Plain b storageType) (hk : Kept b storageType flash) {calls : List Call}
    (hdownloads : ∀ mbr bufSize heap, .download mbr bufSize heap ∈ calls →
      DownloadFits b storageType mbr) :
    EachCall b storageType (CallFits b storageType) flash calls := by
  induction calls generalizing flash with
  | nil => trivial
  | cons c cs ih =>
    have hrest : ∀ flash', Kept b storageType flash' →
        EachCall b storageType (CallFits b storageType) flash' cs := fun flash' hk' =>
      ih hk' fun mbr bufSize heap h => hdownloads mbr bufSize heap (mem_cons_of_mem c h)
    cases c with
    | download mbr bufSize heap =>
      have hfits := hdownloads mbr bufSize heap mem_cons_self
      refine ⟨hfits, hrest _ ?_⟩
      by_cases hvalid : mbrValid b mbr
      · exact kept_download hp hfits hvalid
      · rw [Call.run, download_invalid hp.ubi_eq hvalid]
        exact hk
    | update heap =>
      obtain ⟨buf, hkept⟩ := hk
      exact ⟨hkept.updateFits hp heap, hrest _ (kept_update hp ⟨buf, hkept⟩ heap)⟩

end

theorem plain_emmcBoard : Plain (emmcBoard 100000) .emmc := by
  constructor <;> decide

/-- `env` and `data`. Without `UDISK` the download does not mark the table as updated. -/
def dataImage : Mem :=
  imageOf [partitionBytes 16000 4000 [0x65, 0x6e, 0x76] 0,
    partitionBytes 20000 1 [0x64, 0x61, 0x74, 0x61] 0]

theorem downloadFits_dataImage : DownloadFits (emmcBoard 100000) .emmc dataImage := by
  constructor <;> decide +kernel

/-- A download to an eMMC and two updates that write both copies again. -/
theorem copies_mirrored_dataImage :
    EachCall (emmcBoard 100000) .emmc (CallMirrors (emmcBoard 100000) .emmc) (fun _ => 0)
      [.download dataImage 65536 fun _ => 0, .update fun _ => 0, .update fun _ => 0] ∧
    getField (readBuffer (emmcBoard 100000) .emmc (fun _ => 0) (downloadStandardGpt
      (emmcBoard 100000) .emmc dataImage 65536 (fun _ => 0) fun _ => 0).2) 512 .reserved1 = 0 := by
  refine ⟨copies_mirrored _ _ _ _ ⟨downloadFits_dataImage,
    eachCall_fits _ _ plain_emmcBoard ?_ ?_⟩, by decide +kernel⟩
  · exact kept_download plain_emmcBoard downloadFits_dataImage (by decide +kernel)
  · intro mbr bufSize heap h
    simp only [mem_cons, not_mem_nil, reduceCtorEq, or_self] at h

/-- The buffer for an image with 57 partitions. -/
def longBuffer : Mem :=
  converted (emmcBoard 100000) .emmc (imageWith 57) (clearedBuffer fun _ => 0)

/-- The flash after the primary copy of that buffer has been written. -/
def longFlash : Mem :=
  sunxiSpritePhywrite (sunxiSpriteWrite (emmcBoard 100000) .emmc (fun _ => 0) 0
    (read longBuffer 0 8704)) 0 (read longBuffer 0 8704)

/-- The device after both copies have been written. -/
def longDevice : Mem :=
  store (store (view 0 longFlash) (512 * 99967) (read longBuffer 1024 7168)) (512 * 99999)
    (read (stamp (emmcBoard 100000) (swapHeader longBuffer)) 512 512)

theorem mbrValid_long : mbrValid (emmcBoard 100000) (imageWith 57) := by decide +kernel

theorem partCount_long : partCount (imageWith 57) = 57 := by decide +kernel

theorem getField_long {f : HeaderField} (hf : f.Constant) :
    getField longBuffer 512 f = headerValue (emmcBoard 100000) .emmc (imageWith 57) f :=
  getField_convert _ _ mbrValid_long hf

theorem lastUsableLba_long : getField longBuffer 512 .lastUsableLba = 99966 :=
  (getField_long (by decide)).trans (by decide +kernel)

theorem alternateLba_long : getField longBuffer 512 .alternateLba = 99999 :=
  (getField_long (by decide)).trans (by decide +kernel)

theorem download_long :
    downloadStandardGpt (emmcBoard 100000) .emmc (imageWith 57) 65536 (fun _ => 0) (fun _ => 0) =
      (0, writeBackup sunxiSpritePhywrite (prepareBackupGptHeader (emmcBoard 100000) longBuffer)
        longFlash) := by
  rw [download_eq rfl (by decide) (by decide) mbrValid_long (by rw [partCount_long]; decide),
    partCount_long]
  rfl

theorem view_long :
    view 0 (writeBackup sunxiSpritePhywrite (prepareBackupGptHeader (emmcBoard 100000) longBuffer)
      longFlash) = longDevice := by
  rw [view_writeBackup (emmcBoard 100000) writes_phywrite (by rw [lastUsableLba_long]; decide)
    (by rw [alternateLba_long]; decide), lastUsableLba_long, alternateLba_long]
  rfl

theorem agree_longDevice : Agree longDevice 0 longBuffer 0 8704 := by
  have hfront : Agree (view 0 longFlash) 0 longBuffer 0 8704 :=
    agree_written writes_phywrite (by decide)
  exact (hfront.store_apart (.inl (by decide))).store_apart (.inl (by decide))

theorem getField_longDevice (f : HeaderField) :
    getField longDevice 512 f = getField longBuffer 512 f :=
  getField_agree (agree_longDevice.drop 512 (k := 512) (by decide)) (by decide) f

theorem backupEntries_long :
    getField longDevice (backupHead longDevice) .partitionEntryLba = 99967 := by
  have hhead : backupHead longDevice = 512 * 99999 := by
    rw [backupHead, getField_longDevice, alternateLba_long]
    rfl
  have hagree : Agree longDevice (512 * 99999)
      (stamp (emmcBoard 100000) (swapHeader longBuffer)) 512 512 := agree_store
  rw [hhead, getField_agree hagree (by decide), getField_stamp _ (by decide),
    partitionEntryLba_swapHeader, lastUsableLba_long]
  decide +kernel

/-- The first byte of the last entry, in the primary copy and in the backup copy. -/
theorem last_entry_long : longDevice 8192 = 0xa2 ∧ longDevice (512 * 99967 + 7168) = 0 := by
  constructor
  · have hfront := agree_longDevice 8192 (by decide)
    have hentry := getD_read longBuffer (entryAt 56) 128 0 (by decide)
    rw [longBuffer, read_convert _ _ mbrValid_long (by rw [partCount_long]; decide)] at hentry
    exact hfront.trans hentry.symm
  · have hempty : view 0 longFlash (512 * 99967 + 7168) = 0 := by
      rw [longFlash, writes_phywrite _ _ _ (by decide), store_apart]
      · unfold view window sunxiSpriteWrite
        rw [store_apart]
        right
        rw [length_read]
        decide +kernel
      · right
        rw [length_read]
        decide
    rw [longDevice, store_apart (.inl (by decide)), store_apart, hempty]
    right
    rw [length_read]
    decide

/-- The download of an image with 57 partitions returns 0, but the entries of its backup copy are
    written without the last one. -/
theorem last_entry_missing :
    mbrValid (emmcBoard 100000) (imageWith 57) ∧ partCount (imageWith 57) = 57 ∧
      (downloadStandardGpt (emmcBoard 100000) .emmc (imageWith 57) 65536 (fun _ => 0)
        fun _ => 0).1 = 0 ∧
      ¬ Mirrored (emmcBoard 100000).crc32 (view 0
        (downloadStandardGpt (emmcBoard 100000) .emmc (imageWith 57) 65536 (fun _ => 0)
          fun _ => 0).2) := by
  rw [download_long]
  refine ⟨mbrValid_long, partCount_long, rfl, fun h => ?_⟩
  rw [view_long] at h
  have hentries := h.entries_eq
  have hcount : getField longBuffer 512 .numPartitionEntries = 57 :=
    (getField_long (by decide)).trans partCount_long
  have hsize : getField longBuffer 512 .sizeofPartitionEntry = 128 := getField_long (by decide)
  have hentry : getField longBuffer 512 .partitionEntryLba = 2 := getField_long (by decide)
  rw [backupEntries_long, getField_longDevice, getField_longDevice, getField_longDevice, hcount,
    hsize, hentry] at hentries
  have hbyte := agree_of_read hentries 7168 (by decide)
  have hfirst : longDevice 8192 = 0 := hbyte.symm.trans last_entry_long.2
  rw [last_entry_long.1] at hfirst
  exact absurd hfirst (by decide)

end Brandy.Gpt
