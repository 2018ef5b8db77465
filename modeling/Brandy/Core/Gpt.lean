import Brandy.Library.Fields
import Brandy.Library.Word

/-!
# The Partition Tables

The conversions between the two partition tables of a device, from `sprite/sprite_download.c`: the
table of an image (`sunxi_mbr_t`, 16 KiB with room for 120 partitions) and the GPT on the flash,
with a primary copy at the start of the device and a backup copy at its end.

A table is a range of a memory that starts at address 0. The work buffer of the callers is 8 KiB,
and the memory behind it is part of the model, as the converters do not know where it ends. In the
flash sector `s` is at `512 * s`, and every write succeeds.

The build is the one without `CONFIG_SUNXI_UFS`. A name of the image's table that is not terminated
within 36 bytes would run over the end of its GPT entry and is cut there.

## Main definitions

* `sunxiMbrConvertToGpt`, `gptConvertToSunxiMbr`: The two conversions.
* `downloadStandardGpt`, `sunxiUpdateGpt`: The table is written, and rewritten later.
-/

namespace Brandy.Gpt

open Memory Word

/-- The storages, `STORAGE_NAND` to `STORAGE_UFS`. -/
inductive StorageType where
  | nand | sd | emmc | nor | emmc3 | spiNand | sd1 | emmc0 | ufs
  deriving DecidableEq, Repr

/-- The configuration, and what the code asks the board. `sdmmcOffset` and `norOffset` (with
    `CONFIG_SUNXI_SPINOR`) are the offsets of `sunxi_flashmap_logical_offset`. `logicalBase` is what
    a driver adds to a logical sector, and `crc32` the checksum with start value 0. -/
structure Board where
  crc32 : List UInt8 → Nat
  crc32_lt : ∀ bs, crc32 bs < 2 ^ 32
  lastPartitionName : List UInt8
  lastPartitionName_length : lastPartitionName.length ≤ 15
  lastPartitionName_ne : ∀ c ∈ lastPartitionName, c ≠ 0
  sdmmcOffset : Nat
  norOffset : Option Nat
  spriteSize : Nat
  flashSize : Nat
  configUbifs : Bool
  storageTypeExt : StorageType
  nandUseUbi : Bool
  workModeBoot : Bool
  logicalBase : StorageType → Nat

/-- The volumes of the device are those of UBI, so that there is no GPT on it. -/
def Board.ubi (b : Board) : Bool :=
  b.configUbifs && (b.storageTypeExt == .spiNand || b.storageTypeExt == .nand) && b.nandUseUbi

/-- `"UDISK"`. -/
def udisk : List UInt8 := [0x55, 0x44, 0x49, 0x53, 0x4b]

/-- `SUNXI_MBR_MAGIC`, `"softw411"`. -/
def sunxiMbrMagic : List UInt8 := [0x73, 0x6f, 0x66, 0x74, 0x77, 0x34, 0x31, 0x31]

def sunxiMbrSize : Nat := 16 * 1024

def sunxiMbrMaxPartCount : Nat := 120

/-- `GPT_BUFF_SIZE`, the work buffer of the callers. -/
def gptBuffSize : Nat := 8 * 1024

def gptHeaderSignature : Nat := 0x5452415020494645

/-- The members of `gpt_header` that the code uses. -/
inductive HeaderField where
  | signature | revision | headerSize | headerCrc32 | reserved1 | myLba | alternateLba
  | firstUsableLba | lastUsableLba | partitionEntryLba | numPartitionEntries
  | sizeofPartitionEntry | partitionEntryArrayCrc32
  deriving DecidableEq, Repr

/-- The offset of a member in the header. -/
def HeaderField.offset : HeaderField → Nat
  | .signature => 0
  | .revision => 8
  | .headerSize => 12
  | .headerCrc32 => 16
  | .reserved1 => 20
  | .myLba => 24
  | .alternateLba => 32
  | .firstUsableLba => 40
  | .lastUsableLba => 48
  | .partitionEntryLba => 72
  | .numPartitionEntries => 80
  | .sizeofPartitionEntry => 84
  | .partitionEntryArrayCrc32 => 88

/-- The size of a member. -/
def HeaderField.width : HeaderField → Nat
  | .signature | .myLba | .alternateLba | .firstUsableLba | .lastUsableLba
  | .partitionEntryLba => 8
  | _ => 4

/-- A member of the header at an address. -/
def getField (m : Mem) (head : Int) (f : HeaderField) : Nat := le m (head + f.offset) f.width

/-- An assignment to a member of the header at an address. -/
def setField (m : Mem) (head : Int) (f : HeaderField) (v : Nat) : Mem :=
  setLe m (head + f.offset) f.width v

/-- `sizeof(gpt_header)`. -/
def sizeofGptHeader : Nat := 92

def gptHeadOffset : Int := 512

def gptEntryOffset : Int := 1024

def gptEntrySize : Nat := 128

/-- The address of entry `i` in a buffer. -/
def entryAt (i : Nat) : Int := gptEntryOffset + gptEntrySize * i

/-- `starting_lba` of entry `i`. -/
def startingLba (buf : Mem) (i : Nat) : Nat := le buf (entryAt i + 32) 8

/-- `ending_lba` of entry `i`. -/
def endingLba (buf : Mem) (i : Nat) : Nat := le buf (entryAt i + 40) 8

/-- `attributes.raw` of entry `i`. -/
def attributes (buf : Mem) (i : Nat) : Nat := le buf (entryAt i + 48) 8

/-- `partition_name[j]` of entry `i`. -/
def partitionName (buf : Mem) (i j : Nat) : Nat := le buf (entryAt i + 56 + 2 * j) 2

def partCount (mbr : Mem) : Nat := le mbr 24 4

/-- The address of `array[i]`. -/
def arrayAt (i : Nat) : Int := 32 + 128 * i

/-- `array[i].addrhi`. -/
def addrhi (mbr : Mem) (i : Nat) : Nat := le mbr (arrayAt i) 4

/-- `array[i].addrlo`. -/
def addrlo (mbr : Mem) (i : Nat) : Nat := le mbr (arrayAt i + 4) 4

/-- `array[i].lenhi`. -/
def lenhi (mbr : Mem) (i : Nat) : Nat := le mbr (arrayAt i + 8) 4

/-- `array[i].lenlo`. -/
def lenlo (mbr : Mem) (i : Nat) : Nat := le mbr (arrayAt i + 12) 4

/-- `array[i].name` as a C string of at most `n` bytes. -/
def nameString (mbr : Mem) (i n : Nat) : List UInt8 :=
  (read mbr (arrayAt i + 32) n).takeWhile (· != 0)

/-- `array[i].keydata`. -/
def keydata (mbr : Mem) (i : Nat) : Nat := le mbr (arrayAt i + 52) 4

/-- `array[i].ro`. -/
def ro (mbr : Mem) (i : Nat) : Nat := le mbr (arrayAt i + 56) 4

/-- `strncmp(name, "UDISK", sizeof("UDISK"))` is 0. -/
def isUdisk (mbr : Mem) (i : Nat) : Bool := read mbr (arrayAt i + 32) 6 == udisk ++ [0]

section

variable (b : Board) (storageType : StorageType)

/-- The table has the magic and its checksum. -/
def mbrValid (mbr : Mem) : Bool :=
  read mbr 8 8 == sunxiMbrMagic && b.crc32 (read mbr 4 (sunxiMbrSize - 4)) == le mbr 0 4

/-- `compare_image_and_flash_size`: the loop over the partitions, the last match wins. -/
def logicSize (mbr : Mem) : Nat → Nat
  | 0 => 0
  | i + 1 =>
    if nameString mbr i 16 = udisk ∨ nameString mbr i 16 = b.lastPartitionName then addrlo mbr i
    else logicSize mbr i

def compareImageAndFlashSize (mbr : Mem) : Int :=
  if u32 b.flashSize = 0 then 0
  else if logicSize b mbr (partCount mbr) < u32 b.flashSize then 0
  else -1

/-- `sunxi_get_logical_offset_param`, the offset. -/
def logicOffset : Nat :=
  match storageType with
  | .emmc | .emmc3 | .sd | .emmc0 | .ufs => u32 b.sdmmcOffset
  | _ => 0

/-- `sunxi_get_logical_offset_param`, the size of the device. It is an int. -/
def totalSectors : Int :=
  match storageType, b.norOffset with
  | .nor, some offset => s32 (s32 b.spriteSize - offset)
  | _, _ => s32 b.spriteSize

/-- The legacy MBR in front of the GPT, of type 0xee. -/
def remainMbr : List UInt8 :=
  List.replicate 446 0 ++
    [0, 0, 0x02, 0, 0xee, 0xff, 0xff, 0xff, 1, 0, 0, 0, 0xff, 0xff, 0xff, 0xff] ++
    List.replicate 48 0 ++ [0x55, 0xaa]

/-- The GUID of the device. -/
def guid : List UInt8 :=
  [0x88, 0x38, 0x6f, 0xab, 0x9a, 0x56, 0x26, 0x49, 0x96, 0x68, 0x80, 0x94, 0x1d, 0xcb, 0x40, 0xbc]

/-- `PARTITION_BASIC_DATA_GUID`. -/
def basicDataGuid : List UInt8 :=
  [0xa2, 0xa0, 0xd0, 0xeb, 0xe5, 0xb9, 0x33, 0x44, 0x87, 0xc0, 0x68, 0xb6, 0xb7, 0x26, 0x99, 0xc7]

/-- The GUID of partition `i`. -/
def partGuid (i : Nat) : List UInt8 :=
  [0x46, 0x55, 0x08, 0xa0, 0x66, 0x41, 0x4a, 0x74, 0xa3, 0x53, 0xfc, 0xa9, 0x27, 0x2b, 0x8e,
    0x45 + UInt8.ofNat i]

/-- `last_usable_lba`. On NOR there is no backup copy to leave room for. -/
def lastUsable : Nat :=
  if storageType = .nor then u64 (s32 (totalSectors b storageType - 1))
  else u64 (s32 (totalSectors b storageType - (1 + 32) - 1))

/-- The header, before the entries are known. -/
def fillHeader (mbr buf : Mem) : Mem :=
  let buf := setField buf gptHeadOffset .signature gptHeaderSignature
  let buf := setField buf gptHeadOffset .revision 0x00010000
  let buf := setField buf gptHeadOffset .headerSize sizeofGptHeader
  let buf := setField buf gptHeadOffset .headerCrc32 0
  let buf := setField buf gptHeadOffset .reserved1 0
  let buf := setField buf gptHeadOffset .myLba 1
  let buf := setField buf gptHeadOffset .alternateLba (u64 (s32 (totalSectors b storageType - 1)))
  let buf := setField buf gptHeadOffset .firstUsableLba
    (u32 (addrlo mbr 0 + logicOffset b storageType))
  let buf := setField buf gptHeadOffset .lastUsableLba (lastUsable b storageType)
  let buf := store buf (gptHeadOffset + 56) guid
  let buf := setField buf gptHeadOffset .partitionEntryLba 2
  let buf := setField buf gptHeadOffset .numPartitionEntries (partCount mbr)
  let buf := setField buf gptHeadOffset .sizeofPartitionEntry gptEntrySize
  setField buf gptHeadOffset .partitionEntryArrayCrc32 0

/-- The first sector of partition `i`. -/
def entryStart (mbr : Mem) (i : Nat) : Nat :=
  u64 (addrhi mbr i * 2 ^ 32 + addrlo mbr i + logicOffset b storageType)

/-- The last sector of partition `i`. The last one takes what is left of the device, except that a
    UBI volume keeps its length. -/
def entryEnd (mbr : Mem) (i : Nat) : Nat :=
  if i + 1 = partCount mbr then
    if b.ubi then u64 (entryStart b storageType mbr i + lenlo mbr i - 1)
    else lastUsable b storageType
  else u64 (entryStart b storageType mbr i + lenhi mbr i * 2 ^ 32 + lenlo mbr i - 1)

/-- The attributes of partition `i`: `type_guid_specific` from bit 48, `keydata` in bit 47 and `ro`
    in bit 46. -/
def entryAttributes (mbr : Mem) (i : Nat) : Nat :=
  (if ro mbr i = 1 then 0x6000 * 2 ^ 48 + 2 ^ 46 else 0x8000 * 2 ^ 48) +
    if keydata mbr i = 0x8000 then 2 ^ 47 else 0

/-- A name in 16-bit characters, filled up with zeros. -/
def wideName (name : List UInt8) : List UInt8 :=
  let wide := name.flatMap fun c => [c, 0]
  wide ++ List.replicate (72 - wide.length) 0

/-- The name of partition `i`. -/
def entryName (mbr : Mem) (i : Nat) : List UInt8 :=
  if isUdisk mbr i then b.lastPartitionName else nameString mbr i 36

/-- The entry of partition `i`. -/
def entryBytes (mbr : Mem) (i : Nat) : List UInt8 :=
  basicDataGuid ++ partGuid i ++ leBytes 8 (entryStart b storageType mbr i) ++
    leBytes 8 (entryEnd b storageType mbr i) ++ leBytes 8 (entryAttributes mbr i) ++
    wideName (entryName b mbr i)

/-- The loop over the first `n` partitions. -/
def fillEntries (mbr buf : Mem) : Nat → Mem
  | 0 => buf
  | i + 1 =>
    let buf := store (fillEntries mbr buf i) (entryAt i) (entryBytes b storageType mbr i)
    if isUdisk mbr i then setField buf gptHeadOffset .reserved1 1 else buf

/-- The checksum of the entries, then that of the header. `size` is the number of bytes of the
    header that count. -/
def sealHeader (buf : Mem) (size : Nat) : Mem :=
  let buf := setField buf gptHeadOffset .partitionEntryArrayCrc32 <| b.crc32 <|
    read buf gptEntryOffset <|
      u32 (getField buf gptHeadOffset .numPartitionEntries *
        getField buf gptHeadOffset .sizeofPartitionEntry)
  setField buf gptHeadOffset .headerCrc32 (b.crc32 (read buf gptHeadOffset size))

/-- `sunxi_mbr_convert_to_gpt`: the length of the data, or 0, and the buffer. -/
def sunxiMbrConvertToGpt (mbr buf : Mem) : Nat × Mem :=
  if mbrValid b mbr then
    let buf := fillHeader b storageType mbr (store buf 0 remainMbr)
    let buf := fillEntries b storageType mbr buf (partCount mbr)
    (u32 (512 + 512 + partCount mbr * gptEntrySize), sealHeader b buf sizeofGptHeader)
  else (0, buf)

/-- A partition of the table that is built. -/
structure Partition where
  addrhi : Nat
  addrlo : Nat
  lenhi : Nat
  lenlo : Nat
  ro : Nat
  name : List UInt8
  deriving DecidableEq, Repr

/-- The table that is built. -/
structure Table where
  partCount : Nat
  array : List Partition
  deriving DecidableEq, Repr

/-- The loop that counts the entries in use, from entry `pos` on. A `long` has 32 bits. -/
def countUsed (buf : Mem) (pos : Nat) : Nat → Option Nat
  | 0 => none
  | fuel + 1 => if 0 < s32 (startingLba buf pos) then countUsed buf (pos + 1) fuel else some pos

/-- The name of entry `i`, up to 16 characters, each cut to a byte. -/
def narrowName (buf : Mem) (i : Nat) : List UInt8 :=
  (((List.range 16).map (partitionName buf i)).takeWhile (· != 0)).map UInt8.ofNat

/-- `ending_lba - starting_lba + 1` of entry `i`. -/
def entryLength (buf : Mem) (i : Nat) : Nat :=
  u64 ((endingLba buf i : Int) - startingLba buf i + 1)

/-- The partition for entry `i` of a table with `count` partitions, without its place. The table
    starts with zeros, so `ro` stays 0 for other attributes. -/
def tableEntry (buf : Mem) (count i : Nat) : Partition where
  addrhi := 0
  addrlo := 0
  lenhi := if i + 1 = count then 0 else entryLength buf i / 2 ^ 32
  lenlo := if i + 1 = count then 0 else entryLength buf i % 2 ^ 32
  ro := if attributes buf i / 2 ^ 48 = 0x6000 then 1 else 0
  name := narrowName buf i

/-- The second loop: every partition starts where the low half of the length of the one before it
    ends. -/
def placePartitions (start : Nat) : List Partition → List Partition
  | [] => []
  | p :: ps =>
    { p with addrhi := start / 2 ^ 32, addrlo := start % 2 ^ 32 } ::
      placePartitions (u64 (start + p.lenlo)) ps

/-- `gpt_convert_to_sunxi_mbr`. Nothing when the count of the entries does not come to an end within
    the fuel. -/
def gptConvertToSunxiMbr (buf : Mem) (fuel : Nat) : Option Table := do
  let used ← countUsed buf 0 fuel
  let count := used + 1
  let mbrSize := u32 ((startingLba buf 0 : Int) - logicOffset b storageType)
  some ⟨count, placePartitions mbrSize ((List.range count).map (tableEntry buf count))⟩

/-- A write to the flash at a sector of the device. -/
def sunxiSpritePhywrite (flash : Mem) (start : Nat) (bytes : List UInt8) : Mem :=
  store flash (512 * (u32 start : Int)) bytes

/-- A write to the flash at a logical sector. -/
def sunxiSpriteWrite (flash : Mem) (start : Nat) (bytes : List UInt8) : Mem :=
  store flash (512 * (u32 (u32 start + b.logicalBase storageType) : Int)) bytes

def prepareBackupGptHeader (buf : Mem) : Mem :=
  let val := getField buf gptHeadOffset .myLba
  let buf := setField buf gptHeadOffset .myLba (getField buf gptHeadOffset .alternateLba)
  let buf := setField buf gptHeadOffset .alternateLba val
  let buf := setField buf gptHeadOffset .partitionEntryLba
    (u64 (getField buf gptHeadOffset .lastUsableLba + 1))
  let buf := setField buf gptHeadOffset .headerCrc32 0
  setField buf gptHeadOffset .headerCrc32
    (b.crc32 (read buf gptHeadOffset (getField buf gptHeadOffset .headerSize)))

/-- The sectors of the entries in the backup copy. -/
def backupEntrySectors : Nat := (gptBuffSize - 1024) / 512

/-- The two writes of the backup copy. -/
def writeBackup (write : Mem → Nat → List UInt8 → Mem) (buf flash : Mem) : Mem :=
  let flash := write flash (u64 (getField buf gptHeadOffset .lastUsableLba + 1))
    (read buf gptEntryOffset (512 * backupEntrySectors))
  write flash (getField buf gptHeadOffset .myLba) (read buf gptHeadOffset 512)

/-- `memset(gpt_buf, 0x0, gpt_buf_len)`, with what lies behind the buffer. -/
def clearedBuffer (heap : Mem) : Mem := fun x => if 0 ≤ x ∧ x < gptBuffSize then 0 else heap x

/-- The storages with a physical copy of the GPT for the kernel, as the download sees them. -/
def downloadPhysical : Bool :=
  match storageType with
  | .emmc | .emmc3 | .emmc0 => true
  | _ => false

/-- The storages whose backup copy is written physically, as the download sees them. -/
def downloadBackupPhysical : Bool := downloadPhysical storageType || storageType == .ufs

/-- `download_standard_gpt`: the result, and the flash. -/
def downloadStandardGpt (mbr : Mem) (bufSize : Nat) (heap flash : Mem) : Int × Mem :=
  if b.ubi then (0, sunxiSpriteWrite b storageType flash 0 (read mbr 0 (512 * (bufSize / 512))))
  else
    let (dataLen, buf) := sunxiMbrConvertToGpt b storageType mbr (clearedBuffer heap)
    if dataLen = 0 then (-1, flash)
    else
      let primary := read buf 0 (512 * ((dataLen + 511) / 512))
      let flash := sunxiSpriteWrite b storageType flash 0 primary
      let flash :=
        if downloadPhysical storageType then sunxiSpritePhywrite flash 0 primary else flash
      let buf := prepareBackupGptHeader b buf
      if storageType = .nor then (0, flash)
      else if downloadBackupPhysical storageType then
        (0, writeBackup sunxiSpritePhywrite buf flash)
      else (0, writeBackup (sunxiSpriteWrite b storageType) buf flash)

/-- The storages whose GPT the update reads physically. -/
def updateReadPhysical : Bool :=
  match storageType with
  | .sd | .emmc | .emmc0 | .ufs => true
  | _ => false

/-- The storages with a physical copy of the GPT, as the update sees them. -/
def updatePhysical : Bool :=
  match storageType with
  | .sd | .emmc | .emmc3 | .emmc0 | .ufs => true
  | _ => false

/-- The buffer of the update: 16 sectors of the flash, and what lies behind the buffer. -/
def readBuffer (heap flash : Mem) : Mem := fun x =>
  if 0 ≤ x ∧ x < gptBuffSize then
    if updateReadPhysical storageType then flash x
    else window flash (512 * (u32 (b.logicalBase storageType) : Int)) x
  else heap x

/-- The name of entry `i` starts with `"UDISK"` and a zero, each character cut to a byte. -/
def entryIsUdisk (buf : Mem) (i : Nat) : Bool :=
  (List.range 6).map (fun j => UInt8.ofNat (partitionName buf i j)) == udisk ++ [0]

/-- The loop over the entries from `i` on: the first one named `"UDISK"` gets the new name, written
    over the old characters. -/
def renameUdisk (buf : Mem) (i : Nat) : Nat → Mem
  | 0 => buf
  | n + 1 =>
    if b.workModeBoot && entryIsUdisk buf i then
      let buf := store buf (entryAt i + 56) (b.lastPartitionName.flatMap fun c => [c, 0])
      setField buf gptHeadOffset .reserved1 1
    else renameUdisk buf (i + 1) n

/-- The header has the signature and a wrong checksum. -/
def headerBad (buf : Mem) : Bool :=
  getField buf gptHeadOffset .signature == gptHeaderSignature &&
    b.crc32 (read (setField buf gptHeadOffset .headerCrc32 0) gptHeadOffset sizeofGptHeader) !=
      getField buf gptHeadOffset .headerCrc32

/-- The buffer with the new name and new checksums. -/
def updatedBuffer (buf : Mem) : Mem :=
  let buf := renameUdisk b buf 0 (getField buf gptHeadOffset .numPartitionEntries)
  let buf := setField buf gptHeadOffset .partitionEntryArrayCrc32 0
  let buf := setField buf gptHeadOffset .partitionEntryArrayCrc32 <| b.crc32 <|
    read buf gptEntryOffset <|
      u32 (getField buf gptHeadOffset .numPartitionEntries *
        getField buf gptHeadOffset .sizeofPartitionEntry)
  let buf := setField buf gptHeadOffset .headerCrc32 0
  setField buf gptHeadOffset .headerCrc32
    (b.crc32 (read buf gptHeadOffset (getField buf gptHeadOffset .headerSize)))

/-- `GPT_UPDATE_BUF_SIZE`, of which the update makes the length of the primary copy. -/
def gptUpdateBufSize : Nat := gptBuffSize - 1024

/-- `sunxi_update_gpt`: the result, and the flash. -/
def sunxiUpdateGpt (heap flash : Mem) : Int × Mem :=
  if b.ubi then (0, flash)
  else
    let buf := readBuffer b storageType heap flash
    if getField buf gptHeadOffset .reserved1 = 1 then (0, flash)
    else if headerBad b buf then (-1, flash)
    else
      let buf := updatedBuffer b buf
      let primary := read buf 0 (512 * ((gptUpdateBufSize + 511) / 512))
      let flash := sunxiSpriteWrite b storageType flash 0 primary
      let flash :=
        if updatePhysical storageType then sunxiSpritePhywrite flash 0 primary else flash
      let buf := prepareBackupGptHeader b buf
      if storageType = .nor then (0, flash)
      else if updatePhysical storageType then (0, writeBackup sunxiSpritePhywrite buf flash)
      else (0, writeBackup (sunxiSpriteWrite b storageType) buf flash)

end

end Brandy.Gpt
