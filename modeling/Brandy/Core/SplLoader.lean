import Brandy.Library.Memory
import Brandy.Library.Ram
import Brandy.Library.Word

/-!
# The Loaders of the Secondary Program Loader

How `nboot` gets the boot package from a medium into memory: the loaders for SD/eMMC
(`load_image_sdmmc.c`), SPI NOR (`load_image_spinor.c`) and SPI NAND (`load_image_nand.c`, with
`Spinand_Load_Boot1_Copy` from `spinand.c`), and `load_uboot_partition`.

The memory has 32-bit addresses that wrap. A `World` says for each read of the medium, by its
number, whether it fails and what it leaves in memory then, and answers everything else.
`Spinand_Load_Boot1_Copy` skips bad blocks without a bound, so it has a fuel, and no result when
that does not suffice. The loaders are built without `CFG_SUNXI_USE_NEON`.

## Main definitions

* `World`, `St`: The medium and the board, and the memory.
* `verifyAddsum`, `sunxiVerifyChecksum`: The checks of a package.
* `loadToc1FromSdmmc`, `loadToc1FromSpinor`, `loadToc1FromSpinand`, `loadUbootPartition`: The
  loaders.
-/

namespace Brandy.SplLoader

open Memory (leValue leBytes)
open Word

/-- The partitions that the loaders look up. `bootPartation` is the one that the environment
    names. -/
inductive PartName where
  | uboot | ubootBak | ubootDtb | bootA | bootPartation
  deriving DecidableEq, Repr

/-- The media, and how every operation ends. `readFault` and `nandFault` have what a failed read
    leaves in memory, by its number and place. `oob` is the first spare byte of a block, if it can
    be read. The blocks searched for a copy lie below 4 GiB. -/
structure World where
  bootpkgBase : BitVec 32
  medium : Nat → UInt8
  readFault : Nat → Nat → Nat → Option (List UInt8)
  mmcInit : Int
  toc1Start : Nat
  toc1BakStart : Nat
  initGpt : Int
  fwEnvOpen : Int
  envIsNull : Bool
  partInfo : PartName → Option (Nat × Nat)
  fdtCheckHeader : Ram 32 → BitVec 32 → Int
  spinorInit : Int
  spinorGptArd : Nat
  flashInited : Bool
  phyInit : Int
  sctsPerPage : Nat
  sctsPerPage_pos : 0 < sctsPerPage
  pagesPerBlock : Nat
  pagesPerBlock_pos : 0 < pagesPerBlock
  ubootStartBlk : Nat
  ubootLastBlk : Nat
  ubootLastBlk_lt : ubootLastBlk * (pagesPerBlock * sctsPerPage * 512) < 2 ^ 32
  oob : Nat → Nat → Option UInt8
  nand : Nat → Nat → Nat → UInt8
  nandFault : Nat → Nat → Nat → Option (List UInt8)

/-- `SPN_PAGE_SIZE`. -/
def World.pageSize (w : World) : Nat := w.sctsPerPage * 512

/-- `SPN_BLOCK_SIZE`. -/
def World.blockSize (w : World) : Nat := w.pagesPerBlock * w.sctsPerPage * 512

/-- The memory, the number of reads so far and the images whose checksum was right, by address and
    length, which the code does not look at. -/
structure St where
  ram : Ram 32
  reads : Nat
  accepted : List (BitVec 32 × Nat)

def stampValue : Nat := 0x5F0A6C39

/-- The `u32` at an address. -/
def word (ram : Ram 32) (a : BitVec 32) : Nat := leValue (ram.read a 4)

/-- Four words. -/
def quad (ram : Ram 32) (buf : BitVec 32) : Nat :=
  word ram buf + word ram (buf + 4) + word ram (buf + 8) + word ram (buf + 12)

/-- The loop over four words at a time of `verify_addsum`, with `count`, `buf` and `sum`. The count
    is unsigned: below 4 it wraps, and the loop goes on for `2 ^ 30` turns. -/
def addQuads (ram : Ram 32) : Nat → Nat → BitVec 32 → Nat → Nat × BitVec 32 × Nat
  | 0, count, buf, sum => (count, buf, sum)
  | n + 1, count, buf, sum =>
    let sum := (sum + quad ram buf) % 2 ^ 32
    let count := u32 ((count : Int) - 4)
    if 4 - 1 < count then addQuads ram n count (buf + 16) sum else (count, buf + 16, sum)

/-- The loop over the words that are left. -/
def addRest (ram : Ram 32) : Nat → BitVec 32 → Nat → Nat
  | 0, _, sum => sum
  | count + 1, buf, sum => addRest ram count (buf + 4) ((sum + word ram buf) % 2 ^ 32)

/-- `verify_addsum`. The sum is taken with the stamp in its own place, and what was there is put
    back. -/
def verifyAddsum (ram : Ram 32) (memBase : BitVec 32) (size : Nat) : Int :=
  let srcSum := word ram (memBase + 20)
  let stamped := ram.write (memBase + 20) (leBytes 4 stampValue)
  let (count, buf, sum) := addQuads stamped (2 ^ 30 + 1) (size / 4) memBase 0
  if addRest stamped count buf sum = srcSum then 0 else -1

/-- The loop over four words at a time of `sunxi_generate_checksum`, whose count is an `int`. -/
def sumQuads (ram : Ram 32) : Nat → Int → BitVec 32 → Nat → Int × BitVec 32 × Nat
  | 0, count, buf, sum => (count, buf, sum)
  | n + 1, count, buf, sum =>
    let sum := (sum + quad ram buf) % 2 ^ 32
    let count := count - 4
    if 4 - 1 < count then sumQuads ram n count (buf + 16) sum else (count, buf + 16, sum)

def sunxiVerifyChecksum (ram : Ram 32) (buffer : BitVec 32) (length srcSum : Nat) : Int :=
  let (count, buf, sum) := sumQuads ram (length / 4 + 1) (length / 4 : Nat) buffer 0
  let sum := addRest ram count.toNat buf sum
  if u32 ((sum : Int) - srcSum + stampValue) = srcSum then 0 else -1

/-- The loop over vectors of four words of `verify_addsum` with `CFG_SUNXI_USE_NEON`, with a sum for
    each lane. -/
def addVectors (ram : Ram 32) : Nat → BitVec 32 → Nat × Nat × Nat × Nat →
    Nat × BitVec 32 × Nat × Nat × Nat × Nat
  | count + 4, buf, (a, b, c, d) =>
    addVectors ram count (buf + 16)
      ((a + word ram buf) % 2 ^ 32, (b + word ram (buf + 4)) % 2 ^ 32,
        (c + word ram (buf + 8)) % 2 ^ 32, (d + word ram (buf + 12)) % 2 ^ 32)
  | count, buf, lanes => (count, buf, lanes)

/-- `neon_sum` behind the first loop. -/
def laneSum : Nat × Nat × Nat × Nat → Nat
  | (a, b, c, d) => (a + b + c + d) % 2 ^ 32

/-- `verify_addsum` with `CFG_SUNXI_USE_NEON`. -/
def verifyAddsumNeon (ram : Ram 32) (memBase : BitVec 32) (size : Nat) : Int :=
  let srcSum := word ram (memBase + 20)
  let stamped := ram.write (memBase + 20) (leBytes 4 stampValue)
  let (count, buf, lanes) := addVectors stamped (size / 4) memBase (0, 0, 0, 0)
  if addRest stamped count buf (laneSum lanes) = srcSum then 0 else -1

def verifyAddsumForKernel (ram : Ram 32) (memBase : BitVec 32) (size srcSum : Nat) : Int :=
  let (count, buf, sum) := addQuads ram (2 ^ 30 + 1) (size / 4) memBase 0
  if addRest ram count buf sum = srcSum then 0 else -1

/-- The memory after `verify_addsum`, in both builds. -/
def restored (ram : Ram 32) (memBase : BitVec 32) : Ram 32 :=
  (ram.write (memBase + 20) (leBytes 4 stampValue)).write (memBase + 20)
    (leBytes 4 (word ram (memBase + 20)))

def tocMainInfoMagic : Nat := 0x89119800

section

variable (w : World)

/-- `toc1_head->magic` in the load buffer. -/
def magic (ram : Ram 32) : Nat := word ram (w.bootpkgBase + 16)

/-- `toc1_head->valid_len` in the load buffer. -/
def validLen (ram : Ram 32) : Nat := word ram (w.bootpkgBase + 36)

/-- The content of `n` sectors. -/
def sectorBytes (start n : Nat) : List UInt8 :=
  (List.range (n * 512)).map fun i => w.medium (start * 512 + i)

/-- A read of sectors: whether it succeeds, and the memory. -/
def readSectors (start n : Nat) (dst : BitVec 32) (s : St) : Bool × St :=
  match w.readFault s.reads start n with
  | none =>
    (true, { s with reads := s.reads + 1, ram := s.ram.write dst (sectorBytes w start n) })
  | some junk =>
    (false, { s with reads := s.reads + 1, ram := s.ram.write dst (junk.take (n * 512)) })

/-- `mmc_bread`, which refuses to read nothing. -/
def mmcBread (start n : Nat) (dst : BitVec 32) (s : St) : Bool × St :=
  if n = 0 then (false, s) else readSectors w start n dst s

/-- How one turn of the loop over the copies ends. -/
inductive Attempt where
  | readError | bad | good
  deriving DecidableEq, Repr

/-- One turn of the loop: the first 64 sectors, the rest if there is more, and the checksum. -/
def loadCopy (start : Nat) (s : St) : Attempt × St :=
  let head := mmcBread w start 64 w.bootpkgBase s
  if head.1 = false then (.readError, head.2)
  else if magic w head.2.ram ≠ tocMainInfoMagic then (.bad, head.2)
  else
    let totalSize := validLen w head.2.ram
    let whole :=
      if 64 * 512 < totalSize then
        mmcBread w ((start + 64) % 2 ^ 32) ((totalSize - 64 * 512 + 511) / 512)
          (w.bootpkgBase + 64 * 512) head.2
      else (true, head.2)
    if whole.1 = false then (.readError, whole.2)
    else if verifyAddsum whole.2.ram w.bootpkgBase totalSize ≠ 0 then (.bad, whole.2)
    else (.good, whole.2)

/-- The loop over the start sectors. A sector of 0 and a read that fails end it with an error; when
    it runs out of sectors, the message of success follows. -/
def loadCopies : List Nat → St → Int × St
  | [], s => (0, s)
  | start :: starts, s =>
    if start = 0 then (-1, s)
    else
      match loadCopy w start s with
      | (.readError, s) => (-1, s)
      | (.bad, s) => loadCopies starts s
      | (.good, s) => (0, s)

/-- `load_toc1_from_sdmmc`. Of the four start sectors two are set. -/
def loadToc1FromSdmmc (s : St) : Int × St :=
  if w.mmcInit ≠ 0 then (-1, s) else loadCopies w [w.toc1Start, w.toc1BakStart, 0, 0] s

/-- `load_toc1_ota_from_sdmmc`: four times the partition that the environment names. -/
def loadToc1OtaFromSdmmc (s : St) : Int × St :=
  if w.mmcInit ≠ 0 then (-1, s)
  else if w.fwEnvOpen = -1 then (-1, s)
  else
    let startSector := ((w.partInfo .bootPartation).map Prod.fst).getD 0
    loadCopies w (List.replicate 4 startSector) s

/-- What both loaders do with a start sector: the head, and the package over it. -/
def loadFromSpinor (startSector : Nat) (s : St) : Int × St :=
  let head := readSectors w startSector 1 w.bootpkgBase s
  if head.1 = false then (-1, head.2)
  else if magic w head.2.ram ≠ tocMainInfoMagic then (-1, head.2)
  else
    let whole := readSectors w startSector (validLen w head.2.ram / 512) w.bootpkgBase head.2
    if whole.1 = false then (-1, whole.2) else (0, whole.2)

def loadToc1FromSpinor (s : St) : Int × St :=
  if w.flashInited = false ∧ w.spinorInit ≠ 0 then (-1, s) else loadFromSpinor w w.toc1Start s

/-- The start sector of `load_toc1_ota_from_spinor`. -/
def otaStartSector : Nat :=
  if w.fwEnvOpen ≠ 0 then
    (((w.partInfo .bootA).map Prod.fst).getD 0 + w.spinorGptArd) % 2 ^ 32
  else if w.envIsNull then 96
  else (((w.partInfo .bootPartation).map Prod.fst).getD 0 + w.spinorGptArd) % 2 ^ 32

def loadToc1OtaFromSpinor (s : St) : Int × St :=
  if w.flashInited = false ∧ w.spinorInit ≠ 0 then (-1, s)
  else if w.initGpt ≠ 0 then (-1, s)
  else loadFromSpinor w (otaStartSector w) s

/-- `SpiNand_Check_BadBlock` returns `SPINAND_BAD_BLOCK`. A block with unreadable spare bytes is not
    taken for bad. -/
def checkBadBlock (block : Nat) (s : St) : Bool × St :=
  (match w.oob s.reads block with
    | some b => b != 0xff
    | none => false,
   { s with reads := s.reads + 1 })

/-- `read_single_page` into memory. -/
def readSinglePage (block page dataSize : Nat) (dst : BitVec 32) (s : St) : Bool × St :=
  match w.nandFault s.reads block page with
  | none =>
    (true, { s with
      reads := s.reads + 1
      ram := s.ram.write dst ((List.range dataSize).map (w.nand block page)) })
  | some junk =>
    (false, { s with reads := s.reads + 1, ram := s.ram.write dst (junk.take dataSize) })

/-- The loop over the pages of `SpiNand_Read`, with `total` bytes in all from page `i` on. -/
def readPages (block startPage total : Nat) (buffer : BitVec 32) : Nat → Nat → St → Bool × St
  | 0, _, s => (true, s)
  | pages + 1, i, s =>
    let dataSize := min w.pageSize (total - w.pageSize * i)
    let page := readSinglePage w block (startPage + i) dataSize
      (buffer + BitVec.ofNat 32 (w.pageSize * i)) s
    if page.1 = false then (false, page.2)
    else readPages block startPage total buffer pages (i + 1) page.2

/-- `SpiNand_Read` of `n` sectors. -/
def spiNandRead (sectorNum : Nat) (buffer : BitVec 32) (n : Nat) (s : St) : Bool × St :=
  let sctsPerBlock := w.blockSize / 512
  readPages w (sectorNum / sctsPerBlock) (sectorNum % sctsPerBlock / w.sctsPerPage) (n * 512)
    buffer ((n + w.sctsPerPage - 1) / w.sctsPerPage) 0 s

/-- `Spinand_Load_Boot1_Copy` from block `blk` on, with `off` of `size` bytes loaded. -/
def loadBoot1Copy (size : Nat) : Nat → Nat → Nat → St → Option (Bool × St)
  | 0, _, _, _ => none
  | fuel + 1, blk, off, s =>
    if off < size then
      let check := checkBadBlock w blk s
      if check.1 then loadBoot1Copy size fuel ((blk + 1) % 2 ^ 32) off check.2
      else
        let sizeLoaded := min (size - off) w.blockSize
        let block := spiNandRead w (blk * w.blockSize % 2 ^ 32 / 512)
          (w.bootpkgBase + BitVec.ofNat 32 off) (sizeLoaded / 512) check.2
        if block.1 = false then some (false, block.2)
        else loadBoot1Copy size fuel ((blk + 1) % 2 ^ 32) (off + sizeLoaded) block.2
    else some (true, s)

def alignSize : Nat := 4 * 1024

/-- One turn of the loop over the blocks: whether a good copy starts at this one. -/
def tryBlock (fuel i : Nat) (s : St) : Option (Bool × St) :=
  let check := checkBadBlock w i s
  if check.1 then some (false, check.2)
  else
    let head := spiNandRead w (i * (w.blockSize / 512) % 2 ^ 32) w.bootpkgBase 1 check.2
    if head.1 = false then some (false, head.2)
    else if magic w head.2.ram ≠ tocMainInfoMagic then some (false, head.2)
    else
      let length := validLen w head.2.ram
      if length % alignSize ≠ 0 then some (false, head.2)
      else
        match loadBoot1Copy w length fuel i 0 head.2 with
        | none => none
        | some (false, s) => some (false, s)
        | some (true, s) => some (verifyAddsum s.ram w.bootpkgBase length == 0, s)

/-- The loop over the blocks: the block of the copy, with the state it was found in, and the state
    at the end. -/
def findCopy (fuel : Nat) : List Nat → St → Option (Option (Nat × St) × St)
  | [], s => some (none, s)
  | i :: is, s =>
    match tryBlock w fuel i s with
    | none => none
    | some (true, s') => some (some (i, s), s')
    | some (false, s') => findCopy fuel is s'

/-- The blocks that are searched. -/
def searchedBlocks : List Nat :=
  List.range' w.ubootStartBlk (w.ubootLastBlk + 1 - w.ubootStartBlk)

def loadToc1FromSpinand (fuel : Nat) (s : St) : Option (Int × St) :=
  if w.phyInit ≠ 0 then some (-1, s)
  else
    match findCopy w fuel (searchedBlocks w) s with
    | none => none
    | some (some _, s) => some (0, s)
    | some (none, s) => some (-1, s)

/-- `uboot_head->check_sum` in the load buffer. -/
def headCheckSum (ram : Ram 32) : Nat := word ram (w.bootpkgBase + 12)

/-- `uboot_head->length` in the load buffer. -/
def headLength (ram : Ram 32) : Nat := word ram (w.bootpkgBase + 20)

/-- `uboot_head->reserved` in the load buffer, the address to run at. -/
def headRunAddr (ram : Ram 32) : BitVec 32 := BitVec.ofNat 32 (word ram (w.bootpkgBase + 44))

/-- The loop over the two partitions from index `i` on: the address of the image, if the loop is
    left the ordinary way, and the state. -/
def loadUbootCopies : List Nat → Nat → BitVec 32 → St → Option (BitVec 32) × St
  | [], _, runAddr, s => (some runAddr, s)
  | start :: starts, i, _, s =>
    if start = 0 then (none, s)
    else
      let head := mmcBread w start 64 w.bootpkgBase s
      if head.1 = false then (none, head.2)
      else
        let totalSize := headLength w head.2.ram
        let runAddr := headRunAddr w head.2.ram
        if totalSize = 0 then loadUbootCopies starts (i + 1) runAddr head.2
        else
          let image := mmcBread w start (totalSize / 512) runAddr head.2
          if image.1 = false then (none, image.2)
          else if sunxiVerifyChecksum image.2.ram runAddr totalSize (headCheckSum w image.2.ram) < 0
          then if i = 1 then (none, image.2) else loadUbootCopies starts (i + 1) runAddr image.2
          else (some runAddr, { image.2 with accepted := (runAddr, totalSize) :: image.2.accepted })

/-- The device tree behind the image. The test for a start sector looks at the variable of the loop,
    which is not 0 here. -/
def loadUbootDtb (runAddr : BitVec 32) (s : St) : Bool × St :=
  let dtbAddr := runAddr + 2 * 1024 * 1024
  let found := (w.partInfo .ubootDtb).getD
    (((w.partInfo .uboot).map Prod.fst).getD 0,
      ((w.partInfo .ubootBak).orElse fun _ => w.partInfo .uboot).elim 0 Prod.snd)
  let dtb := mmcBread w found.1 found.2 dtbAddr s
  if dtb.1 = false then (false, dtb.2)
  else (w.fdtCheckHeader dtb.2.ram dtbAddr == 0, dtb.2)

/-- `load_uboot_partition`: the result, `*uboot_base` if it is set, and the state. -/
def loadUbootPartition (s : St) : Int × Option (BitVec 32) × St :=
  if w.mmcInit ≠ 0 then (-1, none, s)
  else if w.initGpt ≠ 0 then (-1, none, s)
  else
    let start := fun name => ((w.partInfo name).map Prod.fst).getD 0
    match loadUbootCopies w [start .uboot, start .ubootBak] 0 0 s with
    | (none, s) => (-1, none, s)
    | (some runAddr, s) =>
      let dtb := loadUbootDtb w runAddr s
      if dtb.1 then (0, some runAddr, dtb.2) else (-1, none, dtb.2)

end

end Brandy.SplLoader
