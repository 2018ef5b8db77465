import Brandy.Library.Crash
import Brandy.Library.Word

/-!
# Secure Storage on SPI-NAND

A model of `drivers/mtd/awnand/spinand/secure-storage.c`, with `aw_spinand_chip_copy_single_block`
from `physic/ops.c`. The items are stored page by page in a block, and the block is kept twice, in
the first two good blocks of the area. A write composes the new block in the second one and then
copies it back over the first.

A page is its data and the two fields of `struct sec_sto_oob` that anything depends on. Pages are
read without error, erasing and programming are atomic, and power may fail between any two of them.
A page is programmed only after its block was erased, so programming sets it.

## Main definitions

* `SecSto`: The blocks, and the numbers of the two in use.
* `initSecureStorage`: The blocks are found, checked and repaired.
* `awSpinandSecureStorageRead`, `awSpinandSecureStorageWrite`: An item is read or written.
-/

namespace Brandy.SpinandSec

open Word Crash

def secStoMagic : Nat := 0x5CAA

/-- A page: its data and the `magic` and `checksum` fields of its OOB. -/
@[ext] structure Page where
  data : List UInt8
  magic : Nat
  checksum : Nat

/-- The geometry: `phy_page_size` and the pages of a block. The bounds hold for every chip of the
    driver's table, which have 64 pages of 2 or 4 KiB. -/
structure Info where
  pageSize : Nat
  pageCnt : Nat
  pageSize_pos : 0 < pageSize
  pageSize_le : pageSize ≤ 2 ^ 16
  pageCnt_ge : 3 * ((4096 + pageSize - 1) / pageSize) ≤ pageCnt

/-- A page of an erased block. -/
def Info.erased (info : Info) : Page where
  data := List.replicate info.pageSize 0xff
  magic := 0xffff
  checksum := 0xffffffff

/-- The pages of all blocks, the bad blocks, and the fields of `struct aw_spinand_sec_sto`. -/
structure SecSto where
  page : Nat → Nat → Page
  isBad : Nat → Bool
  startblk : Nat
  endblk : Nat
  blk0 : Nat
  blk1 : Nat
  initEnd : Bool

/-- One page replaced. -/
def SecSto.setPage (s : SecSto) (block page : Nat) (content : Page) : SecSto :=
  { s with page := fun b p => if b = block ∧ p = page then content else s.page b p }

/-- One block erased. -/
def SecSto.eraseBlock (info : Info) (s : SecSto) (block : Nat) : SecSto :=
  { s with page := fun b p => if b = block then info.erased else s.page b p }

def phyEraseBlock (info : Info) (block : Nat) : Run SecSto Unit :=
  atomic (fun s => s.eraseBlock info block)

def phyWritePage (block page : Nat) (content : Page) : Run SecSto Unit :=
  atomic (fun s => s.setPage block page content)

def isSecureStorageBlock (s : SecSto) (blk page : Nat) : Bool :=
  (s.page blk page).magic = secStoMagic

/-- The search of `get_blocks_for_secure_storage`: the first `need` good blocks among `count`
    blocks. -/
def goodBlocks (isBad : Nat → Bool) : Nat → Nat → Nat → List Nat
  | 0, _, _ => []
  | _ + 1, _, 0 => []
  | count + 1, start, need + 1 =>
    if isBad start then goodBlocks isBad count (start + 1) (need + 1)
    else start :: goodBlocks isBad count (start + 1) need

/-- `get_blocks_for_secure_storage`: the two blocks, unless there are fewer. -/
def getBlocksForSecureStorage (s : SecSto) : Option (Nat × Nat) :=
  match goodBlocks s.isBad (s.endblk - s.startblk) s.startblk 2 with
  | [a, b] => some (a, b)
  | _ => none

def secureStorageChecksum (buf : List UInt8) : Nat :=
  buf.foldl (fun sum b => u32 (sum + b.toNat)) 0

/-- What `read_check_secure_storage_page` returns for a page: 0 when the checksum is right and 1
    when it is not. -/
def pageCheck (p : Page) : Int :=
  if p.checksum ≠ secureStorageChecksum p.data then 1 else 0

/-- The loop of `check_secure_storage`: the last `ret1` and `ret2`. -/
def checkLoop (a b : Nat → Page) : Nat → Nat → Int × Int
  | 0, _ => (0, 0)
  | n + 1, i =>
    let ret1 := pageCheck (a i)
    let ret2 := pageCheck (b i)
    if ret1 ≠ 0 ∨ ret2 ≠ 0 then (ret1, ret2) else checkLoop a b n (i + 1)

/-- `check_secure_storage`: 0 is `BOTH_SEC_BLKS_GOOD`, 1 is `FIRST_SEC_BLK_GOOD`, 2 is
    `SECOND_SEC_BLK_GOOD`, and the last case is `-EINVAL`. -/
def checkSecureStorage (info : Info) (s : SecSto) : Int :=
  let (ret1, ret2) := checkLoop (s.page s.blk0) (s.page s.blk1) info.pageCnt 0
  if ret1 = 0 ∧ ret2 = 0 then 0
  else if ret1 = 0 ∧ ret2 ≠ 0 then 1
  else if ret2 = 0 ∧ ret1 ≠ 0 then 2
  else if ret1 = 1 ∧ ret2 = 1 then 0
  else -22

/-- `aw_spinand_chip_copy_single_block`. -/
def copySingleBlock (info : Info) (fromBlk toBlk : Nat) : Run SecSto Unit := do
  phyEraseBlock info toBlk
  loop (fun i s => s.setPage toBlk i (s.page fromBlk i)) info.pageCnt 0

def repairSecureStorage (info : Info) (goodBlkIndex : Int) : Run SecSto Unit := do
  let s ← observe id
  if goodBlkIndex = 1 then copySingleBlock info s.blk0 s.blk1
  else copySingleBlock info s.blk1 s.blk0

/-- The part of `init_secure_storage` behind `get_blocks_for_secure_storage`. -/
def checkAndRepair (info : Info) : Run SecSto Int := do
  let s ← observe id
  if !isSecureStorageBlock s s.blk0 0 && !isSecureStorageBlock s s.blk1 0 then
    -- never used before
    pure 0
  else
    let ret := checkSecureStorage info s
    if ret < 0 then pure ret
    else if 0 < ret then do
      repairSecureStorage info ret
      pure 0
    else pure 0

/-- A change of the fields in memory, which is no operation of the device. -/
def modify (f : SecSto → SecSto) : Run SecSto Unit := fun s power => .done () (f s) power

def initSecureStorage (info : Info) : Run SecSto Int := do
  let s ← observe id
  match getBlocksForSecureStorage s with
  | none => pure (-28)
  | some (blk0, blk1) => do
    modify (fun s => { s with blk0 := blk0, blk1 := blk1 })
    let ret ← checkAndRepair info
    if ret ≠ 0 then pure ret
    else do
      modify (fun s => { s with initEnd := true })
      pure 0

/-- `DIV_ROUND_UP(len, pagesize)`. -/
def Info.pagesCntPerItem (info : Info) (len : Nat) : Nat :=
  (len + info.pageSize - 1) / info.pageSize

/-- The loop of `aw_spinand_secure_storage_read` on the two blocks, over the pages of the item from
    `i` on. -/
def readLoop (info : Info) (a b : Nat → Page) (first : Nat) :
    Nat → Nat → Nat → Except Int (List UInt8)
  | 0, _, _ => .ok []
  | n + 1, i, len =>
    let page0 := a (first + i)
    let page1 := b (first + i)
    -- the second block is looked at when the first one fails
    let (ret, pagebuf) :=
      if pageCheck page0 ≠ 0 then (pageCheck page1, page1.data) else (0, page0.data)
    if ret ≠ 0 then .error ret
    else
      let minlen := min len info.pageSize
      (readLoop info a b first n (i + 1) (len - minlen)).map
        (fun rest => pagebuf.take minlen ++ rest)

/-- `aw_spinand_secure_storage_read` after `init_secure_storage`: the error code, or the data. -/
def awSpinandSecureStorageRead (info : Info) (s : SecSto) (item len : Nat) :
    Except Int (List UInt8) :=
  if len % 1024 ≠ 0 then .error (-22)
  else readLoop info (s.page s.blk0) (s.page s.blk1) (item * info.pagesCntPerItem len)
    (info.pagesCntPerItem len) 0 len

/-- A page of the item that is written. `len` in the source has been reduced by the pages of the
    item before this one. -/
def itemPage (info : Info) (buf : List UInt8) (len pagenum : Nat) : Page :=
  let off := info.pageSize * (pagenum % info.pagesCntPerItem len)
  let minlen := min (len - off) info.pageSize
  let bytes := (buf.drop off).take minlen
  let pagebuf := bytes ++ List.replicate (info.pageSize - bytes.length) 0xff
  { data := pagebuf, magic := secStoMagic, checksum := secureStorageChecksum pagebuf }

/-- The page written at a place of the second block: of the item, or copied from the first block. -/
def newPage (info : Info) (item : Nat) (buf : List UInt8) (len : Nat) (s : SecSto)
    (pagenum : Nat) : Page :=
  if pagenum / info.pagesCntPerItem len = item then itemPage info buf len pagenum
  else s.page s.blk0 pagenum

def writeCheckSecureStoragePage (info : Info) (blk page : Nat) (content : Page) :
    Run SecSto Unit := do
  if page = 0 then phyEraseBlock info blk
  phyWritePage blk page content

/-- The loop of `aw_spinand_secure_storage_write`, over the pages from `pagenum` on. -/
def writeLoop (info : Info) (item : Nat) (buf : List UInt8) (len : Nat) :
    Nat → Nat → Run SecSto Unit
  | 0, _ => pure ()
  | n + 1, pagenum => do
    let s ← observe id
    writeCheckSecureStoragePage info s.blk1 pagenum (newPage info item buf len s pagenum)
    writeLoop info item buf len n (pagenum + 1)

def awSpinandSecureStorageWrite (info : Info) (item : Nat) (buf : List UInt8) (len : Nat) :
    Run SecSto Int := do
  if len % 1024 ≠ 0 then pure (-22)
  else do
    let s ← observe id
    let ret ← if s.initEnd then pure 0 else initSecureStorage info
    if ret ≠ 0 then pure ret
    else do
      writeLoop info item buf len info.pageCnt 0
      repairSecureStorage info 2
      pure 0

end Brandy.SpinandSec
