import Brandy.Core.SpinandSecStorage

/-!
# Secure Storage on SPI-NAND with Bit Flips

The functions of `drivers/mtd/awnand/spinand/secure-storage.c` again, where each page has the value
that `phy_read_page` returns for it: `ECC_GOOD`, `ECC_LIMIT`, `ECC_ERR` or a negative error.

The two blocks have been found, and they are different. All erases and programs succeed, and what
they write is read with `ECC_GOOD`.

## Main definitions

* `Cell`, `Sto`: A page with its code, and the two blocks.
* `initSecureStorage`: The check and the repair at the start.
* `awSpinandSecureStorageRead`, `awSpinandSecureStorageWrite`: An item is read or written.
-/

namespace Brandy.SpinandEcc

open SpinandSec (Page Info pageCheck itemPage secStoMagic)

/-- `ECC_LIMIT`: the page had bit flips that were corrected. -/
def eccLimit : Int := 16

/-- `ECC_ERR`: it had too many of them. -/
def eccErr : Int := 32

/-- A page as it is read, and what `phy_read_page` returns. -/
structure Cell where
  page : Page
  ecc : Int

/-- A page that has just been programmed. -/
def Cell.fresh (page : Page) : Cell := ⟨page, 0⟩

/-- The blocks `blk[0]` and `blk[1]`, and `init_end`. -/
structure Sto where
  blk0 : Nat → Cell
  blk1 : Nat → Cell
  initEnd : Bool

/-- `phy_read_page`. Behind the block it fails with `-EOVERFLOW`. -/
def phyReadPage (info : Info) (blk : Nat → Cell) (page : Nat) : Cell :=
  if page < info.pageCnt then blk page else ⟨info.erased, -75⟩

/-- What `read_check_secure_storage_page` returns: 0 and 1 from the checksum test, and everything
    else from the read. -/
def Cell.check (c : Cell) : Int := if c.ecc ≠ 0 then c.ecc else pageCheck c.page

def isSecureStorageBlock (info : Info) (blk : Nat → Cell) (page : Nat) : Int :=
  let c := phyReadPage info blk page
  if c.ecc ≠ 0 then c.ecc else if c.page.magic = secStoMagic then 1 else 0

/-- The loop of `check_secure_storage`: the last `ret1` and `ret2`. -/
def checkLoop (info : Info) (s : Sto) : Nat → Nat → Int × Int
  | 0, _ => (0, 0)
  | n + 1, i =>
    let ret1 := (phyReadPage info s.blk0 i).check
    let ret2 := (phyReadPage info s.blk1 i).check
    if ret1 ≠ 0 ∨ ret2 ≠ 0 then (ret1, ret2) else checkLoop info s n (i + 1)

def checkSecureStorage (info : Info) (s : Sto) : Int :=
  let (ret1, ret2) := checkLoop info s info.pageCnt 0
  if ret1 = 0 ∧ ret2 = 0 then 0
  else if ret1 = 0 ∧ ret2 ≠ 0 then 1
  else if ret2 = 0 ∧ ret1 ≠ 0 then 2
  else if ret1 = 1 ∧ ret2 = 1 then 0
  else -22

/-- The loop of `aw_spinand_chip_copy_single_block` into `dst`. It ends at a page that is not read
    with `ECC_GOOD`. -/
def copyLoop (info : Info) (src : Nat → Cell) : Nat → Nat → (Nat → Cell) → Int × (Nat → Cell)
  | 0, _, dst => (0, dst)
  | n + 1, i, dst =>
    let c := phyReadPage info src i
    if c.ecc ≠ 0 then (c.ecc, dst)
    else copyLoop info src n (i + 1) (Function.update dst i (.fresh c.page))

/-- `aw_spinand_chip_copy_single_block`: the code, and the block that is copied to. -/
def copySingleBlock (info : Info) (src : Nat → Cell) : Int × (Nat → Cell) :=
  copyLoop info src info.pageCnt 0 (fun _ => .fresh info.erased)

def repairSecureStorage (info : Info) (s : Sto) (goodBlkIndex : Int) : Int × Sto :=
  if goodBlkIndex = 1 then
    let (ret, blk1) := copySingleBlock info s.blk0
    (ret, { s with blk1 := blk1 })
  else
    let (ret, blk0) := copySingleBlock info s.blk1
    (ret, { s with blk0 := blk0 })

/-- `init_secure_storage` behind `get_blocks_for_secure_storage`. -/
def initSecureStorage (info : Info) (s : Sto) : Int × Sto :=
  if isSecureStorageBlock info s.blk0 0 = 0 ∧ isSecureStorageBlock info s.blk1 0 = 0 then
    -- never used before
    (0, { s with initEnd := true })
  else
    let ret := checkSecureStorage info s
    if ret < 0 then (ret, s)
    else if 0 < ret then
      let (ret, s) := repairSecureStorage info s ret
      if ret ≠ 0 then (ret, s) else (0, { s with initEnd := true })
    else (0, { s with initEnd := true })

/-- The initialisation at the beginning of a call. -/
def start (info : Info) (s : Sto) : Int × Sto :=
  if s.initEnd then (0, s) else initSecureStorage info s

/-- A page of the item: the result, and the page in `pagebuf`. The second block is read when the
    first one does not give 0. -/
def readPage (info : Info) (s : Sto) (page : Nat) : Int × Page :=
  let c0 := phyReadPage info s.blk0 page
  let c1 := phyReadPage info s.blk1 page
  if c0.check ≠ 0 then (c1.check, c1.page) else (0, c0.page)

/-- The loop of `aw_spinand_secure_storage_read` with the last result: the code, and the pages that
    are copied with their numbers of bytes. -/
def readLoop (info : Info) (s : Sto) (first : Nat) : Nat → Nat → Nat → Int → Int × List (Page × Nat)
  | 0, _, _, ret => (ret, [])
  | n + 1, i, len, _ =>
    let (ret, pagebuf) := readPage info s (first + i)
    if ret < 0 then (ret, [])
    else if ret = 1 then (ret, [])
    else
      let minlen := min len info.pageSize
      let (ret, rest) := readLoop info s first n (i + 1) (len - minlen) ret
      (ret, (pagebuf, minlen) :: rest)

/-- The bytes in `buf`, page by page. -/
def bytesOf (copied : List (Page × Nat)) : List (List UInt8) :=
  copied.map fun c => c.1.data.take c.2

/-- `aw_spinand_secure_storage_read`: the code, what is copied, and the storage after it. -/
def awSpinandSecureStorageRead (info : Info) (s : Sto) (item len : Nat) :
    Int × List (Page × Nat) × Sto :=
  if len % 1024 ≠ 0 then (-22, [], s)
  else
    let (ret, s) := start info s
    if ret ≠ 0 then (ret, [], s)
    else
      let cnt := info.pagesCntPerItem len
      let (ret, copied) := readLoop info s (item * cnt) cnt 0 len 0
      (ret, copied, s)

/-- The loop of `aw_spinand_secure_storage_write` over the pages from `pagenum` on: the code, and
    the second block. A page of another item comes from the first block, whatever its check says,
    unless the read fails. -/
def writeLoop (info : Info) (item : Nat) (buf : List UInt8) (len : Nat) (blk0 : Nat → Cell) :
    Nat → Nat → (Nat → Cell) → Int × (Nat → Cell)
  | 0, _, blk1 => (0, blk1)
  | n + 1, pagenum, blk1 =>
    let c := phyReadPage info blk0 pagenum
    let own := pagenum / info.pagesCntPerItem len = item
    if ¬own ∧ c.check < 0 then (c.check, blk1)
    else
      -- `write_check_secure_storage_page`: the block is erased in front of its first page
      let blk1 := if pagenum = 0 then fun _ => .fresh info.erased else blk1
      let content := if own then itemPage info buf len pagenum else c.page
      writeLoop info item buf len blk0 n (pagenum + 1)
        (Function.update blk1 pagenum (.fresh content))

def awSpinandSecureStorageWrite (info : Info) (s : Sto) (item : Nat)
    (buf : List UInt8) (len : Nat) : Int × Sto :=
  if len % 1024 ≠ 0 then (-22, s)
  else
    let (ret, s) := start info s
    if ret ≠ 0 then (ret, s)
    else
      let (ret, blk1) := writeLoop info item buf len s.blk0 info.pageCnt 0 s.blk1
      let s := { s with blk1 := blk1 }
      if ret ≠ 0 then (ret, s) else repairSecureStorage info s 2

end Brandy.SpinandEcc
