import Brandy.Core.SpinandPhysic
import Brandy.Library.Buffer

/-!
# MTD Reads of a SPI NAND

`aw_spinand_read_oob` of `sunxi-core.c` without OOB bytes, over `addr_to_req` and the page reads of
`physic/ops.c`, and `mtd_read` of `mtdcore.c` over it.

With `CONFIG_SIMULATE_MULTIPLANE` two blocks next to each other are one super block, and their pages
with the same number one super page, from the system partition on. In front of it the blocks are
used as they are. The address a request starts at decides on the layout for all of it.

The sizes are powers of two, a chip has one die and an even number of blocks, and less than 4 GiB.
What the chip answers to the read of a page is given with its content: a negative code, or one of
`aw_spinand_ecc_check_ecc`. The page cache does not show in a sequence of reads and is left out.

## Main definitions

* `MtdChip`, `Flash`: The chip, and what it answers.
* `addrMap`: The place of a byte of the device.
* `mtdRead`: A read.
-/

namespace Brandy.SpinandMtd

open Buffer (memcpy)
open SpinandPhysic (eccLimit eccErr)

/-- The geometry of a chip, `CONFIG_SIMULATE_MULTIPLANE`, and `spinand_sys_part_offset`, which has
    the blocks for the secure storage in front of it. -/
structure MtdChip where
  phyPageShift : Nat
  pageCntShift : Nat
  superBlocks : Nat
  multiplane : Bool
  sysPartOffset : Nat
  superBlocks_pos : 0 < superBlocks
  total_lt : 2 * superBlocks * (2 ^ pageCntShift * 2 ^ phyPageShift) < 2 ^ 32
  sys_ge : 8 * (2 ^ pageCntShift * 2 ^ phyPageShift) ≤ sysPartOffset

namespace MtdChip

variable (c : MtdChip)

def phyPageSize : Nat := 2 ^ c.phyPageShift

def pageSize : Nat := if c.multiplane then c.phyPageSize * 2 else c.phyPageSize

def pageCntPerBlk : Nat := 2 ^ c.pageCntShift

def blkCntPerDie : Nat := 2 * c.superBlocks

def phyBlockSize : Nat := c.pageCntPerBlk * c.phyPageSize

def blockSize : Nat := c.pageCntPerBlk * c.pageSize

/-- `total_size`, and the size of the MTD device. -/
def totalSize : Nat := c.blkCntPerDie * c.phyBlockSize

end MtdChip

/-- The bytes of the pages by block, page and column, and the codes that reading them gives. -/
structure Flash where
  content : Nat → Nat → Nat → UInt8
  status : Nat → Nat → Int

/-- What is read of `struct aw_spinand_chip_request`. `databuf` is an offset of the memory. -/
structure Request where
  block : Nat
  page : Nat
  pageoff : Nat
  databuf : Nat
  datalen : Nat
  dataleft : Nat

section

variable (c : MtdChip)

/-- `addr_to_req`: the block, the page and the offset in it. -/
def addrToReq (addr : Nat) : Nat × Nat × Nat :=
  let addrtmp := addr &&& (c.blockSize - 1)
  (addr / c.blockSize, addrtmp / c.pageSize, addrtmp &&& (c.pageSize - 1))

/-- `aw_spinand_req_init`. -/
def reqInit (offs len databuf : Nat) : Request :=
  let place := addrToReq c offs
  let size := if c.sysPartOffset ≤ offs then c.pageSize else c.phyPageSize
  let pageoff := offs &&& (size - 1)
  ⟨place.1, place.2.1, pageoff, databuf, min (size - pageoff) len, len⟩

/-- `aw_spinand_req_next`. -/
def reqNext (offs : Nat) (req : Request) : Request :=
  let pagesPerBlk :=
    if c.sysPartOffset ≤ offs then c.blockSize / c.pageSize else c.phyBlockSize / c.phyPageSize
  let dataleft := req.dataleft - req.datalen
  { block := if pagesPerBlk ≤ req.page + 1 then req.block + 1 else req.block
    page := if pagesPerBlk ≤ req.page + 1 then 0 else req.page + 1
    pageoff := 0
    databuf := req.databuf + req.datalen
    datalen := min (if c.sysPartOffset ≤ offs then c.pageSize else c.phyPageSize) dataleft
    dataleft := dataleft }

variable (f : Flash)

/-- `aw_spinand_chip_read_single_page`. -/
def readSinglePage (req : Request) (buf : Buffer) : Int × Buffer :=
  if c.pageCntPerBlk ≤ req.page then (-75, buf)
  else if c.blkCntPerDie ≤ req.block then (-75, buf)
  else if f.status req.block req.page < 0 then (f.status req.block req.page, buf)
  else
    (f.status req.block req.page,
      memcpy buf req.databuf (f.content req.block req.page) req.pageoff req.datalen)

def superToPhy (super : Request) : Request :=
  let pageoff := super.pageoff &&& (c.phyPageSize - 1)
  { block := if c.phyPageSize ≤ super.pageoff then super.block * 2 + 1 else super.block * 2
    page := super.page
    pageoff := pageoff
    databuf := super.databuf
    datalen := min (c.phyPageSize - pageoff) super.datalen
    dataleft := super.datalen }

/-- `aw_spinand_chip_super_next`. -/
def superNext (req : Request) : Request :=
  { req with
    databuf := req.databuf + req.datalen
    dataleft := req.dataleft - req.datalen
    datalen := min (req.dataleft - req.datalen) c.phyPageSize
    pageoff := 0
    block := req.block + 1 }

/-- The loop of `aw_spinand_chip_read_super_page`, over so many pages at most. -/
def superLoop : Nat → Request → Int → Buffer → Int × Buffer
  | 0, _, limit, buf => (limit, buf)
  | fuel + 1, phy, limit, buf =>
    if phy.dataleft = 0 then (limit, buf)
    else
      let r := readSinglePage c f phy buf
      if r.1 < 0 then r
      else if r.1 = eccErr then r
      else superLoop fuel (superNext c phy) (if r.1 = eccLimit then eccLimit else limit) r.2

/-- `aw_spinand_chip_read_super_page`. A super page has two pages. -/
def readSuperPage (super : Request) (buf : Buffer) : Int × Buffer :=
  superLoop c f 2 (superToPhy c super) 0 buf

/-- `read_page` of `struct aw_spinand_chip_ops`. -/
def readPage (req : Request) (buf : Buffer) : Int × Buffer :=
  if c.multiplane then readSuperPage c f req buf else readSinglePage c f req buf

/-- What a read returns: the code, `retlen`, and the memory. -/
structure Reply where
  ret : Int
  retlen : Nat
  buf : Buffer

/-- The loop of `aw_spinand_read_oob`, with what it carries along. Every turn reads at least a
    byte. -/
def readLoop (offs : Nat) : Nat → Request → Int → Bool → Nat → Buffer → Reply
  | 0, _, maxBitflips, eccFailed, retlen, buf =>
    ⟨if eccFailed then -74 else maxBitflips, retlen, buf⟩
  | fuel + 1, req, maxBitflips, eccFailed, retlen, buf =>
    if req.dataleft = 0 then ⟨if eccFailed then -74 else maxBitflips, retlen, buf⟩
    else
      let r := if c.sysPartOffset ≤ offs then readPage c f req buf else readSinglePage c f req buf
      if r.1 < 0 then ⟨r.1, retlen, r.2⟩
      else
        readLoop offs fuel (reqNext c offs req)
          (if r.1 = eccLimit then max maxBitflips eccLimit else maxBitflips)
          (eccFailed || r.1 == eccErr) (retlen + req.datalen) r.2

/-- `aw_spinand_read`, over `aw_spinand_read_oob`. -/
def awSpinandRead (offs len databuf : Nat) (buf : Buffer) : Reply :=
  if c.totalSize ≤ offs ∨ c.totalSize - offs < len then ⟨-22, 0, buf⟩
  else if len = 0 then ⟨0, 0, buf⟩
  else readLoop c f offs len (reqInit c offs len databuf) 0 false 0 buf

/-- `mtd_read`. The threshold of the device is `ECC_LIMIT`. -/
def mtdRead (offs len databuf : Nat) (buf : Buffer) : Reply :=
  if c.totalSize < offs ∨ c.totalSize - offs < len then ⟨-22, 0, buf⟩
  else if len = 0 then ⟨0, 0, buf⟩
  else
    let r := awSpinandRead c f offs len databuf buf
    if r.ret < 0 then r else { r with ret := if eccLimit ≤ r.ret then -117 else 0 }

/-- The block, the page and the column of a byte: where a read of this byte alone takes it from. -/
def addrMap (addr : Nat) : Nat × Nat × Nat :=
  let req := reqInit c addr 1 0
  let phy := if c.multiplane ∧ c.sysPartOffset ≤ addr then superToPhy c req else req
  (phy.block, phy.page, phy.pageoff)

end

end Brandy.SpinandMtd
