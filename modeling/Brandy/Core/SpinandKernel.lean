import Brandy.Library.Buffer
import Brandy.Library.Goods

/-!
# Reading the Kernel from SPI NAND

`spinand_read_kernel` of the boot loader `spl`, in `drivers/nand/general/spinand/spinand.c`. The
reader goes on to the next good block at the end of each. The number of the block that it passes on
stays that of the first one, and the number of the page runs past its end.

A block is bad if its mark can be read and is not `0xff`. The bad blocks are finitely many, so the
search for a good one ends. Numbers are not wrapped: they are those of devices below 4 GiB.

## Main definitions

* `KernelFlash`: The pages, and the marks of the blocks.
* `spinandReadKernel`: Some sectors are read.
-/

namespace Brandy.SpinandKernel

open Buffer (memcpy)
open Goods (firstGood)

/-- The device, with the first spare byte of each block, or `none` if it cannot be read. Pages are
    numbered through. -/
structure KernelFlash where
  sctsPerPage : Nat
  pagesPerBlock : Nat
  oob : Nat → Option UInt8
  readOk : Nat → Bool
  data : Nat → Buffer
  /-- Behind this block all blocks are good. -/
  bound : Nat
  sctsPerPage_pos : 0 < sctsPerPage
  pagesPerBlock_pos : 0 < pagesPerBlock
  good_of_le : ∀ block, bound ≤ block → oob block = none ∨ oob block = some 0xff

namespace KernelFlash

variable (f : KernelFlash)

/-- `SPN_PAGE_SIZE`. -/
def pageSize : Nat := f.sctsPerPage * 512

/-- `SPN_BLOCK_SIZE >> SCT_SZ_WIDTH`. -/
def sctsPerBlock : Nat := f.pagesPerBlock * f.sctsPerPage

/-- `spinand_read_kernel_skip_bad_block`. -/
def skipBadBlock (block : Nat) : Bool :=
  match f.oob block with
  | some mark => mark != 0xff
  | none => false

/-- `read_single_page` to the given place of a buffer. An error is found before the data are
    transferred. -/
def readSinglePage (block page dataSize : Nat) (buf : Buffer) (mainbuf : Nat) : Bool × Buffer :=
  let addr := block * f.pagesPerBlock + page
  if f.readOk addr then (true, memcpy buf mainbuf (f.data addr) 0 dataSize) else (false, buf)

/-- The jumps to `check2`, with `start_page` and `blk_num`. -/
def checkMiddle : Nat → Nat → Nat → Nat × Nat
  | 0, startPage, blkNum => (startPage, blkNum + 1)
  | fuel + 1, startPage, blkNum =>
    if f.skipBadBlock (blkNum + 1) then checkMiddle fuel (startPage + f.pagesPerBlock) (blkNum + 1)
    else (startPage, blkNum + 1)

/-- The loop over the pages from `i` on, for `n` sectors to `buffer`. `block` is `para.block`. -/
def readLoop (n buffer block : Nat) : Nat → Nat → Nat → Nat → Buffer → Bool × Buffer
  | 0, _, _, _, buf => (true, buf)
  | left + 1, i, startPage, blkNum, buf =>
    let place :=
      if i ≠ 0 ∧ (startPage + i) % f.pagesPerBlock = 0 then
        f.checkMiddle (f.bound - (blkNum + 1)) startPage blkNum
      else (startPage, blkNum)
    let dataSize :=
      if left = 0 ∧ n % f.sctsPerPage ≠ 0 then n * 512 - f.pageSize * i else f.pageSize
    let r := f.readSinglePage block (place.1 + i) dataSize buf (buffer + f.pageSize * i)
    if r.1 = false then (false, r.2) else readLoop n buffer block left (i + 1) place.1 place.2 r.2

/-- `spinand_read_kernel`, to the offset `buffer` of the memory. -/
def spinandReadKernel (sectorNum n buffer : Nat) (buf : Buffer) : Bool × Buffer :=
  let blkNum := sectorNum / f.sctsPerBlock
  let blkNum := firstGood f.skipBadBlock (f.bound - blkNum) blkNum
  let startPage := sectorNum % f.sctsPerBlock / f.sctsPerPage
  let pageNr := n / f.sctsPerPage + if n % f.sctsPerPage ≠ 0 then 1 else 0
  f.readLoop n buffer blkNum pageNr 0 startPage blkNum buf

end KernelFlash

end Brandy.SpinandKernel
