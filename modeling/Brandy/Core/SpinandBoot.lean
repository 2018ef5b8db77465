import Brandy.Core.Checksum

/-!
# The Boot Package on SPI-NAND

The boot package code of `drivers/mtd/awnand/spinand/sunxi-driver.c`: the place of the package,
burning it to as many copies as the place has room for, and reading it back.

The model notes every block that is erased or programmed, and each erase or program may fail.
Reading goes through the MTD layer, on a chip without super pages: a good block reads as what it
holds, unless it cannot be read.

## Main definitions

* `Geometry`, `Dev`: The chip, and the contents of its blocks.
* `spinandMtdDownloadUboot`: The copies are burnt.
* `spinandMtdUploadUboot`: The package is read back.
-/

namespace Brandy.SpinandBoot

open Memory Word Checksum

/-- The sizes of a chip, and whether `CONFIG_SIMULATE_MULTIPLANE` joins its pages to super pages. -/
structure Geometry where
  sectCntPerPage : Nat
  pageCntPerBlk : Nat
  simulateMultiplane : Bool
  sectCntPerPage_pos : 0 < sectCntPerPage
  pageCntPerBlk_pos : 0 < pageCntPerBlk

def Geometry.phyPageSize (geo : Geometry) : Nat := geo.sectCntPerPage * 512

def Geometry.pageSize (geo : Geometry) : Nat :=
  if geo.simulateMultiplane then geo.phyPageSize * 2 else geo.phyPageSize

def Geometry.phyBlockSize (geo : Geometry) : Nat := geo.pageCntPerBlk * geo.phyPageSize

def ubootStartBlockBignand : Nat := 4

def ubootStartBlockSmallnand : Nat := 8

def maxUbootEndBlk : Nat := 50 - 8

/-- `spinand_uboot_blknum`, with `CONFIG_AW_MTD_SPINAND_UBOOT_BLKS`. -/
def spinandUbootBlknum (geo : Geometry) (ubootBlks : Nat) : Nat × Nat :=
  let blksize := geo.phyBlockSize
  let pagecnt := blksize / geo.phyPageSize
  let (start, endblk) :=
    if blksize ≤ 128 * 1024 then (ubootStartBlockSmallnand, ubootStartBlockSmallnand + 32)
    else if blksize ≤ 256 * 1024 then (ubootStartBlockSmallnand, ubootStartBlockSmallnand + 16)
    else if blksize ≤ 512 * 1024 then (ubootStartBlockSmallnand, ubootStartBlockSmallnand + 8)
    else if blksize ≤ 1024 * 1024 ∧ pagecnt ≤ 128 then
      (ubootStartBlockSmallnand, ubootStartBlockSmallnand + 4)
    else if blksize ≤ 1024 * 1024 ∧ 128 < pagecnt then
      (ubootStartBlockBignand, ubootStartBlockBignand + 20)
    else if blksize ≤ 2048 * 1024 then (ubootStartBlockBignand, ubootStartBlockBignand + 10)
    else (ubootStartBlockBignand, ubootStartBlockBignand + 8)
  let endblk := if 0 < ubootBlks then start + ubootBlks else endblk
  let endblk := if maxUbootEndBlk < endblk then maxUbootEndBlk else endblk
  (start, endblk)

/-- The blocks of the chip, and those erased or programmed so far. -/
structure Dev where
  content : Nat → Mem
  touched : Finset Nat

/-- The erases and programs that fail. -/
structure Faults where
  erase : Nat → Bool
  program : Nat → Nat → Bool

/-- A chip on which nothing fails. -/
def noFaults : Faults := ⟨fun _ => false, fun _ _ => false⟩

/-- `phy_erase_block`: the code, and the chip after it. -/
def phyEraseBlock (faults : Faults) (d : Dev) (block : Nat) : Int × Dev :=
  let touched := insert block d.touched
  if faults.erase block then (-5, { d with touched := touched })
  else (0, ⟨Function.update d.content block (fun _ => 0xff), touched⟩)

/-- `phy_write_page` with `datalen` bytes of `buf` from `off` on, to a page of an erased block. -/
def phyWritePage (geo : Geometry) (faults : Faults) (d : Dev) (block page : Nat) (buf : Mem)
    (off datalen : Nat) : Int × Dev :=
  let touched := insert block d.touched
  let base : Int := page * geo.phyPageSize
  if faults.program block page then (-5, { d with touched := touched })
  else
    (0, ⟨Function.update d.content block
      (overlay (d.content block) (fun x => buf (x - base + off)) base datalen), touched⟩)

/-- How `download_boot` ends: all data written, stopped at `endblk`, or with an error code. The
    number is that of the blocks used, bad ones included. -/
inductive Burned where
  | complete (writtenBlks : Nat)
  | achievedMaximum (writtenBlks : Nat)
  | failed (ret : Int)
  deriving DecidableEq

/-- What `download_boot` returns. -/
def Burned.ret : Burned → Int
  | .complete writtenBlks => writtenBlks
  | .achievedMaximum writtenBlks => writtenBlks
  | .failed ret => ret

/-- The loop of `download_boot`. -/
def downloadLoop (geo : Geometry) (isBad : Nat → Bool) (faults : Faults) (endblk pagesize : Nat)
    (hsize : 0 < pagesize) (buf : Mem) (block page len pgindex writtenBlks : Nat) (d : Dev) :
    Burned × Dev :=
  if page = 0 ∧ isBad block = true then
    if endblk ≤ block + 1 then (.achievedMaximum (writtenBlks + 1), d)
    -- `continue` goes to the test of the loop
    else if 0 < len then
      downloadLoop geo isBad faults endblk pagesize hsize buf (block + 1) page len pgindex
        (writtenBlks + 1) d
    else (.complete (writtenBlks + 1), d)
  else
    let erase := if page = 0 then phyEraseBlock faults d block else (0, d)
    if erase.1 ≠ 0 then (.failed erase.1, erase.2)
    else
      let datalen := min len pagesize
      let write := phyWritePage geo faults erase.2 block page buf (pgindex * pagesize) datalen
      if write.1 ≠ 0 then (.failed write.1, write.2)
      else
        let writtenBlks := if page = 0 then writtenBlks + 1 else writtenBlks
        if 0 < len - datalen then
          if geo.pageCntPerBlk ≤ page + 1 then
            downloadLoop geo isBad faults endblk pagesize hsize buf (block + 1) 0 (len - datalen)
              (pgindex + 1) writtenBlks write.2
          else
            downloadLoop geo isBad faults endblk pagesize hsize buf block (page + 1) (len - datalen)
              (pgindex + 1) writtenBlks write.2
        else (.complete writtenBlks, write.2)
termination_by (len, endblk - block)
decreasing_by
  · omega
  · omega
  · omega

/-- The size of the data in a page: `pagesize`, at most a page, and 0 means a page. -/
def bootPagesize (geo : Geometry) (pagesize : Nat) : Nat :=
  let pagesize := if pagesize = 0 then geo.phyPageSize else pagesize
  if geo.phyPageSize < pagesize then geo.phyPageSize else pagesize

theorem bootPagesize_pos (geo : Geometry) (pagesize : Nat) : 0 < bootPagesize geo pagesize := by
  have hpos : 0 < geo.phyPageSize := Nat.mul_pos geo.sectCntPerPage_pos (by decide)
  unfold bootPagesize
  by_cases h0 : pagesize = 0
  · simp only [if_pos h0, lt_irrefl, if_false]
    exact hpos
  · simp only [if_neg h0]
    split <;> omega

def downloadBoot (geo : Geometry) (isBad : Nat → Bool) (faults : Faults)
    (startblk endblk pagesize : Nat) (buf : Mem) (len : Nat) (d : Dev) : Burned × Dev :=
  downloadLoop geo isBad faults endblk (bootPagesize geo pagesize) (bootPagesize_pos geo pagesize)
    buf startblk 0 len 0 0 d

def blksPerUboot (geo : Geometry) (len : Nat) : Nat :=
  u32 ((len : Int) + geo.phyBlockSize - 1) / geo.phyBlockSize

/-- The loop of `spinand_mtd_download_uboot`: the code, the chip, and the first blocks of the
    complete copies. -/
def downloadUbootLoop (geo : Geometry) (isBad : Nat → Bool) (faults : Faults) (endblk : Nat)
    (buf : Mem) (len start : Nat) (d : Dev) (copies : List Nat) : Int × Dev × List Nat :=
  if start + blksPerUboot geo len ≤ endblk then
    match downloadBoot geo isBad faults start endblk 0 buf len d with
    | (r, d) =>
      if r.ret ≤ 0 then (r.ret, d, copies)
      else if r.ret < blksPerUboot geo len then (-22, d, copies)
      else
        let copies := match r with
          | .complete _ => copies ++ [start]
          | _ => copies
        downloadUbootLoop geo isBad faults endblk buf len (start + r.ret.toNat) d copies
  else (0, d, copies)
termination_by endblk + 1 - start
decreasing_by
  omega

def spinandMtdDownloadUboot (geo : Geometry) (ubootBlks : Nat) (isBad : Nat → Bool)
    (faults : Faults) (len : Nat) (buf : Mem) (d : Dev) : Int × Dev × List Nat :=
  let (start, endblk) := spinandUbootBlknum geo ubootBlks
  if endblk - start < blksPerUboot geo len then (-28, d, [])
  else if len % geo.pageSize ≠ 0 then (-22, d, [])
  else downloadUbootLoop geo isBad faults endblk buf len start d []

/-- The chip as the MTD layer reads it, with its number of blocks. -/
structure Nand where
  isBad : Nat → Bool
  readable : Nat → Bool
  content : Nat → Mem
  blkCnt : Nat

/-- The loop of `aw_spinand_mtd_read` to `buf` from `off` on, with the number of blocks from `block`
    to the end of the chip. Behind the end every block counts as bad, and the loop does not
    return. -/
def mtdReadLoop (geo : Geometry) (nand : Nand) :
    Nat → Nat → Nat → Nat → Int → Mem → Option (Int × Mem)
  | 0, _, _, _, _, _ => none
  | n + 1, start, block, len, off, buf =>
    if nand.isBad block then
      if len = 0 then some (0, buf)
      else
        mtdReadLoop geo nand n ((start + geo.phyBlockSize) % 2 ^ 32) (block + 1) len off buf
    else
      let blockOffset := start &&& (geo.phyBlockSize - 1)
      let opLen := min len (geo.phyBlockSize - blockOffset)
      if nand.readable (start / geo.phyBlockSize) then
        let base : Int := (start % geo.phyBlockSize : Nat)
        let buf := overlay buf
          (fun x => nand.content (start / geo.phyBlockSize) (x - off + base)) off opLen
        if len - opLen = 0 then some (0, buf)
        else if (start + opLen) % geo.phyBlockSize = 0 then
          mtdReadLoop geo nand n ((start + opLen) % 2 ^ 32) (block + 1) (len - opLen) (off + opLen)
            buf
        else mtdReadLoop geo nand n start block (len - opLen) (off + opLen) buf
      else some (-1, buf)

def awSpinandMtdRead (geo : Geometry) (nand : Nand) (start sects : Nat) (buf : Mem) :
    Option (Int × Mem) :=
  let block := start / geo.phyBlockSize
  mtdReadLoop geo nand (nand.blkCnt - block) start block (u32 ((sects : Int) * 512)) 0 buf

/-- The test of a boot package in memory against the `add_sum` of its `sbrom_toc1_head_info_t`. -/
def toc1Good (buf : Mem) : Bool :=
  generateChecksum buf (word buf 36) 1 (word buf 20) = word buf 20

/-- The loop of `spinand_mtd_upload_uboot` over the backups. With `blks_per_uboot` 0 it stays and
    does not return. -/
def uploadLoop (geo : Geometry) (nand : Nand) (endblk len : Nat) :
    Nat → Nat → Mem → Option (Int × Mem)
  | 0, _, _ => none
  | n + 1, start, buf =>
    if start + blksPerUboot geo len ≤ endblk then
      match awSpinandMtdRead geo nand (u32 ((start : Int) * geo.phyBlockSize)) (len / 512) buf with
      | none => none
      | some (ret, buf) =>
        if ret ≠ 0 then uploadLoop geo nand endblk len n (start + blksPerUboot geo len) buf
        else if toc1Good buf then some (0, buf)
        else uploadLoop geo nand endblk len n (start + blksPerUboot geo len) buf
    else some (-1, buf)

def spinandMtdUploadUboot (geo : Geometry) (ubootBlks : Nat) (nand : Nand) (buf : Mem)
    (len : Nat) : Option (Int × Mem) :=
  let (start, endblk) := spinandUbootBlknum geo ubootBlks
  match awSpinandMtdRead geo nand (u32 ((start : Int) * geo.phyBlockSize)) (len / 512) buf with
  | none => none
  | some (ret, buf) =>
    if ret = 0 ∧ toc1Good buf = true then some (0, buf)
    else
      uploadLoop geo nand endblk len (endblk + 1) (start + blksPerUboot geo len) buf

end Brandy.SpinandBoot
