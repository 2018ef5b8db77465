import Brandy.Core.RawNand.Geometry

/-!
# Erasing Areas of a Raw NAND

`rawnand_erase_block` and its callers in `aw_rawnand_uboot.c`, with the erase functions of
`aw_rawnand_base.c` that they use. A run records the blocks for which an erase was issued, each with
its chip. Whether an erase succeeds is a property of the block. The return code of an area is that
of its last block.

## Main definitions

* `chipErase`, `multiErase`: One block is erased, or the two of a pair.
* `eraseBlock`, `eraseData`: A range of blocks, and the area of the data.
-/

namespace Brandy.RawNand

def eio : Int := 5

/-- A device and its configuration. -/
structure World where
  geometry : Geometry
  /-- `CONFIG_SIMULATE_MULTIPLANE`. -/
  simulateMultiplane : Bool
  /-- `RAWNAND_HAS_MULTI_ERASE` or `RAWNAND_HAS_MULTI_ONFI_ERASE`. -/
  hasMultiErase : Bool
  /-- Whether the erase of a block of a chip succeeds. -/
  eraseOk : Nat → Nat → Bool

/-- Erases that were issued, by chip and block. -/
abbrev Log := List (Nat × Nat)

section

variable (w : World)

/-- The block that three bytes of a row address select. -/
def rowBlock (page : Nat) : Nat := (page &&& 0xffffff) >>> w.geometry.pagesPerBlkShift

/-- `aw_rawnand_chip_erase`. -/
def chipErase (chipnr page : Nat) : Int × Log :=
  (if w.eraseOk chipnr (rowBlock w page) then 0 else -eio, [(chipnr, rowBlock w page)])

/-- The page of the first of the two blocks of a simulated block. -/
def pageA (page : Nat) : Nat :=
  ((page >>> w.geometry.pagesPerBlkShift) <<< 1) <<< w.geometry.pagesPerBlkShift

/-- The page of the second one. -/
def pageB (page : Nat) : Nat := pageA w page + 1 <<< w.geometry.pagesPerBlkShift

/-- `aw_rawnand_chip_real_multi_erase` and `aw_rawnand_chip_real_onfi_multi_erase`, which differ in
    the commands between the two row addresses. -/
def realMultiErase (chipnr page : Nat) : Int × Log :=
  (if w.eraseOk chipnr (rowBlock w (pageA w page)) ∧ w.eraseOk chipnr (rowBlock w (pageB w page))
    then 0 else -eio,
    [(chipnr, rowBlock w (pageA w page)), (chipnr, rowBlock w (pageB w page))])

/-- `aw_rawnand_chip_simu_multi_erase`. -/
def simuMultiErase (chipnr page : Nat) : Int × Log :=
  let a := chipErase w chipnr (pageA w page)
  if a.1 = 0 then
    let b := chipErase w chipnr (pageB w page)
    (b.1, a.2 ++ b.2)
  else a

/-- `aw_rawnand_chip_multi_erase`. -/
def multiErase (chipnr page : Nat) : Int × Log :=
  if w.hasMultiErase then realMultiErase w chipnr page else simuMultiErase w chipnr page

/-- The erase of a block of an area, which is a simulated one with `CONFIG_SIMULATE_MULTIPLANE`. -/
def eraseOne (chipnr blk : Nat) : Int × Log :=
  let page := blk <<< w.geometry.pagesPerBlkShift
  if w.simulateMultiplane then multiErase w chipnr (page &&& w.geometry.simuChipPagesMask)
  else chipErase w chipnr (page &&& w.geometry.chipPagesMask)

/-- The loop of `rawnand_erase_block`, from a block on. At the first page of a chip it selects the
    chip `chipnr` once more, and never another one. -/
def eraseBlockLoop (chipnr realEndBlk blk : Nat) : Int × Log :=
  let one := eraseOne w chipnr blk
  if blk + 1 < realEndBlk then
    let rest := eraseBlockLoop chipnr realEndBlk (blk + 1)
    (rest.1, one.2 ++ rest.2)
  else one
termination_by realEndBlk - blk

/-- `rawnand_erase_block`. A shift by a negative number has no result. -/
def eraseBlock (start endBlk : Nat) : Option (Int × Log) :=
  if w.simulateMultiplane then
    if w.geometry.chipShift < w.geometry.simuEraseShift then none
    else
      let realStartBlk := start >>> 1
      let chipnr := realStartBlk >>> (w.geometry.chipShift - w.geometry.simuEraseShift)
      some (eraseBlockLoop w chipnr (endBlk >>> 1) realStartBlk)
  else
    let chipnr := start >>> (w.geometry.chipShift - w.geometry.eraseShift)
    some (eraseBlockLoop w chipnr endBlk start)

end

def ubootStartBlockSmallnand : Nat := 8

def ubootStartBlockBignand : Nat := 4

/-- `AW_RAWNAND_RESERVED_PHY_BLK_FOR_SECURE_STORAGE`. -/
def reservedPhyBlkForSecureStorage : Nat := 8

/-- `rawnand_uboot_blknum`: the first block of U-Boot and the one behind its last. -/
def ubootBlknum (g : Geometry) : Nat × Nat :=
  let ubootBlockSize := g.erasesize
  let pageCntPerBlk := 1 <<< g.pagesPerBlkShift
  if ubootBlockSize ≤ 0x20000 then (ubootStartBlockSmallnand, ubootStartBlockSmallnand + 32)
  else if ubootBlockSize ≤ 0x40000 then (ubootStartBlockSmallnand, ubootStartBlockSmallnand + 16)
  else if ubootBlockSize ≤ 0x80000 then (ubootStartBlockSmallnand, ubootStartBlockSmallnand + 8)
  else if ubootBlockSize ≤ 0x100000 ∧ pageCntPerBlk ≤ 128 then
    (ubootStartBlockSmallnand, ubootStartBlockSmallnand + 4)
  else if ubootBlockSize ≤ 0x100000 ∧ 128 < pageCntPerBlk then
    (ubootStartBlockBignand, ubootStartBlockBignand + 20)
  else if ubootBlockSize ≤ 0x200000 then (ubootStartBlockBignand, ubootStartBlockBignand + 10)
  else (ubootStartBlockBignand, ubootStartBlockBignand + 8)

/-- Where the data area starts. -/
def dataStart (g : Geometry) : Nat := (ubootBlknum g).2 + reservedPhyBlkForSecureStorage

/-- `rawnand_mtd_erase_data`. -/
def eraseData (w : World) : Option (Int × Log) :=
  let totalSize := w.geometry.chips * w.geometry.chipsize
  eraseBlock w (dataStart w.geometry) (totalSize >>> w.geometry.eraseShift)

end Brandy.RawNand
