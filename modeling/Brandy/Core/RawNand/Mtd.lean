import Brandy.Core.RawNand.Bbt
import Brandy.Core.RawNand.Erase
import Brandy.Library.Buffer

/-!
# The MTD Layer of a Raw NAND

`aw_rawnand_mtd_erase`, `aw_rawnand_mtd_read`, `aw_rawnand_mtd_read_oob` and `aw_rawnand_mtd_write`
of `aw_rawnand_base.c`, with the page functions below them. The device has one address space over
all its chips. Its pages are those of a chip, or pairs of them with `CONFIG_SIMULATE_MULTIPLANE`.
The last page that was read or written stays in a buffer, which later reads may be served from.

The two readers are one loop. They differ in what they ask of the buffer before they use it and in
what they note down when they have filled it (`Request`). Statistics are left out, and so is the
spare pointer that the second plane is given when the caller wants no spare bytes. A failed program
leaves a page as it was, and a failed erase a block. A program replaces the bytes of a page:
programming one twice without an erase is not modelled.

## Main definitions

* `Nand`, `Cache`: The chips, and the buffer with the part of it that is valid.
* `readRange`: The loop of the two readers.
* `mtdRead`, `mtdReadOob`, `mtdWrite`, `mtdErase`: The operations.
-/

namespace Brandy.RawNand

open Buffer (memcpy)

def eccLimit : Int := 1 <<< 4

def ebadmsg : Int := 74

def einval : Int := 22

def invalidCache : Int := -1

/-- The device and its configuration. An operation on a page of a chip, or a block for an erase, has
    an outcome. -/
structure Config where
  geometry : Geometry
  /-- `CONFIG_SIMULATE_MULTIPLANE`. -/
  simulateMultiplane : Bool
  /-- `RAWNAND_HAS_CACHEPROG`. -/
  hasCacheprog : Bool
  /-- `RAWNAND_HAS_MULTI_ERASE` or `RAWNAND_HAS_MULTI_ONFI_ERASE`. -/
  hasMultiErase : Bool
  /-- `avalid_sparesize`. -/
  avalidSparesize : Nat
  /-- `bitflip_threshold`. -/
  bitflipThreshold : Nat
  /-- Whether the chip becomes ready for the read of a page. -/
  ready : Nat → Nat → Bool
  /-- What `batch_op` returns for the read of a page. -/
  status : Nat → Nat → Int
  /-- What the program of a page returns. -/
  writeRet : Nat → Nat → Int
  /-- Whether the erase of a block succeeds. -/
  eraseOk : Nat → Nat → Bool
  planes : simulateMultiplane = true → geometry.simuEraseShift ≤ geometry.chipShift

namespace Config

variable (cfg : Config)

def simuPagesizeShift : Nat :=
  if cfg.simulateMultiplane then cfg.geometry.simuPagesizeShift else cfg.geometry.pagesizeShift

/-- `writesize`, and `simu_pagesize`. -/
def writesize : Nat := 1 <<< cfg.simuPagesizeShift

def simuEraseShift : Nat := cfg.simuPagesizeShift + cfg.geometry.pagesPerBlkShift

def simuErasesize : Nat := 1 <<< cfg.simuEraseShift

def simuChipPagesMask : Nat := 1 <<< (cfg.geometry.chipShift - cfg.simuPagesizeShift) - 1

def pagesize : Nat := 1 <<< cfg.geometry.pagesizeShift

/-- `size`, of the whole device. -/
def size : Nat := cfg.geometry.chips <<< cfg.geometry.chipShift

/-- The device as far as erasing is concerned. -/
def world : World where
  geometry := cfg.geometry
  simulateMultiplane := cfg.simulateMultiplane
  hasMultiErase := cfg.hasMultiErase
  eraseOk := cfg.eraseOk

theorem writesize_pos : 0 < cfg.writesize := by
  unfold writesize
  rw [Nat.shiftLeft_eq]
  positivity

end Config

/-- `struct aw_nand_chip_cache`, for pages of a size. -/
structure Cache (writesize : Nat) where
  simuPageno : Int
  simuOobno : Int
  validCol : Nat
  validLen : Nat
  validOobCol : Nat
  validOobLen : Nat
  chipno : Int
  bitflips : Nat
  simuPagebuf : Buffer
  simuOobbuf : Buffer
  valid_le : validCol + validLen ≤ writesize

/-- The bytes and the spare bytes of the pages of every chip, and the page buffer. -/
structure Nand (cfg : Config) where
  cell : Nat → Nat → Buffer
  spare : Nat → Nat → Buffer
  cache : Cache cfg.writesize

section

variable {cfg : Config}

/-- The page of the first plane of a simulated page. -/
def Config.pageA (cfg : Config) (page : Nat) : Nat :=
  ((page >>> cfg.geometry.pagesPerBlkShift) <<< 1) <<< cfg.geometry.pagesPerBlkShift +
    (page &&& cfg.geometry.pagesPerBlkMask)

/-- The page of the second plane. -/
def Config.pageB (cfg : Config) (page : Nat) : Nat :=
  cfg.pageA page + 1 <<< cfg.geometry.pagesPerBlkShift

/-- The return code of a page read, and the buffers for the page and its spare bytes. -/
structure PageRead where
  ret : Int
  mdata : Buffer
  sdata : Buffer

/-- `aw_rawnand_chip_read_page`, to an offset of the buffers. -/
def chipReadPage (s : Nand cfg) (chip page off soff : Nat) (mdata sdata : Buffer) : PageRead :=
  if cfg.ready chip page then
    { ret := cfg.status chip page
      mdata := memcpy mdata off (s.cell chip page) 0 cfg.pagesize
      sdata := memcpy sdata soff (s.spare chip page) 0 cfg.avalidSparesize }
  else { ret := -eio, mdata := mdata, sdata := sdata }

/-- `aw_rawnand_chip_simu_multi_read_page`. The return code for the first plane is replaced by that
    for the second. -/
def simuMultiReadPage (s : Nand cfg) (chip page : Nat) (mdata sdata : Buffer) : PageRead :=
  if cfg.ready chip (cfg.pageA page) then
    let a := chipReadPage s chip (cfg.pageA page) 0 0 mdata sdata
    chipReadPage s chip (cfg.pageB page) cfg.pagesize cfg.avalidSparesize a.mdata a.sdata
  else { ret := -eio, mdata := mdata, sdata := sdata }

/-- The read of a page of the device. -/
def readPage (s : Nand cfg) (chip page : Nat) (mdata sdata : Buffer) : PageRead :=
  if cfg.simulateMultiplane then simuMultiReadPage s chip page mdata sdata
  else chipReadPage s chip page 0 0 mdata sdata

/-- `aw_rawnand_chip_write_page` and `aw_rawnand_chip_cache_write_page`, from an offset of a
    buffer. -/
def chipWritePage (s : Nand cfg) (chip page : Nat) (mdata : Buffer) (off mlen : Nat) :
    Int × Nand cfg :=
  if cfg.writeRet chip page = 0 then
    (0, { s with
      cell := Function.update s.cell chip
        (Function.update (s.cell chip) page (memcpy (s.cell chip page) 0 mdata off mlen)) })
  else (cfg.writeRet chip page, s)

/-- `aw_rawnand_chip_multi_write_page`: the two planes one after the other. -/
def multiWritePage (s : Nand cfg) (chip page : Nat) (mdata : Buffer) (mlen : Nat) :
    Int × Nand cfg :=
  let a := chipWritePage s chip (cfg.pageA page) mdata 0 (mlen >>> 1)
  if a.1 = 0 then chipWritePage a.2 chip (cfg.pageB page) mdata cfg.pagesize cfg.pagesize else a

/-- The write of a page of the device. -/
def writePage (s : Nand cfg) (chip page : Nat) (mdata : Buffer) (mlen : Nat) : Int × Nand cfg :=
  if cfg.simulateMultiplane then multiWritePage s chip page mdata mlen
  else chipWritePage s chip page mdata 0 mlen

/-- What the two readers differ in: whether spare bytes are wanted too, which ones, and whether
    there is a buffer for them. -/
structure Request where
  oob : Bool
  ooboffs : Nat
  ooblen : Nat
  oobbuf : Bool

/-- `aw_rawnand_mtd_read` wants no spare bytes. -/
def Request.data : Request := { oob := false, ooboffs := 0, ooblen := 0, oobbuf := false }

/-- What a reader has collected so far. -/
structure Reading (cfg : Config) where
  nand : Nand cfg
  ret : Int
  maxBitflips : Nat
  eccFailed : Bool
  hadReadlen : Nat
  mdata : Buffer
  /-- `slen`, `ooblen` and `had_read_ooblen`. -/
  slen : Nat
  ooblen : Int
  hadReadOoblen : Nat
  sdata : Buffer

/-- The test of the page buffer before a page is read. -/
def hit (k : Request) (c : Cache cfg.writesize) (pageInChip col len : Nat) : Prop :=
  (k.oob = true → (pageInChip : Int) = c.simuOobno) ∧ (pageInChip : Int) = c.simuPageno ∧
    c.validCol ≤ col ∧ col + len ≤ c.validCol + c.validLen ∧
    (k.oob = true → c.validOobCol ≤ k.ooboffs ∧
      k.ooboffs + k.ooblen ≤ c.validOobCol + c.validOobLen)

instance (k : Request) (c : Cache cfg.writesize) (pageInChip col len : Nat) :
    Decidable (hit k c pageInChip col len) := inferInstanceAs (Decidable (_ ∧ _))

/-- The page buffer is not valid any more. -/
def Cache.invalidate {n : Nat} (c : Cache n) : Cache n :=
  { c with simuPageno := invalidCache, simuOobno := invalidCache, chipno := invalidCache }

/-- A part of the page buffer is copied to the caller. -/
def Reading.copy (r : Reading cfg) (col mlen : Nat) : Reading cfg :=
  { r with
    mdata := memcpy r.mdata r.hadReadlen r.nand.cache.simuPagebuf col mlen
    sdata := memcpy r.sdata r.hadReadOoblen r.nand.cache.simuOobbuf 0 r.slen }

/-- What is noted down about a page that was read into the buffer. -/
def Cache.tag (k : Request) (c : Cache cfg.writesize)
    (chipnr pageInChip col mlen slen bitflips : Nat)
    (h : col + mlen ≤ cfg.writesize) : Cache cfg.writesize :=
  { c with
    simuPageno := pageInChip
    simuOobno := if k.oob then (pageInChip : Int) else c.simuOobno
    validCol := col
    validLen := mlen
    validOobCol := if k.oob then 0 else c.validOobCol
    validOobLen := if k.oob then slen else c.validOobLen
    chipno := chipnr
    bitflips := bitflips
    valid_le := h }

/-- One page of a read: whether the loop goes on, and what has been collected. -/
def readStep (k : Request) (r : Reading cfg) (chipnr page col len mlen : Nat)
    (h : col + mlen ≤ cfg.writesize) : Bool × Reading cfg :=
  let pageInChip := page &&& cfg.simuChipPagesMask
  if hit k r.nand.cache pageInChip col len then
    (true, { r.copy col mlen with maxBitflips := r.nand.cache.bitflips })
  else
    let p := readPage r.nand chipnr pageInChip r.nand.cache.simuPagebuf r.nand.cache.simuOobbuf
    let c : Cache cfg.writesize :=
      { r.nand.cache with
        simuPagebuf := p.mdata
        simuOobbuf := if k.oob then p.sdata else r.nand.cache.simuOobbuf }
    if p.ret ≠ eccLimit ∧ p.ret ≠ eccErr ∧ p.ret < 0 then
      (false, { r with nand := { r.nand with cache := c.invalidate }, ret := p.ret })
    else
      let limit := decide (p.ret = eccLimit)
      let maxBitflips := if limit then max r.maxBitflips cfg.bitflipThreshold else r.maxBitflips
      let c := if p.ret = eccErr then c.invalidate else c
      let r : Reading cfg :=
        { r with
          nand := { r.nand with
            cache := c.tag k chipnr pageInChip col mlen r.slen maxBitflips h }
          ret := if limit then (cfg.bitflipThreshold : Int) else p.ret
          maxBitflips := maxBitflips
          eccFailed := r.eccFailed || decide (p.ret = eccErr) }
      (true, r.copy col mlen)

/-- What is counted at the end of a page. -/
def Reading.advance (r : Reading cfg) (mlen : Nat) : Reading cfg :=
  let r := { r with hadReadlen := r.hadReadlen + mlen }
  if r.slen ≠ 0 then
    { r with
      hadReadOoblen := r.hadReadOoblen + r.slen
      ooblen := r.ooblen - r.slen
      slen := if 0 < r.ooblen - r.slen then r.slen else 0 }
  else r

/-- The chip that the next page is on. -/
def nextChip (cfg : Config) (chipnr page : Nat) : Nat :=
  if (page + 1) &&& cfg.simuChipPagesMask = 0 then chipnr + 1 else chipnr

/-- The loop of a reader. -/
def readLoop (k : Request) (r : Reading cfg) (chipnr page col len : Nat)
    (h : col < cfg.writesize) : Reading cfg :=
  let mlen := min (cfg.writesize - col) len
  let step := readStep k r chipnr page col len mlen (by omega)
  if step.1 then
    if len - mlen = 0 then step.2.advance mlen
    else
      readLoop k (step.2.advance mlen) (nextChip cfg chipnr page) (page + 1) 0 (len - mlen)
        cfg.writesize_pos
  else step.2
termination_by len
decreasing_by omega

/-- What a reader starts with. -/
def Reading.start (s : Nand cfg) (k : Request) (mdata sdata : Buffer) : Reading cfg where
  nand := s
  ret := 0
  maxBitflips := 0
  eccFailed := false
  hadReadlen := 0
  mdata := mdata
  slen := if k.oobbuf then min k.ooblen cfg.avalidSparesize else 0
  ooblen := k.ooblen
  hadReadOoblen := 0
  sdata := sdata

/-- What a reader returns. -/
def Reading.result (r : Reading cfg) : Int :=
  if r.ret < 0 then r.ret else if r.eccFailed then -ebadmsg else r.maxBitflips

/-- The two readers. -/
def readRange (s : Nand cfg) (k : Request) (start len : Nat) (mdata sdata : Buffer) : Reading cfg :=
  readLoop k (Reading.start s k mdata sdata) (start >>> cfg.geometry.chipShift)
    (start >>> cfg.simuPagesizeShift) (start &&& (cfg.writesize - 1)) len
    (lt_of_le_of_lt Nat.and_le_right (Nat.sub_lt cfg.writesize_pos Nat.one_pos))

/-- `aw_rawnand_mtd_read`. -/
def mtdRead (s : Nand cfg) (start len : Nat) (buf : Buffer) : Reading cfg :=
  readRange s Request.data start len buf fun _ => 0

/-- `aw_rawnand_mtd_read_oob`. -/
def mtdReadOob (s : Nand cfg) (start len ooboffs ooblen : Nat) (oobbuf : Bool)
    (datbuf sdata : Buffer) : Reading cfg :=
  readRange s { oob := true, ooboffs := ooboffs, ooblen := ooblen, oobbuf := oobbuf }
    start len datbuf sdata

/-- A page of a write that is not its last. The last page of a block is never programmed with the
    cache command. -/
def writeStep (s : Nand cfg) (chipnr pageInChip : Nat) : Int × Nand cfg :=
  if (pageInChip + 1) &&& cfg.geometry.pagesPerBlkMask = 0 then
    writePage s chipnr pageInChip s.cache.simuPagebuf cfg.writesize
  else if cfg.hasCacheprog then
    chipWritePage s chipnr pageInChip s.cache.simuPagebuf 0 cfg.writesize
  else writePage s chipnr pageInChip s.cache.simuPagebuf cfg.writesize

/-- The chip that a page of a write goes to, if the page before went to `chipnr`. -/
def writeChip (cfg : Config) (chipnr page pageInChipPre : Nat) : Nat :=
  let pageInChip := page &&& cfg.simuChipPagesMask
  if pageInChip = 0 ∧ pageInChip ≠ pageInChipPre then chipnr + 1 else chipnr

/-- The page buffer is filled from the caller's buffer. -/
def Nand.fill (s : Nand cfg) (col : Nat) (mdata : Buffer) (off mlen : Nat) : Nand cfg :=
  { s with cache := { s.cache with simuPagebuf := memcpy s.cache.simuPagebuf col mdata off mlen } }

/-- The pages of a write but its last: an error, or the chip and the state for the last one. -/
def writeLoop (mdata : Buffer) (pageInChipPre : Nat) :
    Nat → Nat → Nat → Nat → Nand cfg → Except (Int × Nand cfg) (Nat × Nand cfg)
  | 0, _, chipnr, _, s => .ok (chipnr, s)
  | left + 1, page, chipnr, off, s =>
    let chipnr := writeChip cfg chipnr page pageInChipPre
    let w := writeStep s chipnr (page &&& cfg.simuChipPagesMask)
    if w.1 ≠ 0 then .error w
    else
      writeLoop mdata pageInChipPre left (page + 1) chipnr (off + cfg.writesize)
        (w.2.fill 0 mdata (off + cfg.writesize) cfg.writesize)

/-- The last page of a write. -/
def writeLast (s : Nand cfg) (chipnr pageInChip : Nat) : Int × Nand cfg :=
  let s : Nand cfg :=
    { s with cache := { s.cache with
        simuPageno := pageInChip
        validCol := 0
        validLen := cfg.writesize
        simuOobno := pageInChip
        validOobCol := 0
        validOobLen := 0
        chipno := chipnr
        valid_le := by omega } }
  writePage s chipnr pageInChip s.cache.simuPagebuf cfg.writesize

/-- The end of `aw_rawnand_mtd_write_oob`. -/
def writeOut (w : Int × Nand cfg) : Int × Nand cfg :=
  if w.1 ≠ 0 then
    (w.1, { w.2 with cache := { w.2.cache with
      simuPageno := invalidCache, simuOobno := invalidCache } })
  else w

/-- The write of less than a page, at the start of one of the two blocks of a simulated block. A
    write behind the end of the page buffer has no result. -/
def writeSubPage (s : Nand cfg) (start len : Nat) (mdata : Buffer) : Option (Int × Nand cfg) :=
  let col := start &&& (cfg.writesize - 1)
  let blockA := (start >>> cfg.simuEraseShift) <<< 1
  let subPage :=
    if start &&& (cfg.simuErasesize - 1) ≠ 0 then (blockA + 1) <<< cfg.geometry.pagesPerBlkShift
    else blockA <<< cfg.geometry.pagesPerBlkShift
  let mlen := min len cfg.writesize
  if h : col + mlen ≤ cfg.writesize then
    let s := s.fill col mdata 0 mlen
    let chipnr := start >>> cfg.geometry.chipShift
    let s : Nand cfg :=
      { s with cache := { s.cache with
          simuPageno := start >>> cfg.simuPagesizeShift
          simuOobno := start >>> cfg.simuPagesizeShift
          validCol := col
          validLen := mlen
          validOobCol := 0
          validOobLen := 0
          chipno := chipnr
          valid_le := h } }
    some (writeOut (chipWritePage s chipnr (subPage &&& cfg.geometry.chipPagesMask)
      s.cache.simuPagebuf col cfg.pagesize))
  else none

/-- `aw_rawnand_mtd_write`: `aw_rawnand_mtd_write_oob` without spare bytes. -/
def mtdWrite (s : Nand cfg) (start len : Nat) (mdata : Buffer) : Option (Int × Nand cfg) :=
  if cfg.size < start + len then some (-einval, s)
  else if len < cfg.writesize then writeSubPage s start len mdata
  else
    let page := start >>> cfg.simuPagesizeShift
    let npage := len >>> cfg.simuPagesizeShift +
      if len &&& (cfg.writesize - 1) ≠ 0 then 1 else 0
    let col := start &&& (cfg.writesize - 1)
    if cfg.writesize < col + cfg.writesize then none
    else
      let pageInChipPre := page &&& cfg.simuChipPagesMask
      let s := s.fill col mdata 0 cfg.writesize
      match writeLoop mdata pageInChipPre (npage - 1) page
        (start >>> cfg.geometry.chipShift) 0 s with
      | .error w => some (writeOut w)
      | .ok (chipnr, s) =>
        let last := page + (npage - 1)
        some (writeOut (writeLast s (writeChip cfg chipnr last pageInChipPre)
          (last &&& cfg.simuChipPagesMask)))

/-- Blocks of a chip are filled with `0xff`. -/
def Nand.erase (s : Nand cfg) (log : Log) : Nand cfg :=
  { s with
    cell := fun chip page =>
      if (chip, page >>> cfg.geometry.pagesPerBlkShift) ∈ log then fun _ => 0xff
      else s.cell chip page
    spare := fun chip page =>
      if (chip, page >>> cfg.geometry.pagesPerBlkShift) ∈ log then fun _ => 0xff
      else s.spare chip page }

/-- The erase of a block of the device: the return code and the blocks of the chip that were
    erased. -/
def eraseDevBlock (cfg : Config) (chipnr pageInChip : Nat) : Int × Log :=
  let w := cfg.world
  let r := if cfg.simulateMultiplane then multiErase w chipnr pageInChip
    else chipErase w chipnr pageInChip
  (r.1, r.2.filter fun e => cfg.eraseOk e.1 e.2)

/-- The loop of `aw_rawnand_mtd_erase`, with an upper bound for the number of blocks. -/
def eraseLoop : Nat → Nat → Nat → Nat → Nand cfg → Option (Int × Nand cfg)
  | 0, _, _, _, _ => none
  | left + 1, page, chipnr, len, s =>
    let r := eraseDevBlock cfg chipnr (page &&& cfg.simuChipPagesMask)
    let s := s.erase r.2
    if r.1 ≠ 0 then some (r.1, s)
    else
      let len := (len + (2 ^ 64 - cfg.simuErasesize)) % 2 ^ 64
      let page' := page + 1 <<< cfg.geometry.pagesPerBlkShift
      let chipnr := if page' &&& cfg.simuChipPagesMask = 0 then chipnr + 1 else chipnr
      if 0 < len then eraseLoop left page' chipnr len s else some (0, s)

/-- `aw_rawnand_mtd_erase`. With a length that is no number of blocks it goes on behind the end of
    the device: no result. -/
def mtdErase (s : Nand cfg) (addr len : Nat) : Option (Int × Nand cfg) :=
  if addr &&& (cfg.geometry.erasesize - 1) ≠ 0 ∨ len &&& (cfg.geometry.erasesize - 1) ≠ 0 ∨
      cfg.size < addr + len then some (-einval, s)
  else
    eraseLoop (cfg.size / cfg.simuErasesize + 1) (addr >>> cfg.simuPagesizeShift)
      (addr >>> cfg.geometry.chipShift) len s

end

end Brandy.RawNand
