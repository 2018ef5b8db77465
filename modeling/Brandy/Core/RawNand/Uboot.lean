import Brandy.Core.Checksum
import Brandy.Core.RawNand.Mtd

/-!
# U-Boot on a Raw NAND

`rawslcnand_mtd_download_uboot` and `rawslcnand_mtd_upload_uboot` of `aw_rawnand_spl.c`. The first
one writes as many copies of the boot package as the U-Boot area has room for, each from the start
of a block on. The second one reads the area and is meant to deliver the first copy that is in
order.

The pages are those of the first chip. Spare bytes and the allocation of `mbuf` are left out. The
counters are not wrapped: the area is smaller than what an `int` counts.

## Main definitions

* `UbootFlash`: The chip, and the U-Boot area on it.
* `uploadUboot`, `downloadUboot`: The package is read or written.
-/

namespace Brandy.RawNand

open Buffer (memcpy)
open Memory (leValue)

def tocMainInfoMagic : Nat := 0x89119800

/-- A word of `sbrom_toc1_head_info_t`. -/
def headWord (buf : Buffer) (off : Nat) : Nat := leValue (Buffer.bytes (fun i => buf (off + i)) 4)

/-- `magic`. -/
def headMagic (buf : Buffer) : Nat := headWord buf 16

/-- `add_sum`. -/
def headAddSum (buf : Buffer) : Nat := headWord buf 20

/-- `valid_len`. -/
def headValidLen (buf : Buffer) : Nat := headWord buf 36

/-- `sunxi_sprite_generate_checksum`. -/
def spriteGenerateChecksum (buf : Buffer) (length srcSum : Nat) : Nat :=
  Checksum.generateChecksum (fun a => buf a.toNat) length 1 srcSum

/-- The checksum over `length` bytes of a package is the one in its head. -/
def SumOk (buf : Buffer) (length : Nat) : Prop :=
  spriteGenerateChecksum buf length (headAddSum buf) = headAddSum buf

instance (buf : Buffer) (length : Nat) : Decidable (SumOk buf length) :=
  inferInstanceAs (Decidable (_ = _))

/-- A buffer holds a package of at most `len` bytes with the right magic word and checksum. -/
structure Verified (buf : Buffer) (len : Nat) : Prop where
  magic : headMagic buf = tocMainInfoMagic
  length : headValidLen buf ≤ len
  sum : SumOk buf (headValidLen buf)

/-- The chip and its blocks that `block_bad` reports. A page has at least one sector, and the U-Boot
    area is on the chip. -/
structure UbootFlash where
  cfg : Config
  nand : Nand cfg
  blockBad : Nat → Bool
  sector_le : 9 ≤ cfg.geometry.pagesizeShift
  area_le : (ubootBlknum cfg.geometry).2 ≤ cfg.geometry.blocks

namespace UbootFlash

variable (f : UbootFlash)

/-- The size of a page. -/
def pagesize : Nat := f.cfg.pagesize

def pagesPerBlk : Nat := 1 <<< f.cfg.geometry.pagesPerBlkShift

/-- The first page of a block. -/
def firstPage (blk : Nat) : Nat := blk <<< f.cfg.geometry.pagesPerBlkShift

/-- The blocks of the U-Boot area. -/
def area : List Nat :=
  List.range' (ubootBlknum f.cfg.geometry).1
    ((ubootBlknum f.cfg.geometry).2 - (ubootBlknum f.cfg.geometry).1)

end UbootFlash

/-- What `mdata` points into. -/
inductive Target where
  | buf
  | mbuf
  deriving DecidableEq, Repr

/-- The variables of the reader. `mdata` is `off` bytes behind the start of its target. -/
structure Upload where
  ret : Int
  hadReadLen : Nat
  mdata : Target
  off : Nat
  buf : Buffer
  mbuf : Buffer

/-- How the reader leaves a page: it goes on, or with a break or a `goto`. `ubootLen` is the length
    of the checked package. -/
inductive PageEnd where
  | more
  | readFail
  | wrongMagic
  | tooLong
  | wrongSum (ubootLen : Nat)
  | accepted (ubootLen : Nat)
  deriving DecidableEq, Repr

/-- The two ends that leave the function. -/
def PageEnd.out : PageEnd → Bool
  | .tooLong => true
  | .accepted _ => true
  | _ => false

/-- A page is read to where `mdata` points. -/
def Upload.read (u : Upload) (f : UbootFlash) (page : Nat) : Upload :=
  match u.mdata with
  | .buf =>
    let r := chipReadPage f.nand 0 page u.off 0 u.buf fun _ => 0
    { u with ret := r.ret, buf := r.mdata }
  | .mbuf =>
    let r := chipReadPage f.nand 0 page u.off 0 u.mbuf fun _ => 0
    { u with ret := r.ret, mbuf := r.mdata }

/-- The end of a page that was read, when the package is not too long. The last page of a package is
    copied from `mbuf`. -/
def uploadCheck (f : UbootFlash) (u : Upload) (ubootLen : Nat) : PageEnd × Upload :=
  let done := ubootLen ≤ u.hadReadLen
  let last := u.hadReadLen - f.pagesize
  let u := if done then { u with buf := memcpy u.buf last u.mbuf 0 (ubootLen - last) } else u
  let u := if (ubootLen + (2 ^ 32 - u.hadReadLen)) % 2 ^ 32 ≤ f.pagesize then
      { u with mdata := .mbuf, off := 0 }
    else u
  if done then
    let u := { u with hadReadLen := 0 }
    if SumOk u.buf ubootLen then (.accepted ubootLen, { u with ret := 0 })
    else (.wrongSum ubootLen, u)
  else (.more, u)

/-- One page of `rawslcnand_mtd_upload_uboot`. -/
def uploadPage (f : UbootFlash) (len page : Nat) (u : Upload) : PageEnd × Upload :=
  let u := u.read f page
  if u.ret ≠ 0 then (.readFail, u)
  else
    let u := { u with hadReadLen := u.hadReadLen + f.pagesize, off := u.off + f.pagesize }
    if headMagic u.buf ≠ tocMainInfoMagic then (.wrongMagic, { u with hadReadLen := 0 })
    else if len < headValidLen u.buf then (.tooLong, u)
    else uploadCheck f u (headValidLen u.buf)

/-- The loop over the pages of a block. -/
def uploadPages (f : UbootFlash) (len : Nat) : Nat → Nat → Upload → PageEnd × Upload
  | 0, _, u => (.more, u)
  | left + 1, page, u =>
    let r := uploadPage f len page u
    if r.1 = .more then uploadPages f len left (page + 1) r.2 else r

/-- A block that is not bad. -/
def uploadBlock (f : UbootFlash) (len blk : Nat) (u : Upload) : PageEnd × Upload :=
  uploadPages f len f.pagesPerBlk (f.firstPage blk)
    (if u.hadReadLen = 0 then { u with mdata := .buf, off := 0 } else u)

/-- The loop over the blocks, with the end of the last page that was tried. -/
def uploadBlocks (f : UbootFlash) (len : Nat) :
    List Nat → Option PageEnd × Upload → Option PageEnd × Upload
  | [], r => r
  | blk :: rest, r =>
    if f.blockBad blk then uploadBlocks f len rest r
    else
      let b := uploadBlock f len blk r.2
      if b.1.out then (some b.1, b.2) else uploadBlocks f len rest (some b.1, b.2)

/-- What the reader starts with. -/
def Upload.start (buf : Buffer) : Upload where
  ret := -1
  hadReadLen := 0
  mdata := .buf
  off := 0
  buf := buf
  mbuf := fun _ => 0

/-- `rawslcnand_mtd_upload_uboot`. It returns `ret`, and the package is in `buf`. -/
def uploadUboot (f : UbootFlash) (len : Nat) (buf : Buffer) : Option PageEnd × Upload :=
  uploadBlocks f len f.area (none, Upload.start buf)

/-- The variables of the writer. -/
structure Download (cfg : Config) where
  nand : Nand cfg
  writenLen : Nat
  mdata : Target
  off : Nat
  mbuf : Buffer
  copy : Nat
  failFlag : Bool

/-- Pages from `page` on are filled with `0x55`. -/
def fillPages {cfg : Config} : Nat → Nat → Nand cfg → Nand cfg
  | 0, _, s => s
  | left + 1, page, s =>
    fillPages left (page + 1) (chipWritePage s 0 page (fun _ => 0x55) 0 cfg.pagesize).2

/-- `rawnand_mtd_download_uboot_fill_remain_pages_in_block`, up to the end of the block that the
    page is in. -/
def fillRemainPages {cfg : Config} (s : Nand cfg) (page : Nat) : Nand cfg :=
  let k := cfg.geometry.pagesPerBlkShift
  fillPages ((((page >>> k) + 1) <<< k) - page) page s

/-- One page of `rawslcnand_mtd_download_uboot`: whether the copy is complete, and the variables. -/
def downloadPage {cfg : Config} (len : Nat) (buf : Buffer) (page : Nat) (d : Download cfg) :
    Bool × Download cfg :=
  let src := match d.mdata with
    | .buf => buf
    | .mbuf => d.mbuf
  let w := chipWritePage d.nand 0 page src d.off cfg.pagesize
  let d := { d with
    nand := w.2
    failFlag := d.failFlag || decide (w.1 ≠ 0)
    writenLen := d.writenLen + cfg.pagesize
    off := d.off + cfg.pagesize }
  let rest := (len + (2 ^ 32 - d.writenLen)) % 2 ^ 32
  let d := if rest < cfg.pagesize ∧ 0 < rest then
      { d with mbuf := memcpy d.mbuf 0 src d.off rest, mdata := .mbuf, off := 0 }
    else d
  if len ≤ d.writenLen then
    (true, { d with
      nand := fillRemainPages d.nand (page + 1)
      copy := if d.failFlag then d.copy else d.copy + 1
      writenLen := 0 })
  else (false, d)

/-- The loop over the pages of a block. -/
def downloadPages {cfg : Config} (len : Nat) (buf : Buffer) :
    Nat → Nat → Download cfg → Download cfg
  | 0, _, d => d
  | left + 1, page, d =>
    let r := downloadPage len buf page d
    if r.1 then r.2 else downloadPages len buf left (page + 1) r.2

/-- A block is erased. -/
def eraseUbootBlock {cfg : Config} (s : Nand cfg) (page : Nat) : Int × Nand cfg :=
  let r := chipErase cfg.world 0 page
  (r.1, s.erase (r.2.filter fun e => cfg.eraseOk e.1 e.2))

/-- The loop over the blocks. A block that cannot be erased is left out. -/
def downloadBlocks (f : UbootFlash) (len : Nat) (buf : Buffer) :
    List Nat → Download f.cfg → Download f.cfg
  | [], d => d
  | blk :: rest, d =>
    if f.blockBad blk then downloadBlocks f len buf rest d
    else
      let e := eraseUbootBlock d.nand (f.firstPage blk)
      let d := { d with nand := e.2 }
      if e.1 ≠ 0 then downloadBlocks f len buf rest d
      else
        downloadBlocks f len buf rest (downloadPages len buf f.pagesPerBlk (f.firstPage blk)
          (if d.writenLen = 0 then { d with mdata := .buf, off := 0 } else d))

/-- What the writer starts with. -/
def Download.start {cfg : Config} (s : Nand cfg) : Download cfg where
  nand := s
  writenLen := 0
  mdata := .buf
  off := 0
  mbuf := fun _ => 0
  copy := 0
  failFlag := false

/-- `rawslcnand_mtd_download_uboot`: the return code, and the chip. -/
def downloadUboot (f : UbootFlash) (len : Nat) (buf : Buffer) : Int × UbootFlash :=
  let d := downloadBlocks f len buf f.area (Download.start f.nand)
  (if d.copy ≠ 0 then 0 else -1, { f with nand := d.nand })

end Brandy.RawNand
