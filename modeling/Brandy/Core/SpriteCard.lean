import Brandy.Core.Gpt
import Brandy.Core.Sparse
import Brandy.Library.Sectors

/-!
# Installing from a Card

How a partition is copied from a card to the flash by `__download_normal_part`, and the erasure
`card_erase`, both from `sprite/sprite_card.c`. Sector numbers are `uint`, so a cursor goes on at 0
behind the last one.

## Main definitions

* `Loader`, `Run`: The build with the outcomes of the transfers, and a run.
* `downloadNormalPart`: The copy of a partition.
* `cardErase`: The erasure.
-/

namespace Brandy.SpriteCard

open Memory Word Sectors Gpt

/-- The part of `dl_one_part_info` that the copying uses. -/
structure PartInfo where
  addrlo : Nat
  lenlo : Nat
  lenlo_lt : lenlo < 2 ^ 32

/-- The size of an image item in bytes, and the sector of the card where it starts. -/
structure Item where
  size : Int
  start : Nat

/-- The card with the image, in sectors of 512 bytes. -/
structure Card where
  disk : Disk
  length_eq : ∀ s, (disk s).length = 512

/-- The build, and which of the reads and writes succeed, by their number. -/
structure Loader where
  spinor : Bool
  ok : Nat → Bool

/-- `SPRITE_CARD_ONCE_SECTOR_DEAL`, which is smaller with `CONFIG_SUNXI_SPINOR`. -/
def Loader.once (l : Loader) : Nat := if l.spinor then 4096 else 32768

theorem Loader.once_pos (l : Loader) : 0 < l.once := by
  unfold once
  split <;> decide

/-- The memory with the buffer at address 0, the target, and the number of reads and writes. -/
structure Run where
  mem : Mem
  target : Disk
  ops : Nat

/-- `sunxi_flash_read` from the card to the buffer. -/
def flashRead (l : Loader) (card : Card) (start n : Nat) (r : Run) : Option Run :=
  if l.ok r.ops then some { r with mem := store r.mem 0 (get card.disk start n), ops := r.ops + 1 }
  else none

/-- `sunxi_sprite_write` from the buffer to the target. -/
def spriteWrite (l : Loader) (start n : Nat) (r : Run) : Option Run :=
  if l.ok r.ops then
    some { r with target := put r.target start (read r.mem 0 (n * 512)), ops := r.ops + 1 }
  else none

/-- The loop over the whole pieces with its three cursors, and the piece that is left. -/
def rawLoop (l : Loader) (card : Card) (imgfileStart partstart bytes : Nat) (r : Run) :
    Option Run :=
  if l.once * 512 ≤ bytes then do
    let r ← flashRead l card imgfileStart l.once r
    let r ← spriteWrite l partstart l.once r
    rawLoop l card (u32 (imgfileStart + l.once)) (u32 (partstart + l.once)) (bytes - l.once * 512) r
  else if 0 < bytes then do
    let restSectors := (bytes + 511) / 512
    let r ← flashRead l card imgfileStart restSectors r
    spriteWrite l partstart restSectors r
  else some r
termination_by bytes
decreasing_by
  have := l.once_pos
  omega

/-- What the copying comes to. A sparse image goes to the decoder, with its first piece in the
    buffer and the rest behind `tmpImgfileStart`. -/
inductive Copied where
  | raw (r : Run)
  | sparse (s : Sparse.Statics) (tmpImgfileStart : Nat) (r : Run)

/-- The sectors and the bytes of the first piece. -/
def Loader.first (l : Loader) (bytes : Nat) : Nat × Nat :=
  if l.once * 512 ≤ bytes then (l.once, l.once * 512) else ((bytes + 511) / 512, bytes)

/-- `__download_normal_part` up to the verification. -/
def downloadNormalPart (l : Loader) (card : Card) (part : PartInfo) (item : Option Item)
    (s : Sparse.Statics) (r : Run) : Option Copied := do
  let item ← item
  if item.size ≤ 0 then none
  else if part.lenlo * 512 < item.size then none
  else
    let bytes := item.size.toNat
    let (onetimeReadSectors, firstWriteBytes) := l.first bytes
    if item.start = 0 then none
    else
      let r ← flashRead l card item.start onetimeReadSectors r
      let tmpImgfileStart := u32 (item.start + onetimeReadSectors)
      let (format, s) := Sparse.unsparseProbe r.mem 0 part.addrlo s
      if format ≠ 1 then
        let r ← spriteWrite l part.addrlo onetimeReadSectors r
        let r ← rawLoop l card tmpImgfileStart (u32 (part.addrlo + onetimeReadSectors))
          (bytes - firstWriteBytes) r
        return .raw r
      else return .sparse s tmpImgfileStart r

/-- The zeros that are written: to the boot0 areas, to sectors of the device, and to sectors by
    their logical numbers. -/
inductive Wipe where
  | boot0
  | phys (start n : Nat)
  | logical (start n : Nat)

/-- The board. `phyerase` has the result of an erasure and the two ranges of `skip_space` whose bits
    are set, and `ok` the writes that succeed, by number. -/
structure Eraser where
  memalign : Bool
  eraseBoot0 : Int
  logicalOffset : Nat
  phyerase : Nat → Nat → Int × List (Nat × Nat)
  ok : Nat → Bool

def cardEraseBlockSectors : Nat := 8 * 1024 * 1024 / 512

/-- One write. -/
def Eraser.wipe (e : Eraser) (log : List Wipe) (w : Wipe) : Option (List Wipe) :=
  if e.ok log.length then some (log ++ [w]) else none

/-- The head and the tail of a partition, each with its start and its number of sectors. -/
def eraseRanges (addr len : Nat) : (Nat × Nat) × (Nat × Nat) :=
  if cardEraseBlockSectors * 2 < len then
    ((addr, cardEraseBlockSectors), u32 (addr + len - cardEraseBlockSectors), 4096)
  else if cardEraseBlockSectors < len then
    ((addr, cardEraseBlockSectors), u32 (addr + len - 4096), 4096)
  else if 0 < len then ((addr, len), addr, 0)
  else ((addr, cardEraseBlockSectors), addr, 0)

/-- A turn of the loop over the partitions. -/
def erasePart (e : Eraser) (mbr : Mem) (log : List Wipe) (i : Nat) : Option (List Wipe) :=
  let (head, tail) := eraseRanges (addrlo mbr i) (lenlo mbr i)
  let (ret, skipSpace) := e.phyerase (u32 (addrlo mbr i + e.logicalOffset)) (lenlo mbr i)
  if ret = 1 then skipSpace.foldlM (fun log r => e.wipe log (.phys r.1 r.2)) log
  else if ret = -1 then do
    let log ← e.wipe log (.logical head.1 head.2)
    if tail.2 ≠ 0 then e.wipe log (.logical tail.1 tail.2) else some log
  else some log

def cardErase (e : Eraser) (erase : Bool) (mbr : Mem) : Option (List Wipe) :=
  if !erase then some []
  else if !e.memalign then none
  else if e.eraseBoot0 ≠ 0 then none
  else (List.range' 1 (partCount mbr - 1)).foldlM (erasePart e mbr) [.boot0]

end Brandy.SpriteCard
