import Brandy.Core.StoreObject
import Brandy.Library.Word

/-!
# Secure Storage on an eMMC Card

The secure storage functions of `drivers/sunxi_flash/mmc/sdmmc.c`. Every item has two copies of
eight blocks, side by side on the card.

The work mode picks one of two families of access functions, which use the handle `mmc_boot` or
`mmc_sprite` of the same card. `mmc_sprite` may be NULL, and only the first-copy reader of the
sprite family looks before it uses it; the other two functions have no result (`none`) then.

A block transfer fails when the card refuses one of its blocks. The buffer is part of the result
only where the code returns 0. Which of two buffers the data passes through is left out.

## Main definitions

* `Card`, `Emmc`: The card, and the storage with its two handles.
* `mmcSecureStorageRead`, `mmcSecureStorageWrite`: An item is read or written.
-/

namespace Brandy.MmcSec

open Memory Word StoreObject

def maxSecureStorageMaxItem : Nat := 32

/-- `SDMMC_ITEM_SIZE`, in blocks. -/
def sdmmcItemSize : Nat := 4 * 1024 / 512

/-- The card: its bytes, and the blocks it reads and writes without error. -/
structure Card where
  byte : Mem
  readable : Nat → Bool
  writable : Nat → Bool

/-- The card, the block the storage starts at, and whether `mmc_sprite` is set. -/
structure Emmc where
  card : Card
  secStorage : Nat
  mmcSprite : Bool

/-- `block_read`. The driver returns the number of blocks it read, which the callers only compare
    with `nblock`. -/
def Card.blockRead (c : Card) (start nblock : Nat) : Option (List UInt8) :=
  if (List.range nblock).all (fun i => c.readable (start + i)) then
    some (read c.byte (512 * start : Nat) (512 * nblock))
  else none

def Card.blockWrite (c : Card) (start nblock : Nat) (buf : List UInt8) : Option Card :=
  if (List.range nblock).all (fun i => c.writable (start + i)) then
    some { c with byte := store c.byte (512 * start : Nat) (buf.take (512 * nblock)) }
  else none

/-- The first block of a copy of an item. -/
def Emmc.copyBlock (e : Emmc) (item copy : Nat) : Nat :=
  e.secStorage + sdmmcItemSize * 2 * item + sdmmcItemSize * copy

/-- The readers of one copy: the return code and the buffer. -/
def mmcItemRead (e : Emmc) (copy item nblock : Nat) : Int × List UInt8 :=
  if maxSecureStorageMaxItem < item then (-1, [])
  else if sdmmcItemSize < nblock then (-1, [])
  else
    match e.card.blockRead (e.copyBlock item copy) nblock with
    | none => (-1, [])
    | some buf => (0, buf)

/-- The writers of both copies. -/
def mmcItemWrite (e : Emmc) (item : Nat) (buf : List UInt8) (nblock : Nat) : Int × Emmc :=
  if maxSecureStorageMaxItem < item then (-1, e)
  else if sdmmcItemSize < nblock then (-1, e)
  else
    match e.card.blockWrite (e.copyBlock item 0) nblock buf with
    | none => (-1, e)
    | some card =>
      match card.blockWrite (e.copyBlock item 1) nblock buf with
      | none => (-1, { e with card := card })
      | some card => (0, { e with card := card })

def sunxiFlashMmcSecread (e : Emmc) : Nat → Nat → Int × List UInt8 := mmcItemRead e 0

def sunxiFlashMmcSecreadBackup (e : Emmc) : Nat → Nat → Int × List UInt8 := mmcItemRead e 1

def sunxiFlashMmcSecwrite (e : Emmc) : Nat → List UInt8 → Nat → Int × Emmc := mmcItemWrite e

/-- `sunxi_sprite_mmc_secread`: without `mmc_sprite` it uses `mmc_boot`. -/
def sunxiSpriteMmcSecread (e : Emmc) : Nat → Nat → Int × List UInt8 := mmcItemRead e 0

def sunxiSpriteMmcSecreadBackup (e : Emmc) (item nblock : Nat) : Option (Int × List UInt8) :=
  if e.mmcSprite then some (mmcItemRead e 1 item nblock) else none

def sunxiSpriteMmcSecwrite (e : Emmc) (item : Nat) (buf : List UInt8) (nblock : Nat) :
    Option (Int × Emmc) :=
  if e.mmcSprite then some (mmcItemWrite e item buf nblock) else none

/-- The family of access functions a work mode selects. -/
inductive Family where
  | flash
  | sprite
  | err
  deriving DecidableEq, Repr

/-- `WORK_MODE_BOOT` and `WORK_MODE_SPRITE_RECOVERY` select the first family, `WORK_MODE_PRODUCT` or
    0x30 the second. -/
def family (workmode : Nat) : Family :=
  if workmode = 0 ∨ workmode = 0x13 then .flash
  else if workmode &&& 0x10 ≠ 0 ∨ workmode = 0x30 then .sprite
  else .err

/-- The number of blocks of a buffer. -/
def blkcnt (len : Nat) : Nat := u32 (len + 511) / 512

/-- The second half of `mmc_secure_storage_read_key`: check copy 1. -/
def checkCopy1 (len : Nat) (copy1 : Int × List UInt8) : Int × List UInt8 :=
  if copy1.1 = 0 ∧ checkSecureStorageKey copy1.2 = 0 then (0, copy1.2.take len) else (-1, [])

def mmcSecureStorageReadKey (e : Emmc) (workmode item len : Nat) : Option (Int × List UInt8) :=
  match family workmode with
  | .err => some (-1, [])
  | .flash =>
    let (ret, align) := sunxiFlashMmcSecread e item (blkcnt len)
    if ret = 0 ∧ checkSecureStorageKey align = 0 then some (0, align.take len)
    else
      -- the reader returns 0 or -1, and is compared with the block count
      let (ret, align) := sunxiFlashMmcSecreadBackup e item (blkcnt len)
      some (checkCopy1 len (if ret = blkcnt len then 0 else -1, align))
  | .sprite =>
    let (ret, align) := sunxiSpriteMmcSecread e item (blkcnt len)
    if ret = 0 ∧ checkSecureStorageKey align = 0 then some (0, align.take len)
    else (sunxiSpriteMmcSecreadBackup e item (blkcnt len)).map (checkCopy1 len)

/-- `mmc_secure_storage_read_map`, with the reader its work mode selects, also for the second
    attempt; a map that fails its check there is delivered as an empty one. -/
def readMapTwice (secread : Nat → Nat → Int × List UInt8) (item len : Nat) : Int × List UInt8 :=
  let (ret, align) := secread item (blkcnt len)
  if ret = 0 ∧ checkSecureStorageMap align = 0 then (0, align.take len)
  else
    let (ret, align) := secread item (blkcnt len)
    if ret = 0 then
      if checkSecureStorageMap align = 0 then (0, align.take len)
      else (0, List.replicate len 0)
    else (-1, [])

def mmcSecureStorageReadMap (e : Emmc) (workmode item len : Nat) : Int × List UInt8 :=
  match family workmode with
  | .err => (-1, [])
  | .flash => readMapTwice (sunxiFlashMmcSecread e) item len
  | .sprite => readMapTwice (sunxiSpriteMmcSecread e) item len

/-- `mmc_secure_storage_read`: the return code, and the buffer when it is 0. -/
def mmcSecureStorageRead (e : Emmc) (workmode item len : Nat) : Option (Int × List UInt8) :=
  if item = 0 then some (mmcSecureStorageReadMap e workmode item len)
  else mmcSecureStorageReadKey e workmode item len

def mmcSecureStorageWrite (e : Emmc) (workmode item : Nat) (buf : List UInt8) (len : Nat) :
    Option (Int × Emmc) :=
  match family workmode with
  | .err => some (-1, e)
  | .flash => some (sunxiFlashMmcSecwrite e item buf (blkcnt len))
  | .sprite => sunxiSpriteMmcSecwrite e item buf (blkcnt len)

end Brandy.MmcSec
