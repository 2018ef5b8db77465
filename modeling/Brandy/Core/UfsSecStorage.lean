import Brandy.Core.MmcSecStorage
import Brandy.Core.Ufs

/-!
# Secure Storage on a UFS Device

The secure storage functions of `drivers/sunxi_flash/ufs/sunxi_ufs.c`. They follow those of the eMMC
card line by line (`MmcSec`). Here the functions of the second family only call those of the first,
and the sectors are made out of larger blocks.

A call has no result (`none`) where the transfer has none. The buffer `align` is the caller's, or an
inner one filled with zeros first, and is part of the result only where the code returns 0.

## Main definitions

* `Storage`: The device, and where the storage is on it.
* `secureStorageRead`, `secureStorageWrite`: An item is read or written.
-/

namespace Brandy.Ufs

open StoreObject
open MmcSec (family blkcnt)

/-- `SUNXI_UFS_MAX_SECURE_STORAGE_MAX_ITEM`. -/
def maxSecureStorageMaxItem : Nat := 32

/-- `SUNXI_UFS_ITEM_SIZE`, in sectors. -/
def itemSize : Nat := 4 * 1024 / 512

/-- The device, and the offset of `SEC_STORAGE` in its flash map. -/
structure Storage where
  device : Device
  secStorage : Nat

/-- The first sector of a copy of an item, an unsigned number of 32 bits. -/
def Storage.copySector (e : Storage) (item copy : Nat) : Nat :=
  (e.secStorage + itemSize * 2 * item + itemSize * copy) % 2 ^ 32

/-- The readers of one copy: the return code and the buffer. -/
def itemRead (e : Storage) (copy item nblock : Nat) (buf : Buffer) : Option (Int × Buffer) :=
  if maxSecureStorageMaxItem < item then some (-1, buf)
  else if itemSize < nblock then some (-1, buf)
  else
    (phyread e.device (e.copySector item copy) nblock buf).map fun r =>
      (if r.1 ≠ nblock then -1 else 0, r.2)

/-- The writers of both copies. -/
def itemWrite (e : Storage) (item : Nat) (buf : Buffer) (nblock : Nat) : Option (Int × Storage) :=
  if maxSecureStorageMaxItem < item then some (-1, e)
  else if itemSize < nblock then some (-1, e)
  else
    (phywrite e.device (e.copySector item 0) nblock buf).bind fun r =>
      if r.1 ≠ nblock then some (-1, { e with device := r.2 })
      else
        (phywrite r.2 (e.copySector item 1) nblock buf).map fun r =>
          (if r.1 ≠ nblock then -1 else 0, { e with device := r.2 })

/-- `sunxi_flash_ufs_secread`. -/
def flashUfsSecread (e : Storage) : Nat → Nat → Buffer → Option (Int × Buffer) := itemRead e 0

/-- `sunxi_flash_ufs_secread_backup`. -/
def flashUfsSecreadBackup (e : Storage) : Nat → Nat → Buffer → Option (Int × Buffer) :=
  itemRead e 1

/-- `sunxi_flash_ufs_secwrite`. -/
def flashUfsSecwrite (e : Storage) : Nat → Buffer → Nat → Option (Int × Storage) := itemWrite e

/-- `sunxi_sprite_ufs_secread`. -/
def spriteUfsSecread (e : Storage) : Nat → Nat → Buffer → Option (Int × Buffer) := flashUfsSecread e

/-- `sunxi_sprite_ufs_secread_backup`. -/
def spriteUfsSecreadBackup (e : Storage) : Nat → Nat → Buffer → Option (Int × Buffer) :=
  flashUfsSecreadBackup e

/-- `sunxi_sprite_ufs_secwrite`. -/
def spriteUfsSecwrite (e : Storage) : Nat → Buffer → Nat → Option (Int × Storage) :=
  flashUfsSecwrite e

/-- The buffer with its first bytes set to zero. -/
def clear (align : Buffer) (len : Nat) : Buffer := Buffer.memcpy align 0 (fun _ => 0) 0 len

/-- Reading copy 0 of a key: its content if it is good, and otherwise the buffer for the next
    try. -/
def readCopy0 (secread : Nat → Nat → Buffer → Option (Int × Buffer)) (item len : Nat)
    (align : Buffer) : Option (List UInt8 ⊕ Buffer) :=
  (secread item (blkcnt len) align).map fun r =>
    if r.1 = 0 ∧ checkSecureStorageKey (r.2.bytes secBlkSize) = 0 then .inl (r.2.bytes len)
    else .inr (clear r.2 len)

/-- Checking copy 1 of a key. -/
def checkCopy1 (len : Nat) (ret : Int) (align : Buffer) : Int × List UInt8 :=
  if ret = 0 ∧ checkSecureStorageKey (align.bytes secBlkSize) = 0 then (0, align.bytes len)
  else (-1, [])

/-- `sunxi_ufs_secure_storage_read_key`. -/
def secureStorageReadKey (e : Storage) (workmode item len : Nat) (align : Buffer) :
    Option (Int × List UInt8) :=
  match family workmode with
  | .err => some (-1, [])
  | .flash =>
    (readCopy0 (flashUfsSecread e) item len align).bind fun
      | .inl content => some (0, content)
      | .inr align =>
        -- the reader returns 0 or -1, and is compared with the number of sectors
        (flashUfsSecreadBackup e item (blkcnt len) align).map fun r =>
          checkCopy1 len (if r.1 = (blkcnt len : Int) then 0 else -1) r.2
  | .sprite =>
    (readCopy0 (spriteUfsSecread e) item len align).bind fun
      | .inl content => some (0, content)
      | .inr align =>
        (spriteUfsSecreadBackup e item (blkcnt len) align).map fun r => checkCopy1 len r.1 r.2

/-- `sunxi_ufs_secure_storage_read_map`, with the reader its work mode selects, also for the second
    attempt; a map that fails its check there is delivered as an empty one. -/
def readMapTwice (secread : Nat → Nat → Buffer → Option (Int × Buffer)) (item len : Nat)
    (align : Buffer) : Option (Int × List UInt8) :=
  (secread item (blkcnt len) align).bind fun r =>
    if r.1 = 0 ∧ checkSecureStorageMap (r.2.bytes secBlkSize) = 0 then some (0, r.2.bytes len)
    else
      (secread item (blkcnt len) (clear r.2 len)).map fun r =>
        if r.1 = 0 then
          if checkSecureStorageMap (r.2.bytes secBlkSize) = 0 then (0, r.2.bytes len)
          else (0, (clear r.2 len).bytes len)
        else (-1, [])

/-- `sunxi_ufs_secure_storage_read_map`. -/
def secureStorageReadMap (e : Storage) (workmode item len : Nat) (align : Buffer) :
    Option (Int × List UInt8) :=
  match family workmode with
  | .err => some (-1, [])
  | .flash => readMapTwice (flashUfsSecread e) item len align
  | .sprite => readMapTwice (spriteUfsSecread e) item len align

/-- `sunxi_ufs_secure_storage_read`: the return code, and the bytes of the buffer when it is 0. -/
def secureStorageRead (e : Storage) (workmode item len : Nat) (align : Buffer) :
    Option (Int × List UInt8) :=
  if item = 0 then secureStorageReadMap e workmode item len align
  else secureStorageReadKey e workmode item len align

/-- `sunxi_ufs_secure_storage_write`. -/
def secureStorageWrite (e : Storage) (workmode item : Nat) (buf : Buffer) (len : Nat) :
    Option (Int × Storage) :=
  match family workmode with
  | .err => some (-1, e)
  | .flash => flashUfsSecwrite e item buf (blkcnt len)
  | .sprite => spriteUfsSecwrite e item buf (blkcnt len)

end Brandy.Ufs
