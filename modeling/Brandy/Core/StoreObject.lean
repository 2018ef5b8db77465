import Brandy.Library.Memory
import Brandy.Library.Text

/-!
# Self-Checking Storage Items

The 4096-byte items of the secure storage. Item 0 is the name map, `struct map_info`, with a magic
word and a checksum in its last eight bytes. The other items are `store_object_t`, which starts with
the magic word and ends with its checksum.

`crc32` from `lib/crc32.c` runs over whole words where it can, which on its little-endian machine is
the bytewise computation modelled here.

## Main definitions

* `crc32`: The checksum.
* `checkSecureStorageMap`, `checkSecureStorageKey`: The checks of an item.
-/

namespace Brandy.StoreObject

open Memory Text

/-- One bit of an entry of `crc_table`. -/
def crcBit (c : UInt32) : UInt32 :=
  if c &&& 1 = 1 then (0xedb88320 : UInt32) ^^^ (c >>> 1) else c >>> 1

/-- An entry of `crc_table`. -/
def crcTable (n : UInt32) : UInt32 :=
  Nat.iterate crcBit 8 n

def crc32NoComp (crc : UInt32) (buf : List UInt8) : UInt32 :=
  buf.foldl (fun crc b => crcTable ((crc ^^^ b.toUInt32) &&& 255) ^^^ (crc >>> 8)) crc

def crc32 (crc : UInt32) (p : List UInt8) : UInt32 :=
  crc32NoComp (crc ^^^ 0xffffffff) p ^^^ 0xffffffff

def secBlkSize : Nat := 4096

def storeObjectMagic : Nat := 0x17253948

/-- The 32-bit field of a buffer at an offset. -/
def field (buffer : List UInt8) (off : Nat) : Nat := leValue ((buffer.drop off).take 4)

/-- `sizeof(((struct map_info *)0)->data)`: where the magic word of the map is. -/
def mapDataSize : Nat := secBlkSize - 8

def checkSecureStorageMap (buffer : List UInt8) : Int :=
  if field buffer mapDataSize ≠ storeObjectMagic then 2
  else if field buffer (mapDataSize + 4) ≠ (crc32 0 (buffer.take (mapDataSize + 4))).toNat then -1
  else 0

/-- `sizeof(store_object_t) - 4`: where the checksum of a key is. -/
def storeObjectCrc : Nat := 4 + 4 + 64 + 7 * 4 + 3072

def checkSecureStorageKey (buffer : List UInt8) : Int :=
  if field buffer 0 ≠ storeObjectMagic then -1
  else if field buffer storeObjectCrc ≠ (crc32 0 (buffer.take storeObjectCrc)).toNat then -1
  else 0

/-- The map as `sunxi_secure_storage_exit` writes it: the magic word is set, and then the checksum
    of everything before it. -/
def sealMap (map : List UInt8) : List UInt8 :=
  let body := map.take mapDataSize ++ leBytes 4 storeObjectMagic
  body ++ leBytes 4 (crc32 0 body).toNat

end Brandy.StoreObject
