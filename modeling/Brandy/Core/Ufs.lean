import Brandy.Library.Buffer

/-!
# Sectors on a UFS Device

The part of `drivers/sunxi_flash/ufs/sunxi_ufs.c` that makes sectors of 512 bytes out of the blocks
of 4096 bytes of a UFS device. A request is cut into pieces that fit the buffer `g_align_buf`. A
piece that starts and ends at the edge of a block goes to the device as it is. For any other piece a
range of blocks around it is read into the buffer, and for a write written back with the new bytes
in it.

All numbers are `u32` and wrap around. A transfer fails if the device refuses one of its blocks, and
`scsi_read` then returns 0. A piece that would be read behind the end of `g_align_buf` has no result
(`none`).

## Main definitions

* `Device`: The bytes of the device, and the blocks it refuses.
* `inPieces`: A request cut into pieces.
* `phyread`, `phywrite`: Sectors are read or written.
-/

namespace Brandy.Ufs

open Buffer (memcpy)

/-- `UFS_MAX_ALING_BUF_SIZE_BYTE`. -/
def maxAlignBufSizeByte : Nat := 1 * 1024 * 1024

/-- `UFS_BLOCK_ALIGN_SECTOR`. -/
def blockAlignSector : Nat := 8

def maxBufLenSector : Nat := (maxAlignBufSizeByte - blockAlignSector * 512 * 2) / 512

def maxBufLenByte : Nat := maxBufLenSector * 512

/-- The bytes of a device, and the blocks it reads and writes without error. -/
structure Device where
  byte : Buffer
  readable : Nat → Bool
  writable : Nat → Bool

/-- `sunxi_ufs_global_read`, into a buffer at an offset: the number of blocks and the buffer. -/
def globalRead (d : Device) (start blkcnt : Nat) (m : Buffer) (off : Nat) : Nat × Buffer :=
  if ∀ i < blkcnt, d.readable (start + i) = true then
    (blkcnt, memcpy m off d.byte (4096 * start) (4096 * blkcnt))
  else (0, m)

/-- `sunxi_ufs_global_write`, from a buffer at an offset. -/
def globalWrite (d : Device) (start blkcnt : Nat) (m : Buffer) (off : Nat) : Nat × Device :=
  if ∀ i < blkcnt, d.writable (start + i) = true then
    (blkcnt, { d with byte := memcpy d.byte (4096 * start) m off (4096 * blkcnt) })
  else (0, d)

/-- `end_sector`, the last sector of a piece. -/
def endSector (start nblock : Nat) : Nat := (start + nblock + (2 ^ 32 - 1)) % 2 ^ 32

def alignStart (start : Nat) : Nat := start / blockAlignSector

def alignEnd (start nblock : Nat) : Nat :=
  (endSector start nblock + blockAlignSector - 1) % 2 ^ 32 / blockAlignSector

def alignSize (start nblock : Nat) : Nat :=
  (alignEnd start nblock + (2 ^ 32 - alignStart start) + 1) % 2 ^ 32

/-- The test for a piece that does not start and end at the edge of a block. -/
def Unaligned (start nblock : Nat) : Prop :=
  start % blockAlignSector ≠ 0 ∨ (endSector start nblock + 1) % 2 ^ 32 % blockAlignSector ≠ 0

instance (start nblock : Nat) : Decidable (Unaligned start nblock) :=
  inferInstanceAs (Decidable (_ ∨ _))

/-- The blocks around a piece, read into `g_align_buf`. -/
def readAlignBuf (d : Device) (start nblock : Nat) : Option (Nat × Buffer) :=
  if maxAlignBufSizeByte < alignSize start nblock * blockAlignSector * 512 % 2 ^ 32 then
    -- the return code is still 0 there
    some (0, fun _ => 0)
  else if maxAlignBufSizeByte < alignSize start nblock * blockAlignSector * 512 then none
  else some (globalRead d (alignStart start) (alignSize start nblock) (fun _ => 0) 0)

/-- `sunxi_sprite_ufs_buffer_phyread`, to an offset of a buffer. -/
def bufferPhyread (d : Device) (start nblock off : Nat) (buffer : Buffer) :
    Option (Nat × Buffer) :=
  if Unaligned start nblock then
    (readAlignBuf d start nblock).map fun r =>
      if r.1 = alignSize start nblock then
        (nblock, memcpy buffer off r.2 (start % blockAlignSector * 512) (nblock * 512))
      else (r.1, buffer)
  else
    let r := globalRead d (start / blockAlignSector) (nblock / blockAlignSector) buffer off
    some (r.1 * blockAlignSector, r.2)

/-- `g_align_buf` with the bytes of a piece in it, written back to the blocks it was read from. -/
def writeAlignBuf (d : Device) (start nblock : Nat) (alignBuf : Buffer) : Nat × Device :=
  let r := globalWrite d (alignStart start) (alignSize start nblock) alignBuf 0
  if r.1 = alignSize start nblock then (nblock, r.2) else r

/-- `sunxi_sprite_ufs_buffer_phywrite`, from an offset of a buffer. -/
def bufferPhywrite (buffer : Buffer) (start nblock off : Nat) (d : Device) :
    Option (Nat × Device) :=
  if Unaligned start nblock then
    (readAlignBuf d start nblock).map fun r =>
      if r.1 = alignSize start nblock then
        writeAlignBuf d start nblock
          (memcpy r.2 (start % blockAlignSector * 512) buffer off (nblock * 512))
      else (r.1, d)
  else
    let r := globalWrite d (start / blockAlignSector) (nblock / blockAlignSector) buffer off
    some (r.1 * blockAlignSector, r.2)

section

variable {α : Type} (piece : Nat → Nat → Nat → α → Option (Nat × α))

/-- The loop over the full pieces, from piece `i` on: `error` is a return from inside of it. -/
def fullPieces (start : Nat) : Nat → Nat → α → Option (Except (Nat × α) α)
  | 0, _, a => some (.ok a)
  | left + 1, i, a =>
    match piece ((start + i * maxBufLenSector) % 2 ^ 32) maxBufLenSector
        (i * maxBufLenByte % 2 ^ 32) a with
    | none => none
    | some (ret, a) =>
      if ret ≠ maxBufLenSector then some (.error (ret, a)) else fullPieces start left (i + 1) a

/-- The number of full pieces. -/
def fullCnt (nblock : Nat) : Nat := nblock * 512 % 2 ^ 32 / maxBufLenByte

/-- A request in pieces: the full ones, and one for what remains. -/
def inPieces (start nblock : Nat) (a : α) : Option (Nat × α) :=
  match fullPieces piece start (fullCnt nblock) 0 a with
  | none => none
  | some (.error r) => some r
  | some (.ok a) =>
    if nblock % maxBufLenSector ≠ 0 then
      match piece ((start + fullCnt nblock * maxBufLenSector) % 2 ^ 32) (nblock % maxBufLenSector)
          (fullCnt nblock * maxBufLenByte % 2 ^ 32) a with
      | none => none
      | some (ret, a) =>
        if ret ≠ nblock % maxBufLenSector then some (ret, a) else some (nblock, a)
    else some (nblock, a)

end

/-- `sunxi_sprite_ufs_phyread`: the return code and the buffer. -/
def phyread (d : Device) (start nblock : Nat) (buffer : Buffer) : Option (Nat × Buffer) :=
  inPieces (bufferPhyread d) start nblock buffer

/-- `sunxi_sprite_ufs_phywrite`: the return code and the device. -/
def phywrite (d : Device) (start nblock : Nat) (buffer : Buffer) : Option (Nat × Device) :=
  inPieces (bufferPhywrite buffer) start nblock d

end Brandy.Ufs
