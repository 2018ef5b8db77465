import Brandy.Library.Memory
import Brandy.Library.Process
import Brandy.Library.Ram
import Brandy.Library.Word

/-!
# The Verification of a Partition

`sunxi_verify_partion` with `cal_partioin_len`, from `board/sunxi/sunxi_image_verifier.c`. Samples
of a partition are read into one buffer, either the whole file system or pieces of one size at a
regular distance, and the buffer is checked against a certificate that lies behind the file system.

A `World` says how each allocation and each read of the flash ends, by number. A read that fails
leaves some bytes in the buffer, and no caller looks at its result. The log records the buffers for
which `sunxi_verify_embed_signature` has returned 0; the code does not look at it. A division by
zero does not return.

## Main definitions

* `Pattern`, `Samples`: Which pieces are read, and where they are in the buffer.
* `sunxiVerifyPartion`: The verification.
-/

namespace Brandy.PartitionVerifier

open Memory (leValue)
open Process
open Word

/-- `disk_partition_t`, in sectors. -/
structure Partition where
  start : Nat
  size : Nat

/-- The flash as one row of bytes, and the outcome of every operation. `malloc` has the address of
    an allocation that succeeds, `readFault` what a failed read leaves in the buffer. -/
structure World where
  partitionGetInfo : List UInt8 → Option Partition
  flash : Nat → UInt8
  malloc : Nat → Option (BitVec 32)
  readFault : Nat → Option (List UInt8)
  verifyEmbedSignature : List UInt8 → List UInt8 → List UInt8 → Int

/-- `struct sunxi_image_verify_pattern_st`. -/
structure Pattern where
  size : Nat
  interval : Nat
  cnt : Int

/-- The memory, the pattern of the caller, the operations so far and the buffers that have been
    accepted. -/
structure St where
  ram : Ram 32
  pattern : Pattern
  allocs : Nat
  reads : Nat
  log : List (List UInt8)

/-- One allocation more. -/
def St.alloc (s : St) : St := { s with allocs := s.allocs + 1 }

/-- The ways not to return. -/
inductive Exit where
  | divisionByZero

/-- A function of the verifier. -/
abbrev Verifier := Proc St Exit

/-- `-ENODEV`. -/
def enodev : Int := -19

def squashfsMagic : Nat := 0x73717368

section

variable (w : World)

/-- The bytes of a range of the flash. -/
def flashBytes (from' len : Nat) : List UInt8 := (List.range len).map fun i => w.flash (from' + i)

def malloc : Verifier (Option (BitVec 32)) := do
  let k ← look fun s => s.allocs
  update St.alloc
  return w.malloc k

/-- `sunxi_flash_read`, whose parameters are unsigned ints. -/
def sunxiFlashRead (start nblock : Nat) (buffer : BitVec 32) : Verifier Unit := do
  let k ← look fun s => s.reads
  update fun s => { s with
    reads := s.reads + 1
    ram := s.ram.write buffer <|
      match w.readFault k with
      | none => flashBytes w (start % 2 ^ 32 * 512) (nblock % 2 ^ 32 * 512)
      | some junk => junk.take (nblock % 2 ^ 32 * 512) }

/-- The length that a super block gives for a partition of `size` sectors, or -1. The comparison is
    unsigned, with 64 bits. -/
def squashfsLen (superBlock : List UInt8) (size : Nat) : Int :=
  if leValue (superBlock.take 4) ≠ squashfsMagic then -1
  else
    let bytesUsed := s64 (leValue ((superBlock.drop 40).take 8))
    let len := s32 ((s64 (bytesUsed + 4096 - 1)).tdiv 4096 * 4096)
    if u64 (size * 512) < u64 len then -1 else len

def calPartioinLen (info : Partition) : Verifier Int := do
  match ← malloc w with
  | none => return -1
  | some rootfsSb =>
    sunxiFlashRead w info.start 1 rootfsSb
    look fun s => squashfsLen (s.ram.read rootfsSb 512) info.size

/-- The first address from `a` on that is a multiple of `CACHE_LINE_SIZE`. -/
def cacheAligned (a : BitVec 32) : BitVec 32 := (a + 63) &&& ~~~63

/-- The length of all samples, with their number put into the pattern when it is -1. There is none
    without the length of the file system where that is needed. -/
def wholeSampleLen (partLen : Nat) (full : Int) : Verifier (Option Nat) := do
  let pattern ← look fun s => s.pattern
  if full = 1 then return some (partLen % 2 ^ 32)
  else if pattern.cnt = -1 then
    if partLen = 2 ^ 64 - 1 then return none
    else if pattern.interval = 0 then leave .divisionByZero
    else
      let cnt := s32 (partLen / pattern.interval : Nat)
      update fun s => { s with pattern := { s.pattern with cnt := cnt } }
      return some (u32 (cnt * pattern.size))
  else return some (u32 (pattern.cnt * pattern.size))

/-- The loop over the samples from number `i` on, `n` of them. The products are unsigned ints. -/
def readLoop (info : Partition) (pattern : Pattern) (p : BitVec 32) : Nat → Nat → Verifier Unit
  | 0, _ => pure ()
  | n + 1, i => do
    sunxiFlashRead w (info.start + u32 (i * pattern.interval : Nat) / 512) (pattern.size / 512)
      (p + BitVec.ofNat 32 (i * pattern.size))
    readLoop info pattern p n (i + 1)

/-- The reads of the samples. -/
def readSamples (info : Partition) (full : Int) (len : Nat) (p : BitVec 32) : Verifier Unit := do
  if full = 1 then sunxiFlashRead w info.start (len / 512) p
  else
    let pattern ← look fun s => s.pattern
    readLoop w info pattern p pattern.cnt.toNat 0

/-- The samples in memory. -/
structure Samples where
  info : Partition
  partLen : Nat
  p : BitVec 32
  len : Nat

/-- `sunxi_verify_partion` up to the allocation of the certificate buffer. The result is a return
    value or the samples. -/
def gatherSamples (partName : List UInt8) (full : Int) : Verifier (Except Int Samples) := do
  match w.partitionGetInfo partName with
  | none => return .error enodev
  | some info =>
    let ret ← calPartioinLen w info
    let partLen := u64 ret
    match ← wholeSampleLen partLen full with
    | none => return .error (-1)
    | some len =>
      match ← malloc w with
      | none => return .error (-1)
      | some unalignedSampleBuf =>
        let p := cacheAligned unalignedSampleBuf
        readSamples w info full len p
        return .ok ⟨info, partLen, p, len⟩

/-- The certificate, with its length in front, is read and moved to the front of its buffer. -/
def loadCert (samples : Samples) (certBuf : BitVec 32) : Verifier Nat := do
  update fun s => { s with ram := s.ram.write certBuf (List.replicate 4100 0) }
  sunxiFlashRead w (samples.info.start + samples.partLen / 512) 9 certBuf
  let certLen ← look fun s => leValue (s.ram.read certBuf 4)
  update fun s => { s with ram := s.ram.memcpy certBuf (certBuf + 4) certLen }
  return certLen

/-- The rest of `sunxi_verify_partion`. Its return value starts with 0, and stays so without a
    buffer for the certificate. -/
def checkSamples (samples : Samples) (certName : List UInt8) : Verifier Int := do
  match ← malloc w with
  | none => return 0
  | some certBuf =>
    let certLen ← loadCert w samples certBuf
    let m ← look fun s => s.ram
    let buff := m.read samples.p samples.len
    let ret := w.verifyEmbedSignature buff certName (m.read certBuf certLen)
    update fun s => if ret = 0 then { s with log := s.log ++ [buff] } else s
    return ret

def sunxiVerifyPartion (partName certName : List UInt8) (full : Int) : Verifier Int := do
  match ← gatherSamples w partName full with
  | .error ret => return ret
  | .ok samples => checkSamples w samples certName

end

end Brandy.PartitionVerifier
