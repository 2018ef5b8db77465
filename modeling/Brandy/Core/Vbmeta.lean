import Brandy.Library.Memory
import Brandy.Library.Process
import Brandy.Library.Ram
import Brandy.Library.Text

/-!
# Verified Boot with vbmeta

`verify_image_by_vbmeta` from `board/sunxi/sunxi_image_verifier.c`, with the lookup of a descriptor,
the walk over all of them and `sunxi_vbmeta_self_verify` from `board/sunxi/android/sunxi_avb.c` and
the validation of a descriptor from `lib/libavb`.

Offsets and sizes in it are 64-bit numbers; added to a pointer they count modulo `2 ^ 32`. A blob is
a place in a memory, and the code can read what lies around it, so a `Blob` has the whole memory.
Copies on the heap and buffers on the stack are values. What is read behind their end is given by
the `World`, like the bytes behind the name that is looked for.

The hash routines are correct and do not fail. The search for a descriptor and the walk may go round
in circles; `turns` is the number of steps that are followed.

## Main definitions

* `sunxiAvbGetDescriptorByName`, `sunxiWalkAvbDescriptor`: The search, and the walk.
* `sunxiVbmetaSelfVerify`: The check of the blob's own signature.
* `verifyImageByVbmeta`: The verification of an image.
-/

namespace Brandy.Vbmeta

open Memory (beValue)
open Process
open Text

/-- A vbmeta blob in memory. -/
structure Blob where
  ram : Ram 32
  data : BitVec 32
  len : BitVec 32

/-- A public key: modulus and exponent. -/
structure Key where
  n : List UInt8
  e : List UInt8
  deriving DecidableEq

/-- What the verification rests on. `alloc` says which allocations succeed. `behindName` and
    `behindCopy` are the bytes behind the NUL of the image name and behind the copy of a descriptor.
    `flashRead` is what a read leaves in its buffer, also one that fails, and `softwareSha` says
    whether the hash can be computed in software. -/
structure World where
  sha256 : List UInt8 → List UInt8
  length_sha256 : ∀ data, (sha256 data).length = 32
  softwareSha : Bool
  sunxiRsaCalc : Key → List UInt8 → List UInt8
  sunxiVerifySignature : List UInt8 → List UInt8 → Int
  checkPublicInRootcert : List UInt8 → Key → Int
  slotSuffix : Option (List UInt8)
  alloc : Nat → Bool
  turns : Nat
  behindName : Nat → UInt8
  behindCopy : Nat → UInt8
  partitionInfo : List UInt8 → Option (Nat × Nat)
  flashRead : Nat → Nat → List UInt8
  heap : Ram 32
  avbData : BitVec 32

/-- The memory with the image, and the allocations so far. -/
structure St where
  ram : Ram 32
  allocs : Nat

/-- The ways not to return. -/
inductive Exit where
  | endless
  | nullPointer

/-- A function of the verification. -/
abbrev Verifier := Proc St Exit

section

variable (w : World)

/-- `malloc` or `memalign`: whether there is memory. -/
def allocate : Verifier Bool := do
  let k ← look fun s => s.allocs
  update fun s => { s with allocs := s.allocs + 1 }
  return w.alloc k

/-- A number in the blob, greatest byte first. -/
def Blob.field (b : Blob) (a : BitVec 32) (n : Nat) : Nat := beValue (b.ram.read a n)

/-- A hash descriptor: where it is, and the fields that are used. -/
structure HashDescriptor where
  at' : BitVec 32
  numBytesFollowing : Nat
  imageSize : Nat
  partitionNameLen : Nat
  saltLen : Nat
  digestLen : Nat

/-- `sizeof(AvbHashDescriptor)`. -/
def descriptorSize : Nat := 132

/-- `AVB_DESCRIPTOR_TAG_HASH`. -/
def tagHash : Nat := 2

/-- The fields at an address. -/
def hashDescriptor (b : Blob) (p : BitVec 32) : HashDescriptor where
  at' := p
  numBytesFollowing := b.field (p + 8) 8
  imageSize := b.field (p + 16) 8
  partitionNameLen := b.field (p + 56) 4
  saltLen := b.field (p + 60) 4
  digestLen := b.field (p + 64) 4

/-- `avb_hash_descriptor_validate_and_byteswap`. The three lengths have 32 bits, so their sum does
    not leave 64. -/
def validateAndByteswap (b : Blob) (p : BitVec 32) : Bool :=
  let d := hashDescriptor b p
  d.numBytesFollowing % 8 = 0 && b.field p 8 = tagHash &&
    descriptorSize - 16 + d.partitionNameLen + d.saltLen + d.digestLen ≤ d.numBytesFollowing

/-- A byte of the image name, with the memory behind it. -/
def nameByte (name : CString) (i : Nat) : UInt8 :=
  if i < name.bytes.length then name.bytes.getD i 0
  else if i = name.bytes.length then 0
  else w.behindName i

/-- `memcmp` of a partition name in the blob with the image name. -/
def sameName (b : Blob) (partName : BitVec 32) (name : CString) (len : Nat) : Bool :=
  b.ram.read partName len = (List.range len).map (nameByte w name)

/-- The result of a lookup. -/
inductive Lookup where
  | found (d : HashDescriptor)
  | failed (ret : Int)

/-- The loop of `sunxi_avb_get_descriptor_by_name`. Lengths that do not fit the names only give a
    message. -/
def searchLoop (b : Blob) (descEnd : BitVec 32) (name : CString) :
    Nat → BitVec 32 → Verifier Lookup
  | 0, _ => leave .endless
  | turns + 1, p =>
    if p.toNat < descEnd.toNat then do
      let d := hashDescriptor b p
      let nbTotal := (16 + d.numBytesFollowing) % 2 ^ 64
      if b.field p 8 = tagHash ∧ validateAndByteswap b p ∧
          sameName w b (p + 132) name d.partitionNameLen then
        if ← allocate w then return .found d
        else return .failed (-2)
      else searchLoop b descEnd name turns (p + BitVec.ofNat 32 nbTotal)
    else return .failed (-1)

def sunxiAvbGetDescriptorByName (b : Blob) (name : CString) : Verifier Lookup :=
  let imageEnd := b.data + b.len
  let descStart := b.data + 256 + BitVec.ofNat 32 (b.field (b.data + 12) 8) +
    BitVec.ofNat 32 (b.field (b.data + 96) 8)
  let descEnd := descStart + BitVec.ofNat 32 (b.field (b.data + 104) 8)
  if descStart.toNat < b.data.toNat ∨ imageEnd.toNat < descStart.toNat ∨
      descEnd.toNat < b.data.toNat ∨ imageEnd.toNat < descEnd.toNat ∨
      descEnd.toNat < descStart.toNat then
    return .failed (-3)
  else searchLoop w b descEnd name w.turns descStart

/-- The start of the descriptors. -/
def Blob.descStart (b : Blob) : BitVec 32 :=
  b.data + 256 + BitVec.ofNat 32 (b.field (b.data + 12) 8) +
    BitVec.ofNat 32 (b.field (b.data + 96) 8)

/-- The end of the descriptors. -/
def Blob.descEnd (b : Blob) : BitVec 32 :=
  b.descStart + BitVec.ofNat 32 (b.field (b.data + 104) 8)

/-- The descriptors are not inside the blob. -/
abbrev Blob.DescOutside (b : Blob) : Prop :=
  b.descStart.toNat < b.data.toNat ∨ (b.data + b.len).toNat < b.descStart.toNat ∨
    b.descEnd.toNat < b.data.toNat ∨ (b.data + b.len).toNat < b.descEnd.toNat ∨
    b.descEnd.toNat < b.descStart.toNat

/-- The total length of a descriptor, in 64 bits. -/
def Blob.nbTotal (b : Blob) (p : BitVec 32) : Nat := (16 + b.field (p + 8) 8) % 2 ^ 64

/-- The loop of `sunxi_walk_avb_descriptor`. The length is passed on in 32 bits, and a callback that
    returns 0 lets it go on. -/
def walkLoop (b : Blob) (callBack : BitVec 32 → Nat → Verifier Int) :
    Nat → BitVec 32 → Verifier Int
  | 0, _ => leave .endless
  | turns + 1, p =>
    if p.toNat < b.descEnd.toNat then do
      let ret ← callBack p (b.nbTotal p % 2 ^ 32)
      if ret ≠ 0 then return ret
      else walkLoop b callBack turns (p + BitVec.ofNat 32 (b.nbTotal p))
    else return -1

def sunxiWalkAvbDescriptor (b : Blob) (callBack : BitVec 32 → Nat → Verifier Int) :
    Verifier Int :=
  if b.DescOutside then return -3
  else walkLoop b callBack w.turns b.descStart

/-- `sunxi_avb_get_hash_descriptor_by_name`. Only hash descriptors are found, so the check of the
    tag does not fail. -/
def sunxiAvbGetHashDescriptorByName (b : Blob) (name : CString) :
    Verifier (Option HashDescriptor) := do
  match ← sunxiAvbGetDescriptorByName w b name with
  | .found d => return some d
  | .failed _ => return none

/-- A byte of the copy of a descriptor. The copy has the total length modulo `2 ^ 32`. -/
def copyByte (b : Blob) (d : HashDescriptor) (i : Nat) : UInt8 :=
  if i < (16 + d.numBytesFollowing) % 2 ^ 64 % 2 ^ 32 then b.ram (d.at' + BitVec.ofNat 32 i)
  else w.behindCopy i

/-- Some bytes of the copy of a descriptor. -/
def copyBytes (b : Blob) (d : HashDescriptor) (from' len : Nat) : List UInt8 :=
  (List.range len).map fun i => copyByte w b d (from' + i)

/-- The exponent 0x10001 as three bytes. -/
def exponent : List UInt8 := [1, 0, 1]

/-- `authentication_data_block_size`. -/
def Blob.authSize (b : Blob) : Nat := b.field (b.data + 12) 8

/-- `auxiliary_data_block_size`. -/
def Blob.auxSize (b : Blob) : Nat := b.field (b.data + 20) 8

/-- The start of the authentication block. -/
def Blob.authBlock (b : Blob) : BitVec 32 := b.data + 256

/-- The start of the auxiliary block. -/
def Blob.auxBlock (b : Blob) : BitVec 32 := b.authBlock + BitVec.ofNat 32 b.authSize

/-- The start of the public key with its header. -/
def Blob.keyHeader (b : Blob) : BitVec 32 :=
  b.auxBlock + BitVec.ofNat 32 (b.field (b.data + 64) 8)

/-- The hash in the authentication block. -/
def Blob.storedHash (b : Blob) : List UInt8 :=
  b.ram.read (b.authBlock + BitVec.ofNat 32 (b.field (b.data + 32) 8)) 32

/-- The signature in the authentication block. -/
def Blob.signature (b : Blob) : List UInt8 :=
  b.ram.read (b.authBlock + BitVec.ofNat 32 (b.field (b.data + 48) 8))
    (b.field (b.data + 56) 8 % 2 ^ 32)

/-- What is hashed: the header and the auxiliary block, put into one buffer. -/
def Blob.hashed (b : Blob) : List UInt8 :=
  (b.ram.read b.data 256 ++ b.ram.read b.auxBlock (b.auxSize % 2 ^ 32)).take
    ((256 + b.auxSize) % 2 ^ 32)

/-- The key in the auxiliary block. -/
def Blob.key (b : Blob) : Key := ⟨b.ram.read (b.keyHeader + 8) 256, exponent⟩

/-- `sunxi_vbmeta_self_verify`: the return value, and the key for the value 0. Without memory for
    the hash the copy goes through a null pointer. -/
def sunxiVbmetaSelfVerify (b : Blob) : Verifier (Int × Option Key) := do
  if b.ram.read b.data 4 ≠ ascii "AVB0" then return (-1, none)
  else if b.authSize % 64 ≠ 0 ∨ b.auxSize % 64 ≠ 0 then return (-1, none)
  else if b.field (b.data + 40) 8 ≠ 32 then return (-1, none)
  else
    if ← allocate w then
      if b.storedHash ≠ w.sha256 b.hashed then return (-1, none)
      else if b.field b.keyHeader 4 ≠ 2048 then return (-2, none)
      else if ← allocate w then
        if ← allocate w then
          if b.storedHash ≠ w.sunxiRsaCalc b.key b.signature then return (-2, none)
          else return (0, some b.key)
        else return (-1, none)
      else return (-1, none)
    else leave .nullPointer

/-- `sunxi_avb_read_vbmeta_in_partition`. The footer is in the last sector of the partition. -/
def sunxiAvbReadVbmetaInPartition (partName : CString) : Verifier (Option Blob) := do
  match w.partitionInfo partName.bytes with
  | none => return none
  | some (startBlock, partSectors) =>
    let footer := (w.flashRead ((startBlock + partSectors - 1) % 2 ^ 32) 1).drop (512 - 64)
    if footer.take 4 ≠ ascii "AVBf" ∨ 1 < beValue ((footer.drop 4).take 4) then return none
    else
      let vbmetaOffset := beValue ((footer.drop 20).take 8)
      let vbmetaSize := beValue ((footer.drop 28).take 8)
      let startAddr := vbmetaOffset / 512 * 512 % 2 ^ 32
      let roundUp := ((vbmetaSize + vbmetaOffset) % 2 ^ 64 + 511) / 512 * 512 % 2 ^ 64
      let readLen := (roundUp + (2 ^ 64 - startAddr)) % 2 ^ 32
      if ← allocate w then
        let ram := w.heap.write w.avbData
          (w.flashRead ((startBlock + startAddr / 512) % 2 ^ 32) (readLen / 512))
        return some {
          ram := ram.memcpy w.avbData
            (w.avbData + BitVec.ofNat 32 vbmetaOffset - BitVec.ofNat 32 startAddr)
            (if vbmetaOffset = startAddr then 0 else vbmetaSize % 2 ^ 32)
          data := w.avbData
          len := BitVec.ofNat 32 vbmetaSize }
      else return none

/-- The name of the key of a vbmeta partition. -/
def slotVbmeta (pubkeyInToc1 : CString) : List UInt8 :=
  pubkeyInToc1.bytes ++ w.slotSuffix.getD []

/-- The blob is accepted with its own key, which the root certificate knows, or, when that is no RSA
    key of the right size or its signature is wrong, by the certificate in toc1. -/
def acceptBlob (b : Blob) (pubkeyInToc1 : CString) : Verifier Bool := do
  let (ret, key) ← sunxiVbmetaSelfVerify w b
  if ret = -2 then
    return w.sunxiVerifySignature (b.ram.read b.data b.len.toNat) (slotVbmeta w pubkeyInToc1) = 0
  else
    match key with
    | some key => return w.checkPublicInRootcert (slotVbmeta w pubkeyInToc1) key = 0
    | none => return false

/-- `sunxi_sha_calc_witch_software_verify`. -/
def softwareVerify (data expected : List UInt8) : Int :=
  if w.softwareSha = false then -1 else if w.sha256 data ≠ expected then -2 else 0

/-- The hash of the image with the salt, which is copied to the memory in front of the image. Only
    after a success does that memory get its bytes back. -/
def checkImage (imageData : BitVec 32) (imageLen : Nat) (b : Blob) (d : HashDescriptor) :
    Verifier Int := do
  if imageLen ≠ d.imageSize then return -1
  else
    let salt := copyBytes w b d (descriptorSize + d.partitionNameLen) d.saltLen
    let expectedHash := copyBytes w b d (descriptorSize + d.partitionNameLen + d.saltLen) 32
    let saltBufLen := (d.saltLen + 63) / 64 * 64 % 2 ^ 32
    if ← allocate w then
      let saltBuf ← look fun s => s.ram.read (imageData - BitVec.ofNat 32 saltBufLen) saltBufLen
      let start := imageData - BitVec.ofNat 32 d.saltLen
      update fun s => { s with ram := s.ram.write start salt }
      let data ← look fun s => s.ram.read start ((d.saltLen + imageLen) % 2 ^ 32)
      if expectedHash ≠ w.sha256 data ∧ softwareVerify w data expectedHash ≠ 0 then return -1
      else
        update fun s => { s with
          ram := s.ram.write (imageData - BitVec.ofNat 32 saltBufLen) saltBuf }
        return 0
    else return -1

/-- `verify_image_by_vbmeta`. It calls itself once at most, so a depth of two is enough. -/
def verifyImageByVbmeta (imageName : CString) (imageData : BitVec 32) (imageLen : Nat) :
    Nat → Blob → CString → Verifier Int
  | 0, _, _ => leave .endless
  | depth + 1, b, pubkeyInToc1 => do
    match ← sunxiAvbGetHashDescriptorByName w b imageName with
    | none =>
      -- maybe the signature is in the partition of the image
      if imageName ≠ pubkeyInToc1 then
        match ← sunxiAvbReadVbmetaInPartition w imageName with
        | some b' => verifyImageByVbmeta imageName imageData imageLen depth b' imageName
        | none => return -1
      else return -1
    | some d =>
      if ← acceptBlob w b pubkeyInToc1 then checkImage w imageData imageLen b d
      else return -1

end

end Brandy.Vbmeta
