import Brandy.Library.Memory
import Brandy.Library.Process
import Brandy.Library.Ram
import Brandy.Library.Text

/-!
# Images with a Header and a Signature

`sunxi_image_verify` and what it calls, from `sunxi_image_verifier.c` and `sunxi_image_header.c` in
`board/sunxi`. An image in memory is a header, the payload, a TLV header, a public key and a
signature, one behind the other. The sizes of the first three come from the image, and every address
is a 32-bit sum of them.

The cryptography is given by a `World`, and `sunxi_sha_calc` may report an error at any call. The
log records the checks that have succeeded, with what they were made on; the code does not look at
it. An error code leaves a function early, so that coming back means the return value 0.

## Main definitions

* `ImageHeader`, `TlvHeader`: The headers in the memory.
* `approveKey`, `verifyWith`: The check of the embedded key, and of the signature with it.
* `sunxiImageVerify`: The verification.
-/

namespace Brandy.ImageVerifier

open Memory (leValue)
open Process
open Text

/-- The build configuration and the cryptographic routines. `shaError` is what each call of
    `sunxi_sha_calc` returns. -/
structure World where
  configCrypto : Bool
  sha256 : List UInt8 → List UInt8
  shaError : Nat → Int
  smcTeeCheckHash : List UInt8 → List UInt8 → Int
  sunxiRsaCalc : List UInt8 → List UInt8 → List UInt8 → Int × List UInt8
  uECCVerify : List UInt8 → List UInt8 → List UInt8 → Bool

/-- A public key as the verifier uses it: modulus and exponent, or a point of the curve. -/
inductive PublicKey where
  | rsa (n e : List UInt8)
  | ecc (point : List UInt8)
  deriving DecidableEq

/-- The bytes whose hash stands for a key. An RSA key fills a buffer of 512 bytes that holds 0x91
    before. -/
def PublicKey.hashed : PublicKey → List UInt8
  | .rsa n e => n ++ e ++ List.replicate (512 - (n.length + e.length)) 0x91
  | .ecc point => point

/-- A check that has succeeded: the hash of a key is the one stored under a name, or a signature is
    right for a key. -/
inductive Check where
  | approved (name : List UInt8) (key : PublicKey)
  | signed (key : PublicKey) (sign data : List UInt8)
  deriving DecidableEq

/-- The memory, the calls of `sunxi_sha_calc` so far and the checks that have succeeded. -/
structure St where
  ram : Ram 32
  shaCalls : Nat
  log : List Check

/-- A function that leaves early with an error code. -/
abbrev Verifier := Proc St Int

/-- The return value of a function. -/
def returned {α : Type} : Result St Int α → Int
  | .ret _ _ => 0
  | .gone ret _ => ret

/-- The fields of `sunxi_image_header_t` that are used. -/
structure ImageHeader where
  hsize : Nat
  psize : Nat

/-- The image header at an address. -/
def imageHeader (m : Ram 32) (at' : BitVec 32) : ImageHeader where
  hsize := leValue (m.read (at' + 12) 4)
  psize := leValue (m.read (at' + 16) 4)

/-- The fields of `sunxi_tlv_header_t` that are used. -/
structure TlvHeader where
  magic : Nat
  size : Nat
  pkeyType : Nat
  pkeySize : Nat
  signSize : Nat

/-- The TLV header at an address. -/
def tlvHeader (m : Ram 32) (at' : BitVec 32) : TlvHeader where
  magic := leValue (m.read at' 2)
  size := leValue (m.read (at' + 2) 2)
  pkeyType := leValue (m.read (at' + 4) 2)
  pkeySize := leValue (m.read (at' + 6) 2)
  signSize := leValue (m.read (at' + 10) 2)

/-- `SUNXI_TH_MAGIC`. -/
def thMagic : Nat := 0x4854

def pkeyTypeRsa : Nat := 0

def pkeyTypeEcc : Nat := 1

def sunxiTlvHeaderCheck (th : TlvHeader) : Int :=
  if th.magic ≠ thMagic then -1
  else if th.pkeyType = pkeyTypeRsa then
    if th.pkeySize ≠ 2048 / 8 * 2 then -2
    else if th.signSize ≠ 2048 / 8 then -3
    else 0
  else if th.pkeyType = pkeyTypeEcc then
    if th.pkeySize ≠ 256 / 8 * 2 then -2
    else if th.signSize ≠ 256 / 8 * 2 then -3
    else 0
  else -4

section

variable (w : World)

/-- `sunxi_sha_calc`: the return value, and the hash for the value 0. -/
def sunxiShaCalc (data : List UInt8) : Verifier (Int × List UInt8) := do
  let n ← look fun s => s.shaCalls
  update fun s => { s with shaCalls := s.shaCalls + 1 }
  return (w.shaError n, w.sha256 data)

/-- A check that has succeeded. -/
def record (c : Check) : Verifier Unit := update fun s => { s with log := s.log ++ [c] }

/-- The name under which the hash of a key is stored. -/
def requestKeyName (name : List UInt8) : List UInt8 := name ++ ascii "-key"

/-- The common part of `sunxi_rsa_pk_check` and `sunxi_ecc_pk_check`. Both refusals of
    `smc_tee_check_hash`, invalid hash and unknown name, return -1. -/
def pkCheck (key : PublicKey) (name : List UInt8) : Verifier Unit := do
  let (ret, keyHash) ← sunxiShaCalc w key.hashed
  if ret ≠ 0 then leave ret
  else if w.smcTeeCheckHash (requestKeyName name) keyHash ≠ 0 then leave (-1)
  else record (.approved (requestKeyName name) key)

def sunxiRsaPkCheck (n e name : List UInt8) : Verifier Unit := pkCheck w (.rsa n e) name

def sunxiEccPkCheck (point name : List UInt8) : Verifier Unit := pkCheck w (.ecc point) name

/-- The signature of an RSA key holds the hash. -/
def rsaVerify (n e sign data hash : List UInt8) : Verifier Unit :=
  let (ret, signOfHash) := w.sunxiRsaCalc n e sign
  if ret ≠ 0 then leave (-2)
  else if hash ≠ signOfHash then leave (-3)
  else record (.signed (.rsa n e) sign data)

/-- The signature of an ECC key. Without `CONFIG_CRYPTO` there is only a message. -/
def eccVerify (point sign data hash : List UInt8) : Verifier Unit :=
  if w.configCrypto then
    if w.uECCVerify point hash sign = false then leave (-3)
    else record (.signed (.ecc point) sign data)
  else pure ()

/-- The approval of the embedded key. -/
def approveKey (key : PublicKey) (name : List UInt8) : Verifier Unit :=
  match key with
  | .rsa n e => sunxiRsaPkCheck w n e name
  | .ecc point => sunxiEccPkCheck w point name

/-- The check of the signature with the embedded key. -/
def verifyWith (key : PublicKey) (sign data hash : List UInt8) : Verifier Unit :=
  match key with
  | .rsa n e => rsaVerify w n e sign data hash
  | .ecc point => eccVerify w point sign data hash

/-- The key of an image. The exponent of an RSA key has a field of 256 bytes, of which three are
    used. -/
def embeddedKey (m : Ram 32) (keyAt : BitVec 32) (pkeyType : Nat) : Option PublicKey :=
  if pkeyType = pkeyTypeRsa then some (.rsa (m.read keyAt 256) (m.read (keyAt + 256) 3))
  else if pkeyType = pkeyTypeEcc then some (.ecc (m.read keyAt 64))
  else none

/-- The length of a signature. -/
def signLength : PublicKey → Nat
  | .rsa _ _ => 256
  | .ecc _ => 64

def sunxiImageVerify (osLoadAddr : BitVec 32) (certName : List UInt8) : Verifier Unit := do
  let m ← look fun s => s.ram
  let src := osLoadAddr
  let ih := imageHeader m src
  let tlv := tlvHeader m (src + BitVec.ofNat 32 (ih.hsize + ih.psize))
  let keyAt := src + BitVec.ofNat 32 (ih.hsize + ih.psize + tlv.size)
  let signAt := src + BitVec.ofNat 32 (ih.hsize + ih.psize + tlv.size + tlv.pkeySize)
  if sunxiTlvHeaderCheck tlv ≠ 0 then leave (sunxiTlvHeaderCheck tlv)
  else
    match embeddedKey m keyAt tlv.pkeyType with
    | none => leave (-1)
    | some key =>
      approveKey w key certName
      -- the length is the sum in an unsigned int
      let data := m.read src ((ih.hsize + ih.psize + tlv.size + tlv.pkeySize) % 2 ^ 32)
      let (ret, hashOfFile) ← sunxiShaCalc w data
      if ret ≠ 0 then leave (-1)
      else
        verifyWith w key (m.read signAt (signLength key)) data hashOfFile
        update fun s => { s with ram := s.ram.memcpy src (src + BitVec.ofNat 32 ih.hsize) ih.psize }

end

end Brandy.ImageVerifier
