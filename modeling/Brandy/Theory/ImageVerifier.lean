import Brandy.Core.ImageVerifier

/-!
# What an Accepted Image Has Passed

`sunxi_image_verify` reaches its return value 0 by one way only, so the checks that have succeeded
by then are known exactly: the approval of the embedded key, and the signature with that key, unless
the key is an ECC key and the build has no `CONFIG_CRYPTO`.

The number of the bytes that were hashed is a sum in an unsigned int. When it wraps, they are fewer
than the image has.

## Main definitions

* `Accepted`, `Authenticated`: The verifier returns 0, and what it should have made sure of.

## Theorems

* `accepted_log`: The checks behind a return value of 0.
* `accepted_authenticated_iff`: When an accepted image is authenticated.
-/

namespace Brandy.ImageVerifier

open Process List
open Text

/-- The TLV header of the image at an address. -/
def imageTlv (m : Ram 32) (src : BitVec 32) : TlvHeader :=
  tlvHeader m (src + BitVec.ofNat 32 ((imageHeader m src).hsize + (imageHeader m src).psize))

/-- The length of header, payload, TLV header and key. -/
def imageLength (m : Ram 32) (src : BitVec 32) : Nat :=
  (imageHeader m src).hsize + (imageHeader m src).psize + (imageTlv m src).size +
    (imageTlv m src).pkeySize

/-- The key of the image at an address. -/
def imageKey (m : Ram 32) (src : BitVec 32) : Option PublicKey :=
  embeddedKey m
    (src + BitVec.ofNat 32
      ((imageHeader m src).hsize + (imageHeader m src).psize + (imageTlv m src).size))
    (imageTlv m src).pkeyType

section

variable (w : World)

/-- A signature of some data is right for a key. -/
def SignatureHolds (key : PublicKey) (sign data : List UInt8) : Prop :=
  match key with
  | .rsa n e => w.sunxiRsaCalc n e sign = (0, w.sha256 data)
  | .ecc point => w.uECCVerify point (w.sha256 data) sign = true

/-- The build checks signatures of this kind of key. -/
def Supported (key : PublicKey) : Prop :=
  match key with
  | .rsa _ _ => True
  | .ecc _ => w.configCrypto = true

instance (key : PublicKey) : Decidable (Supported w key) := by
  cases key <;> unfold Supported <;> infer_instance

/-- The check of the signature that the verification of an image leaves. -/
def signatureChecks (key : PublicKey) (sign data : List UInt8) : List Check :=
  if Supported w key then [.signed key sign data] else []

/-- The run of the verifier on an image in memory. -/
def verifyRun (m : Ram 32) (calls : Nat) (src : BitVec 32) (name : List UInt8) :
    Result St Int Unit :=
  sunxiImageVerify w src name ⟨m, calls, []⟩

/-- The verifier returns 0. -/
def Accepted (m : Ram 32) (calls : Nat) (src : BitVec 32) (name : List UInt8) : Prop :=
  returned (verifyRun w m calls src name) = 0

/-- The key of the image was approved for the name, and a signature with it was checked for exactly
    the header, the payload, the TLV header and the key. -/
def Authenticated (m : Ram 32) (src : BitVec 32) (name : List UInt8) (log : List Check) : Prop :=
  ∃ key sign, imageKey m src = some key ∧
    .approved (requestKeyName name) key ∈ log ∧
    w.smcTeeCheckHash (requestKeyName name) (w.sha256 key.hashed) = 0 ∧
    .signed key sign (m.read src (imageLength m src)) ∈ log ∧
    SignatureHolds w key sign (m.read src (imageLength m src))

theorem sunxiShaCalc_run (data : List UInt8) (s : St) :
    sunxiShaCalc w data s =
      .ret (w.shaError s.shaCalls, w.sha256 data) { s with shaCalls := s.shaCalls + 1 } := rfl

theorem approveKey_run (key : PublicKey) (name : List UInt8) {s : St} :
    (∃ ret s', ret ≠ 0 ∧ approveKey w key name s = .gone ret s') ∨
      w.smcTeeCheckHash (requestKeyName name) (w.sha256 key.hashed) = 0 ∧
        approveKey w key name s =
          .ret () ⟨s.ram, s.shaCalls + 1, s.log ++ [.approved (requestKeyName name) key]⟩ := by
  have hone : approveKey w key name = pkCheck w key name := by cases key <;> rfl
  rw [hone]
  unfold pkCheck
  rw [bind_run, sunxiShaCalc_run, ret_bind]
  dsimp only
  split_ifs with herr htee
  · exact .inl ⟨_, _, herr, rfl⟩
  · exact .inl ⟨-1, _, by decide, rfl⟩
  · exact .inr ⟨not_not.mp htee, rfl⟩

theorem verifyWith_run (key : PublicKey) (sign data : List UInt8) {s : St} :
    (∃ ret s', ret ≠ 0 ∧ verifyWith w key sign data (w.sha256 data) s = .gone ret s') ∨
      (Supported w key → SignatureHolds w key sign data) ∧
        verifyWith w key sign data (w.sha256 data) s =
          .ret () { s with log := s.log ++ signatureChecks w key sign data } := by
  unfold signatureChecks
  cases key with
  | rsa n e =>
    unfold verifyWith rsaVerify
    rw [if_pos (show Supported w (.rsa n e) from trivial)]
    dsimp only
    split_ifs with herr hhash
    · exact .inl ⟨-2, s, by decide, rfl⟩
    · exact .inl ⟨-3, s, by decide, rfl⟩
    · exact .inr ⟨fun _ => Prod.ext (not_not.mp herr) (not_not.mp hhash).symm, rfl⟩
  | ecc point =>
    unfold verifyWith eccVerify
    dsimp only
    by_cases hcrypto : w.configCrypto = true
    · rw [if_pos hcrypto, if_pos (show Supported w (.ecc point) from hcrypto)]
      split_ifs with hecc
      · exact .inl ⟨-3, s, by decide, rfl⟩
      · exact .inr ⟨fun _ => (Bool.not_eq_false _).mp hecc, rfl⟩
    · -- only a message is printed, and the verification goes on
      rw [if_neg hcrypto, if_neg (show ¬ Supported w (.ecc point) from hcrypto), append_nil]
      exact .inr ⟨fun h => absurd h hcrypto, rfl⟩

variable {src : BitVec 32}

theorem accepted_log {m : Ram 32} {calls : Nat} {name : List UInt8}
    (h : Accepted w m calls src name) :
    ∃ key sign, imageKey m src = some key ∧
      w.smcTeeCheckHash (requestKeyName name) (w.sha256 key.hashed) = 0 ∧
      (Supported w key →
        SignatureHolds w key sign (m.read src (imageLength m src % 2 ^ 32))) ∧
      (verifyRun w m calls src name).state.log =
        .approved (requestKeyName name) key ::
          signatureChecks w key sign (m.read src (imageLength m src % 2 ^ 32)) := by
  unfold Accepted at h
  have hrun : verifyRun w m calls src name = sunxiImageVerify w src name ⟨m, calls, []⟩ := rfl
  unfold sunxiImageVerify at hrun
  rw [bind_run, look_run, ret_bind] at hrun
  unfold imageLength imageKey imageTlv
  generalize m.read src (_ % 2 ^ 32) = data at hrun ⊢
  generalize verifyRun w m calls src name = r at h hrun ⊢
  generalize tlvHeader m _ = tlv at hrun ⊢
  split_ifs at hrun with htlv
  · subst hrun
    exact absurd h htlv
  rcases hkey : embeddedKey m _ tlv.pkeyType with - | key
  · rw [hkey] at hrun
    have hret : returned r = -1 := by rw [hrun]; rfl
    omega
  rw [hkey] at hrun
  dsimp only at hrun
  generalize m.read _ (signLength key) = sign at hrun
  simp only [bind_run] at hrun
  rcases approveKey_run w key name with ⟨ret, s', hret, hgone⟩ | ⟨htee, happroved⟩
  · rw [hgone, gone_bind] at hrun
    subst hrun
    exact absurd h hret
  rw [happroved, ret_bind, bind_run, sunxiShaCalc_run, ret_bind] at hrun
  split_ifs at hrun
  · have hret : returned r = -1 := by rw [hrun]; rfl
    omega
  rw [bind_run] at hrun
  rcases verifyWith_run w key sign data with ⟨ret, s', hret, hgone⟩ | ⟨hholds, hverified⟩
  · rw [nil_append, hgone, gone_bind] at hrun
    subst hrun
    exact absurd h hret
  · rw [nil_append, hverified, ret_bind, update_run] at hrun
    subst hrun
    exact ⟨key, sign, rfl, htee, hholds, rfl⟩

theorem read_mod_eq_iff {m : Ram 32} {n : Nat} :
    m.read src n = m.read src (n % 2 ^ 32) ↔ n < 2 ^ 32 := by
  constructor
  · intro h
    have hlen := congrArg length h
    rw [Ram.length_read, Ram.length_read] at hlen
    omega
  · intro h
    rw [Nat.mod_eq_of_lt h]

theorem supported_iff {m : Ram 32} {key : PublicKey} (hkey : imageKey m src = some key) :
    Supported w key ↔ ((imageTlv m src).pkeyType = pkeyTypeEcc → w.configCrypto = true) := by
  unfold imageKey embeddedKey at hkey
  split_ifs at hkey with hrsa hecc
  · cases hkey
    exact iff_of_true trivial fun hecc => absurd (hrsa.symm.trans hecc) (by decide)
  · cases hkey
    exact ⟨fun h _ => h, fun h => h hecc⟩

/-- An accepted image is authenticated exactly when the build checks its kind of key and the length
    of the image does not wrap. -/
theorem accepted_authenticated_iff (m : Ram 32) (calls : Nat) (src : BitVec 32)
    (name : List UInt8) :
    (Accepted w m calls src name →
        Authenticated w m src name (verifyRun w m calls src name).state.log) ↔
      (Accepted w m calls src name →
        ((imageTlv m src).pkeyType = pkeyTypeEcc → w.configCrypto = true) ∧
          imageLength m src < 2 ^ 32) := by
  refine imp_congr_right fun h => ?_
  rcases accepted_log w h with ⟨key, sign, hkey, htee, hholds, hlog⟩
  rw [hlog, ← supported_iff w hkey]
  unfold signatureChecks
  constructor
  · rintro ⟨key', sign', hkey', -, -, hsigned, -⟩
    by_cases hsup : Supported w key
    · rw [if_pos hsup] at hsigned
      have heq : Check.signed key' sign' (m.read src (imageLength m src)) =
          .signed key sign (m.read src (imageLength m src % 2 ^ 32)) := by simpa using hsigned
      exact ⟨hsup, read_mod_eq_iff.mp (Check.signed.inj heq).2.2⟩
    · rw [if_neg hsup] at hsigned
      exact absurd hsigned (by simp)
  · rintro ⟨hsup, hlen⟩
    rw [if_pos hsup]
    rw [Nat.mod_eq_of_lt hlen] at hholds ⊢
    exact ⟨key, sign, hkey, mem_cons_self, htee,
      mem_cons_of_mem _ (mem_singleton.mpr rfl), hholds hsup⟩

end

/-- A board where every key is approved and no signature is right. -/
def lenient (configCrypto : Bool) : World where
  configCrypto := configCrypto
  sha256 _ := []
  shaError _ := 0
  smcTeeCheckHash _ _ := 0
  sunxiRsaCalc _ _ _ := (1, [])
  uECCVerify _ _ _ := false

/-- An image with a header of 64 bytes, no payload, a TLV header for an ECC key, and zeros for the
    key and the signature. -/
def eccImage : Ram 32 :=
  Ram.write (fun _ => 0) 0 (replicate 12 0 ++ [64, 0, 0, 0] ++ replicate 48 0 ++
    [0x54, 0x48, 32, 0, 1, 0, 64, 0, 0, 0, 64, 0])

/-- Without `CONFIG_CRYPTO` an image with an ECC key and a wrong signature is accepted: only the
    approval of the key has been checked. -/
theorem ecc_image_unchecked :
    Accepted (lenient false) eccImage 0 0 (ascii "riscv0") ∧
      (verifyRun (lenient false) eccImage 0 0 (ascii "riscv0")).state.log =
        [.approved (ascii "riscv0-key") (.ecc (replicate 64 0))] ∧
      ¬ Authenticated (lenient false) eccImage 0 (ascii "riscv0")
        (verifyRun (lenient false) eccImage 0 0 (ascii "riscv0")).state.log := by
  have hlog : (verifyRun (lenient false) eccImage 0 0 (ascii "riscv0")).state.log =
      [.approved (ascii "riscv0-key") (.ecc (replicate 64 0))] := by decide +kernel
  refine ⟨?_, hlog, ?_⟩
  · unfold Accepted
    decide +kernel
  · rintro ⟨key, sign, -, -, -, hsigned, -⟩
    rw [hlog] at hsigned
    cases mem_singleton.mp hsigned

end Brandy.ImageVerifier
