import Brandy.Core.PartitionVerifier

/-!
# What a Verified Partition Has Passed

`sunxi_verify_partion` returns 0 if `sunxi_verify_embed_signature` has returned 0 for the sample
buffer, or if there was no memory for the certificate. In the first case the buffer still has to
hold the samples: the results of the reads are not looked at, offsets are computed in unsigned ints,
only whole sectors are read, and a certificate longer than its buffer is moved over what lies behind
it.

## Main definitions

* `sampledBytes`: The samples, from the flash alone.
* `Healthy`: Reads, partition and pattern for which the sample buffer holds the samples.
* `Fits`: A certificate and a buffer for it that leave the samples alone.

## Theorems

* `gatherSamples_run`, `checkSamples_run`: The samples, and the certificate.
* `partition_verified`: A partition that passes has been verified.
* `sound_of_healthy`: The return value is the verdict on the samples.
-/

namespace Brandy.PartitionVerifier

open Memory (leValue)
open Process List
open Word

section

variable (w : World)

/-- The length of the file system on a partition, or a negative number. -/
def fileSystemLen (info : Partition) : Int :=
  squashfsLen (flashBytes w (info.start * 512) 512) info.size

/-- The number of samples that a pattern asks for. -/
def sampleCount (info : Partition) (pattern : Pattern) : Option Nat :=
  if pattern.cnt = -1 then
    if fileSystemLen w info < 0 then none
    else some ((fileSystemLen w info).toNat / pattern.interval)
  else some pattern.cnt.toNat

/-- One sample. -/
def sample (info : Partition) (pattern : Pattern) (i : Nat) : List UInt8 :=
  flashBytes w (info.start * 512 + i * pattern.interval) pattern.size

/-- The samples of a partition that a pattern asks for. There are none without a length of the file
    system that is asked for, or when a sample is not inside the partition. -/
def sampledBytes (info : Partition) (pattern : Pattern) (full : Int) : Option (List UInt8) :=
  if full = 1 then
    if fileSystemLen w info < 0 then none
    else some (flashBytes w (info.start * 512) (fileSystemLen w info).toNat)
  else
    match sampleCount w info pattern with
    | none => none
    | some cnt =>
      if ∀ i < cnt, i * pattern.interval + pattern.size ≤ info.size * 512 then
        some ((List.range cnt).flatMap (sample w info pattern))
      else none

/-- The signature was right for a buffer with the samples. -/
def Verified (partName : List UInt8) (pattern : Pattern) (full : Int) (log : List (List UInt8)) :
    Prop :=
  ∃ info bytes, w.partitionGetInfo partName = some info ∧
    sampledBytes w info pattern full = some bytes ∧ bytes ∈ log

/-- Where the certificate is, with its length in front of it: behind the file system. -/
def certStart (info : Partition) : Nat := info.start * 512 + (fileSystemLen w info).toNat

/-- The length field of the certificate. -/
def certLen (info : Partition) : Nat := leValue (flashBytes w (certStart w info) 4)

/-- The first state of a call. -/
def St.start (ram : Ram 32) (pattern : Pattern) : St := ⟨ram, pattern, 0, 0, []⟩

/-- The return value and the buffers that have been accepted. -/
def outcome : Result St Exit Int → Option (Int × List (List UInt8))
  | .ret ret s => some (ret, s.log)
  | .gone _ _ => none

theorem length_flashBytes (from' len : Nat) : (flashBytes w from' len).length = len := by
  simp [flashBytes]

theorem read_write_flashBytes (m : Ram 32) {a : BitVec 32} {from' : Nat} {len : Nat}
    (h : len < 2 ^ 32) :
    (m.write a (flashBytes w from' len)).read a len = flashBytes w from' len := by
  have hback : (m.write a (flashBytes w from' len)).read a _ = _ :=
    Ram.read_write (by rw [length_flashBytes]; omega)
  rwa [length_flashBytes] at hback

/-- What turn `k` of the loop over the samples reads. -/
def turn (info : Partition) (pattern : Pattern) (k : Nat) : List UInt8 :=
  flashBytes w ((info.start + u32 (k * pattern.interval : Nat) / 512) % 2 ^ 32 * 512) pattern.size

variable {info : Partition}

section

variable {w} (hread : ∀ k, w.readFault k = none)

include hread

theorem sunxiFlashRead_run (start nblock : Nat) (buffer : BitVec 32) (s : St) :
    sunxiFlashRead w start nblock buffer s = .ret () { s with
      reads := s.reads + 1
      ram := s.ram.write buffer
        (flashBytes w (start % 2 ^ 32 * 512) (nblock % 2 ^ 32 * 512)) } := by
  unfold sunxiFlashRead
  rw [bind_run, look_run, ret_bind, update_run, hread]

theorem readLoop_run (info : Partition) (pattern : Pattern) (p : BitVec 32)
    (hsize : 512 ∣ pattern.size) (n i : Nat) (s : St) (hfit : (i + n) * pattern.size < 2 ^ 32) :
    ∃ s', readLoop w info pattern p n i s = .ret () s' ∧ s'.allocs = s.allocs ∧ s'.log = s.log ∧
      (∀ d < 2 ^ 32, d < i * pattern.size ∨ (i + n) * pattern.size ≤ d →
        s'.ram (p + BitVec.ofNat 32 d) = s.ram (p + BitVec.ofNat 32 d)) ∧
      ∀ k, i ≤ k → k < i + n →
        s'.ram.read (p + BitVec.ofNat 32 (k * pattern.size)) pattern.size =
          turn w info pattern k := by
  induction n generalizing i s with
  | zero => exact ⟨s, rfl, rfl, rfl, fun _ _ _ => rfl, fun k hle hlt => by omega⟩
  | succ n ih =>
    have hexpand : (i + (n + 1)) * pattern.size = i * pattern.size + pattern.size +
        n * pattern.size := by ring
    have hnext : (i + 1) * pattern.size = i * pattern.size + pattern.size := by ring
    have hrest : (i + 1 + n) * pattern.size = (i + (n + 1)) * pattern.size := by ring
    have hblocks : pattern.size / 512 % 2 ^ 32 * 512 = pattern.size := by
      rw [Nat.mod_eq_of_lt (by omega), Nat.div_mul_cancel hsize]
    unfold readLoop
    rw [bind_run, sunxiFlashRead_run hread, ret_bind, hblocks]
    -- the read of this sample, and the loop over the others
    rcases ih (i + 1) _ (hrest ▸ hfit) with ⟨s', hrun, hallocs, hlog, hkeep, hsamples⟩
    refine ⟨s', hrun, hallocs, hlog, fun d hd hout => ?_, fun k hle hlt => ?_⟩
    · rw [hkeep d hd (by omega)]
      refine Ram.write_of_ge ?_
      rw [length_flashBytes, Ram.toNat_add_sub_add _ hd (by omega)]
      omega
    · by_cases hk : k = i
      · subst hk
        refine (Ram.read_congr fun j hj => ?_).trans (read_write_flashBytes w s.ram (by omega))
        rw [Ram.add_ofNat_add]
        exact hkeep (k * pattern.size + j) (by omega) (by omega)
      · exact hsamples k (by omega) (by omega)

theorem calPartioinLen_run {rootfsSb : BitVec 32} {s : St}
    (hmalloc : w.malloc s.allocs = some rootfsSb) (hstart : info.start < 2 ^ 32) :
    ∃ s', calPartioinLen w info s = .ret (fileSystemLen w info) s' ∧ s'.pattern = s.pattern ∧
      s'.allocs = s.allocs + 1 ∧ s'.log = s.log := by
  unfold calPartioinLen
  have hrun : malloc w s = .ret (w.malloc s.allocs) s.alloc := rfl
  rw [bind_run, hrun, hmalloc, ret_bind]
  dsimp only
  rw [bind_run, sunxiFlashRead_run hread, ret_bind, look_run]
  rw [Nat.mod_eq_of_lt hstart, show 1 % 2 ^ 32 * 512 = 512 by decide,
    read_write_flashBytes w _ (by decide)]
  exact ⟨_, rfl, rfl, rfl, rfl⟩

end

/-- The length of a file system is a multiple of the sector size, fits an int, and is not greater
    than the partition. -/
theorem fileSystemLen_range (h : 0 ≤ fileSystemLen w info) (hsize : info.size < 2 ^ 32) :
    512 ∣ (fileSystemLen w info).toNat ∧ (fileSystemLen w info).toNat < 2 ^ 31 ∧
      (fileSystemLen w info).toNat ≤ info.size * 512 := by
  unfold fileSystemLen squashfsLen at *
  dsimp only at h ⊢
  split_ifs at h ⊢ with hmagic hlong
  · omega
  · omega
  · unfold s32 u64 at *
    omega

/-- When the sample buffer holds the samples: the reads succeed, the file system has a length, and
    the pattern asks for whole sectors of the partition at offsets that fit an unsigned int. -/
structure Healthy (info : Partition) (pattern : Pattern) (full : Int) : Prop where
  reads : ∀ k, w.readFault k = none
  superBlock : ∃ a, w.malloc 0 = some a
  start : info.start + info.size < 2 ^ 32
  length : 0 ≤ fileSystemLen w info
  cnt : -1 ≤ pattern.cnt
  interval : 512 ∣ pattern.interval ∧ 0 < pattern.interval
  size : 512 ∣ pattern.size
  samples : full ≠ 1 → ∀ cnt, sampleCount w info pattern = some cnt →
    cnt * pattern.size < 2 ^ 32 ∧ ∀ i < cnt, i * pattern.interval < 2 ^ 32 ∧
      i * pattern.interval + pattern.size ≤ info.size * 512

/-- The buffer for the certificate is there, apart from the samples, and not shorter than the
    certificate. -/
structure Fits (info : Partition) (pattern : Pattern) (full : Int) : Prop where
  buffer : ∃ certBuf, w.malloc 2 = some certBuf ∧
    ∀ a bytes, w.malloc 1 = some a → sampledBytes w info pattern full = some bytes →
      ∀ d < bytes.length, 4608 ≤ (cacheAligned a + BitVec.ofNat 32 d - certBuf).toNat
  length : certLen w info ≤ 4608

variable {w}

variable {pattern : Pattern} {full : Int}

/-- The length of all samples, and the pattern with the number of samples in it. -/
theorem wholeSampleLen_run {s : St} (h : Healthy w info pattern full)
    (hs : s.pattern = pattern) :
    ∃ len s', wholeSampleLen (u64 (fileSystemLen w info)) full s = .ret (some len) s' ∧
      s'.allocs = s.allocs ∧ s'.log = s.log ∧ (full = 1 → len = (fileSystemLen w info).toNat) ∧
      (full ≠ 1 → ∃ cnt, sampleCount w info pattern = some cnt ∧ len = cnt * pattern.size ∧
        s'.pattern = ⟨pattern.size, pattern.interval, cnt⟩) := by
  have hlen := h.length
  rcases fileSystemLen_range w hlen (by have := h.start; omega) with ⟨-, hint, -⟩
  have hu64 : u64 (fileSystemLen w info) = (fileSystemLen w info).toNat := by
    unfold u64
    omega
  unfold wholeSampleLen
  rw [bind_run, look_run, ret_bind, hu64, hs]
  by_cases hfull : full = 1
  · rw [if_pos hfull]
    refine ⟨_, s, rfl, rfl, rfl, fun _ => Nat.mod_eq_of_lt (by omega), fun hn => absurd hfull hn⟩
  rw [if_neg hfull]
  by_cases hcnt : pattern.cnt = -1
  · have hcount : sampleCount w info pattern =
        some ((fileSystemLen w info).toNat / pattern.interval) := by
      unfold sampleCount
      rw [if_pos hcnt, if_neg (by omega)]
    have hquot : (fileSystemLen w info).toNat / pattern.interval < 2 ^ 31 :=
      lt_of_le_of_lt (Nat.div_le_self _ _) hint
    have hpos := h.interval.2
    rw [if_pos hcnt, if_neg (by omega), if_neg (by omega)]
    generalize (fileSystemLen w info).toNat / pattern.interval = q at hcount hquot ⊢
    have hs32 : s32 q = q := s32_of_range
    refine ⟨_, _, rfl, rfl, rfl, fun h => absurd h hfull, fun _ => ⟨q, hcount, ?_, ?_⟩⟩
    · rw [hs32]
      exact u32_of_range _ (by push_cast; rfl) (h.samples hfull q hcount).1
    · simp only [hs32, hs]
  · have hcount : sampleCount w info pattern = some pattern.cnt.toNat := if_neg hcnt
    have hnonneg := h.cnt
    have hcast : (pattern.cnt.toNat : Int) = pattern.cnt := Int.toNat_of_nonneg (by omega)
    rw [if_neg hcnt]
    refine ⟨_, s, rfl, rfl, rfl, fun h => absurd h hfull, fun _ => ⟨_, hcount, ?_, ?_⟩⟩
    · refine u32_of_range _ ?_ (h.samples hfull _ hcount).1
      push_cast
      rw [hcast]
    · rw [hs, hcast]

theorem sample_eq {i : Nat} (hstart : info.start + info.size < 2 ^ 32)
    (hdvd : 512 ∣ pattern.interval) (hoff : i * pattern.interval < 2 ^ 32)
    (hin : i * pattern.interval + pattern.size ≤ info.size * 512) :
    turn w info pattern i = sample w info pattern i := by
  have hmul : i * pattern.interval / 512 * 512 = i * pattern.interval :=
    Nat.div_mul_cancel (hdvd.mul_left i)
  unfold turn sample
  rw [u32_of_range _ rfl hoff, Nat.mod_eq_of_lt (by omega), Nat.add_mul, hmul]

/-- The reads put the samples into their buffer. -/
theorem readSamples_run {p : BitVec 32} {len : Nat} {s : St}
    (h : Healthy w info pattern full)
    (hfull : full = 1 → len = (fileSystemLen w info).toNat)
    (hpieces : full ≠ 1 → ∃ cnt, sampleCount w info pattern = some cnt ∧ len = cnt * pattern.size ∧
      s.pattern = ⟨pattern.size, pattern.interval, cnt⟩) :
    ∃ bytes s', sampledBytes w info pattern full = some bytes ∧ bytes.length = len ∧
      readSamples w info full len p s = .ret () s' ∧ s'.allocs = s.allocs ∧ s'.log = s.log ∧
      s'.ram.read p len = bytes := by
  have hlen := h.length
  have hstart := h.start
  unfold readSamples sampledBytes
  by_cases hone : full = 1
  · -- the whole file system with one read
    rcases fileSystemLen_range w hlen (by omega) with ⟨hdvd, hint, -⟩
    have hblocks : (fileSystemLen w info).toNat / 512 % 2 ^ 32 * 512 =
        (fileSystemLen w info).toNat := by
      rw [Nat.mod_eq_of_lt (by omega), Nat.div_mul_cancel hdvd]
    rw [if_pos hone, if_pos hone, if_neg (by omega), hfull hone,
      sunxiFlashRead_run h.reads, hblocks, Nat.mod_eq_of_lt (by omega)]
    refine ⟨_, _, rfl, length_flashBytes _ _ _, rfl, rfl, rfl, ?_⟩
    dsimp only
    rw [read_write_flashBytes w s.ram (by omega)]
  · rcases hpieces hone with ⟨cnt, hcount, hlength, hpattern⟩
    rcases h.samples hone cnt hcount with ⟨hfit, hsample⟩
    rcases readLoop_run h.reads info ⟨pattern.size, pattern.interval, cnt⟩ p h.size cnt 0 s
      (by simpa using hfit) with ⟨s', hrun, hallocs, hlog, -, hread⟩
    have hbytes : s'.ram.read p len = (List.range cnt).flatMap (sample w info pattern) := by
      rw [hlength]
      refine Ram.read_mul cnt fun k hk => ?_
      rw [← sample_eq h.start h.interval.1 (hsample k hk).1 (hsample k hk).2]
      exact hread k (by omega) (by omega)
    rw [if_neg hone, if_neg hone, hcount, bind_run, look_run, ret_bind, hpattern]
    dsimp only [Int.toNat_natCast]
    rw [if_pos fun i hi => (hsample i hi).2]
    refine ⟨_, s', rfl, ?_, hrun, hallocs, hlog, hbytes⟩
    rw [← hbytes, Ram.length_read]

/-- Without a sample buffer there is an error, and with one the samples are in it. -/
theorem gatherSamples_run (ram : Ram 32) {partName : List UInt8}
    (h : Healthy w info pattern full) (hinfo : w.partitionGetInfo partName = some info) :
    (w.malloc 1 = none ∧
      ∃ s', gatherSamples w partName full (St.start ram pattern) = .ret (.error (-1)) s') ∨
    ∃ a bytes s', w.malloc 1 = some a ∧ sampledBytes w info pattern full = some bytes ∧
      gatherSamples w partName full (St.start ram pattern) =
        .ret (.ok ⟨info, (fileSystemLen w info).toNat, cacheAligned a, bytes.length⟩) s' ∧
      s'.allocs = 2 ∧ s'.log = [] ∧ s'.ram.read (cacheAligned a) bytes.length = bytes := by
  have hlen := h.length
  have hstart := h.start
  rcases fileSystemLen_range w hlen (by omega) with ⟨-, hint, -⟩
  have hu64 : u64 (fileSystemLen w info) = (fileSystemLen w info).toNat := by
    unfold u64
    omega
  rcases h.superBlock with ⟨rootfsSb, hmalloc⟩
  have hlength : ∃ s', calPartioinLen w info (St.start ram pattern) =
    .ret (fileSystemLen w info) s' ∧
      s'.pattern = pattern ∧ s'.allocs = 0 + 1 ∧ s'.log = [] :=
    calPartioinLen_run h.reads hmalloc (by omega)
  rcases hlength with ⟨s₁, hrun₁, hpattern₁, hallocs₁, hlog₁⟩
  rcases wholeSampleLen_run h hpattern₁ with ⟨len, s₂, hrun₂, hallocs₂, hlog₂, hfull, hpieces⟩
  have halloc : malloc w s₂ = .ret (w.malloc 1) s₂.alloc := by
    rw [show 1 = s₂.allocs from (hallocs₂.trans hallocs₁).symm]
    rfl
  unfold gatherSamples
  rw [hinfo]
  dsimp only
  rw [bind_run, hrun₁, ret_bind, bind_run, hrun₂, ret_bind]
  dsimp only
  rw [bind_run, halloc, ret_bind]
  rcases w.malloc 1 with - | a
  · exact .inl ⟨rfl, _, rfl⟩
  rcases readSamples_run (p := cacheAligned a) (s := s₂.alloc) h hfull hpieces with
    ⟨bytes, s₃, hbytes, hcount, hrun₃, hallocs₃, hlog₃, hread⟩
  refine .inr ⟨a, bytes, s₃, rfl, hbytes, ?_, ?_, ?_, ?_⟩
  · dsimp only
    rw [bind_run, hrun₃, ret_bind, hu64, hcount]
    rfl
  · rw [hallocs₃]
    exact congrArg (· + 1) (hallocs₂.trans hallocs₁)
  · exact hlog₃.trans (hlog₂.trans hlog₁)
  · rw [hcount, hread]

/-- The certificate is read behind the file system, and if it is not longer than its buffer it
    leaves the samples alone. -/
theorem checkSamples_run (certName : List UInt8) {bytes : List UInt8}
    {p certBuf : BitVec 32} {s : St}
    (h : Healthy w info pattern full) (hmalloc : w.malloc s.allocs = some certBuf)
    (hapart : ∀ d < bytes.length, 4608 ≤ (p + BitVec.ofNat 32 d - certBuf).toNat)
    (hcert : certLen w info ≤ 4608) (hbytes : s.ram.read p bytes.length = bytes) :
    ∃ cert s', (certLen w info ≤ 4604 →
        cert = flashBytes w (certStart w info + 4) (certLen w info)) ∧
      checkSamples w ⟨info, (fileSystemLen w info).toNat, p, bytes.length⟩ certName s =
        .ret (w.verifyEmbedSignature bytes certName cert) s' ∧
      s'.log = s.log ++ if w.verifyEmbedSignature bytes certName cert = 0 then [bytes] else [] := by
  have hstart := h.start
  rcases fileSystemLen_range w h.length (by omega) with ⟨hdvd, -, hsize⟩
  have hfrom : (info.start + (fileSystemLen w info).toNat / 512) % 2 ^ 32 * 512 =
    certStart w info := by
    rw [Nat.mod_eq_of_lt (by omega), Nat.add_mul, Nat.div_mul_cancel hdvd]
    rfl
  have hsector := length_flashBytes w (certStart w info) 4608
  -- the memory with the sectors of the certificate in its buffer
  obtain ⟨m, hm⟩ : ∃ m : Ram 32, m = (s.ram.write certBuf (replicate 4100 0)).write certBuf
      (flashBytes w (certStart w info) 4608) := ⟨_, rfl⟩
  have hfield : leValue (m.read certBuf 4) = certLen w info := by
    rw [hm, Ram.read_write_take (by omega) (by omega), certLen]
    simp only [flashBytes, ← map_take, take_range]
    rfl
  have hkeep : (m.memcpy certBuf (certBuf + 4) (certLen w info)).read p bytes.length = bytes := by
    refine Eq.trans (Ram.read_congr fun d hd => ?_) hbytes
    have hfar := hapart d hd
    rw [Ram.memcpy_of_ge (hcert.trans hfar), hm, Ram.write_of_ge (by omega),
      Ram.write_of_ge (by rw [length_replicate]; omega)]
  have hload : loadCert w ⟨info, (fileSystemLen w info).toNat, p, bytes.length⟩ certBuf s.alloc =
      .ret (certLen w info) { s.alloc with
        reads := s.reads + 1
        ram := m.memcpy certBuf (certBuf + 4) (certLen w info) } := by
    unfold loadCert
    rw [bind_run, update_run, ret_bind, bind_run, sunxiFlashRead_run h.reads, hfrom,
      show 9 % 2 ^ 32 * 512 = 4608 from rfl, ret_bind, bind_run, look_run, ret_bind, bind_run,
      update_run, ret_bind, pure_run]
    dsimp only [St.alloc]
    rw [← hm, hfield]
  have hrun : malloc w s = .ret (some certBuf) s.alloc := by
    rw [← hmalloc]
    rfl
  unfold checkSamples
  rw [bind_run, hrun, ret_bind]
  dsimp only
  rw [bind_run, hload, ret_bind, bind_run, look_run, ret_bind, bind_run, update_run, ret_bind,
    pure_run]
  dsimp only
  rw [hkeep]
  refine ⟨_, _, fun hshort => ?_, rfl, ?_⟩
  · have hback : (certBuf - (certBuf + 4)).toNat = 2 ^ 32 - 4 := by
      rw [sub_add_cancel_left]
      decide
    rw [Ram.memcpy_eq_write (by omega) (.inr (by omega))]
    refine Eq.trans (congrArg (Ram.read _ _) (Ram.length_read m (certBuf + 4) _).symm)
      ((Ram.read_write (by rw [Ram.length_read]; omega)).trans ?_)
    refine Ram.ext_getD (by simp [flashBytes]) fun i hi => ?_
    rw [Ram.length_read] at hi
    rw [Ram.getD_read _ _ hi, show certBuf + 4 = certBuf + BitVec.ofNat 32 4 from rfl,
      Ram.add_ofNat_add, hm, Ram.write_of_lt (by omega) (by omega)]
    simp [flashBytes, getD_eq_getElem?_getD, hi, show 4 + i < 4608 by omega, Nat.add_assoc]
  · split
    · rfl
    · exact (append_nil _).symm

end

/-- A board with a file system of 4096 bytes from sector 8 on and a certificate of three bytes
    behind it, for which the signature is right. -/
def healthyBoard : World where
  partitionGetInfo _ := some ⟨8, 16⟩
  flash x := if 8192 ≤ x then [3, 0, 0, 0, 7, 8, 9].getD (x - 8192) 0
    else [0x68, 0x73, 0x71, 0x73].getD (x - 4096) (if x = 4136 then 1 else 0)
  malloc k := some (BitVec.ofNat 32 (k * 65536))
  readFault _ := none
  verifyEmbedSignature _ _ cert := if cert = [7, 8, 9] then 0 else -1

/-- A sector of every two. -/
def everySecond : Pattern := ⟨512, 1024, -1⟩

theorem healthyBoard_healthy : Healthy healthyBoard ⟨8, 16⟩ everySecond 0 := by
  refine ⟨fun _ => rfl, ⟨_, rfl⟩, by decide, by decide +kernel, by decide, by decide, by decide, ?_⟩
  intro _ cnt hcnt
  have hfour : sampleCount healthyBoard ⟨8, 16⟩ everySecond = some 4 := by decide +kernel
  obtain rfl : 4 = cnt := Option.some.inj (hfour.symm.trans hcnt)
  exact ⟨by decide, by decide⟩

theorem healthyBoard_fits : Fits healthyBoard ⟨8, 16⟩ everySecond 0 := by
  refine ⟨⟨_, rfl, fun a bytes ha hbytes d hd => ?_⟩, by decide +kernel⟩
  have hlen : (sampledBytes healthyBoard ⟨8, 16⟩ everySecond 0).map length = some 2048 := by
    decide +kernel
  rw [hbytes] at hlen
  have hd' : d < 2048 := Option.some.inj hlen ▸ hd
  cases ha
  rw [show cacheAligned (BitVec.ofNat 32 (1 * 65536)) = BitVec.ofNat 32 65536 by decide +kernel]
  bv_omega

/-- A board with one partition of eight sectors and an empty flash. No signature is right, the third
    allocation fails. -/
def scarceBoard : World where
  partitionGetInfo _ := some ⟨0, 8⟩
  flash _ := 0
  malloc k := if k = 2 then none else some (BitVec.ofNat 32 (k * 4096))
  readFault _ := none
  verifyEmbedSignature _ _ _ := -1

end Brandy.PartitionVerifier
