import Brandy.Core.Vbmeta

/-!
# Which Descriptor an Image Is Verified With

An image that `verify_image_by_vbmeta` accepts has been compared with one hash descriptor, which the
lookup has chosen. It compares as many bytes of the names as the descriptor says, so the name of the
descriptor may be a part of the image name, or empty. Likewise 32 bytes are compared with the hash,
whatever the length of the digest is, and nothing keeps a descriptor from running out of the blob.

## Main definitions

* `Matches`: A descriptor at which the search ends.
* `Proper`, `Tidy`: What the code does not check of a descriptor, and a blob where it holds.
* `Binds`: A descriptor is for an image.

## Theorems

* `choose_spec`, `acceptBlob_spec`, `checkImage_spec`: The stages of the verification.
* `image_bound`: An accepted image is bound to a descriptor.
-/

namespace Brandy.Vbmeta

open Process List
open Text

/-- `s'` has the same memory. -/
def SameRam (s s' : St) : Prop := s'.ram = s.ram

instance : Std.Refl SameRam := ⟨fun _ => rfl⟩

instance : IsTrans St SameRam := ⟨fun _ _ _ h h' => Eq.trans h' h⟩

section

variable (w : World)

/-- The lookup of a descriptor, in the blob and then in the partition of the image. -/
def choose (imageName : CString) (b : Blob) (pubkeyInToc1 : CString) :
    Verifier (Option (Blob × CString × HashDescriptor)) := do
  match ← sunxiAvbGetHashDescriptorByName w b imageName with
  | some d => return some (b, pubkeyInToc1, d)
  | none =>
    if imageName ≠ pubkeyInToc1 then
      match ← sunxiAvbReadVbmetaInPartition w imageName with
      | none => return none
      | some b' =>
        match ← sunxiAvbGetHashDescriptorByName w b' imageName with
        | some d => return some (b', imageName, d)
        | none => return none
    else return none

/-- The verification from the chosen descriptor on. -/
def verifyChosen (imageData : BitVec 32) (imageLen : Nat) :
    Option (Blob × CString × HashDescriptor) → Verifier Int
  | none => return -1
  | some (b, pubkeyInToc1, d) => do
    if ← acceptBlob w b pubkeyInToc1 then checkImage w imageData imageLen b d
    else return -1

theorem verify_eq_choose (imageName : CString) (imageData : BitVec 32) (imageLen : Nat) (b : Blob)
    (pubkeyInToc1 : CString) (s : St) :
    verifyImageByVbmeta w imageName imageData imageLen 2 b pubkeyInToc1 s =
      (choose w imageName b pubkeyInToc1 >>= verifyChosen w imageData imageLen) s := by
  unfold verifyImageByVbmeta choose
  rw [bind_run, bind_run, bind_run]
  rcases sunxiAvbGetHashDescriptorByName w b imageName s with ⟨_ | d, s₁⟩ | ⟨e, s₁⟩
  rotate_left
  · rfl
  · rfl
  rw [ret_bind, ret_bind]
  dsimp only
  by_cases hname : imageName ≠ pubkeyInToc1
  · rw [if_pos hname, if_pos hname, bind_run, bind_run]
    rcases sunxiAvbReadVbmetaInPartition w imageName s₁ with ⟨_ | b', s₂⟩ | ⟨e, s₂⟩
    · rfl
    · rw [ret_bind, ret_bind]
      dsimp only
      -- the second call looks with the image name as the name of the key
      unfold verifyImageByVbmeta
      rw [bind_run, bind_run]
      rcases sunxiAvbGetHashDescriptorByName w b' imageName s₂ with ⟨_ | d, s₃⟩ | ⟨e, s₃⟩
      · rw [ret_bind, ret_bind, if_neg (not_not.mpr rfl)]
        rfl
      · rfl
      · rfl
    · rfl
  · rw [if_neg hname, if_neg hname]
    rfl

/-- The place behind a descriptor. -/
def Blob.next (b : Blob) (p : BitVec 32) : BitVec 32 := p + BitVec.ofNat 32 (b.nbTotal p)

/-- The places a loop over the descriptors looks at that ends where `stop` holds. -/
inductive Visits (b : Blob) (stop : BitVec 32 → Prop) : BitVec 32 → Prop
  | start : ¬ b.DescOutside → b.descStart.toNat < b.descEnd.toNat → Visits b stop b.descStart
  | next {p : BitVec 32} : Visits b stop p → ¬ stop p → (b.next p).toNat < b.descEnd.toNat →
      Visits b stop (b.next p)

/-- The places of a loop that does not stop: the descriptors of a blob. -/
abbrev Walked (b : Blob) : BitVec 32 → Prop := Visits b fun _ => False

/-- The search ends at a valid hash descriptor whose name agrees with the image name for the length
    it has. -/
def Stops (b : Blob) (name : CString) (p : BitVec 32) : Prop :=
  b.field p 8 = tagHash ∧ validateAndByteswap b p ∧
    sameName w b (p + 132) name (hashDescriptor b p).partitionNameLen

/-- A descriptor of the blob at which the search ends. -/
structure Matches (name : CString) (b : Blob) (d : HashDescriptor) : Prop where
  fields : d = hashDescriptor b d.at'
  walked : Walked b d.at'
  stops : Stops w b name d.at'

theorem allocate_sameRam : Moves SameRam (allocate w) :=
  .bind (.look _) fun _ => .bind (.update fun _ => rfl) fun _ => .pure _

theorem searchLoop_sameRam (b : Blob) (descEnd : BitVec 32) (name : CString) (turns : Nat)
    (p : BitVec 32) : Moves SameRam (searchLoop w b descEnd name turns p) := by
  induction turns generalizing p with
  | zero => exact .leave _
  | succ turns ih =>
    refine .ite (fun _ => .ite (fun _ => ?_) fun _ => ih _) fun _ => .pure _
    refine .bind (allocate_sameRam w) fun ok => ?_
    exact .ite (fun _ => .pure _) fun _ => .pure _

variable (name : CString)

theorem searchLoop_found {b : Blob} (turns : Nat) {p : BitVec 32}
    (hp : p.toNat < b.descEnd.toNat → Walked b p) :
    Returns (fun _ => True) (searchLoop w b b.descEnd name turns p) fun r _ =>
      ∀ d, r = .found d → Matches w name b d := by
  induction turns generalizing p with
  | zero => exact .leave _
  | succ turns ih =>
    refine .ite (fun hlt => .ite (fun hmatch => ?_) fun _ => ih (.next (hp hlt) id)) fun _ =>
      .pure fun _ _ d h => by cases h
    refine .bind (Q := fun _ _ => True) (fun _ _ _ _ _ => trivial) fun ok => ?_
    refine .ite (fun _ => .pure fun _ _ d h => ?_) fun _ => .pure fun _ _ d h => by cases h
    cases h
    exact ⟨rfl, hp hlt, hmatch⟩

theorem getHashDescriptor_sameRam (b : Blob) {name : CString} :
    Moves SameRam (sunxiAvbGetHashDescriptorByName w b name) := by
  refine .bind (.ite (fun _ => .pure _) fun _ => searchLoop_sameRam w _ _ _ _ _) fun r => ?_
  cases r with
  | found d => exact .pure _
  | failed ret => exact .pure _

theorem getHashDescriptor_found {b : Blob} {name : CString} :
    Returns (fun _ => True) (sunxiAvbGetHashDescriptorByName w b name) fun r _ =>
      ∀ d, r = some d → Matches w name b d := by
  refine .bind (Q := fun r _ => ∀ d, r = Lookup.found d → Matches w name b d)
    (.ite (fun _ => .pure fun _ _ d h => by cases h) fun hin =>
      searchLoop_found w name w.turns (.start hin)) fun r => ?_
  cases r with
  | found d =>
    refine .pure fun s hs d' h => ?_
    cases h
    exact hs d rfl
  | failed ret => exact .pure fun _ _ d h => by cases h

theorem readVbmeta_sameRam :
    Moves SameRam (sunxiAvbReadVbmetaInPartition w name) := by
  unfold sunxiAvbReadVbmetaInPartition
  cases w.partitionInfo name.bytes with
  | none => exact .pure _
  | some info =>
    refine .ite (fun _ => .pure _) fun _ => .bind (allocate_sameRam w) fun ok => ?_
    exact .ite (fun _ => .pure _) fun _ => .pure _

/-- The lookup leaves the memory alone, and the chosen descriptor has been compared. -/
theorem choose_sameRam (b : Blob) (pubkeyInToc1 : CString) :
    Moves SameRam (choose w name b pubkeyInToc1) := by
  refine .bind (getHashDescriptor_sameRam w b) fun r => ?_
  cases r with
  | some d => exact .pure _
  | none =>
    refine .ite (fun _ => .bind (readVbmeta_sameRam w name) fun r => ?_) fun _ => .pure _
    cases r with
    | none => exact .pure _
    | some b' =>
      refine .bind (getHashDescriptor_sameRam w b') fun r => ?_
      cases r <;> exact .pure _

/-- A blob that is looked at: the one given, or the one in the partition of the image. -/
def Considered (imageName : CString) (b b' : Blob) : Prop :=
  b' = b ∨ ∃ s s', sunxiAvbReadVbmetaInPartition w imageName s = .ret (some b') s'

theorem choose_spec (b : Blob) (pubkeyInToc1 : CString) :
    Returns (fun _ => True) (choose w name b pubkeyInToc1) fun r _ =>
      ∀ b' pub d, r = some (b', pub, d) → Considered w name b b' ∧ Matches w name b' d := by
  refine .bind (getHashDescriptor_found w) fun r => ?_
  cases r with
  | some d =>
    refine .pure fun s hs b' pub d' h => ?_
    cases h
    exact ⟨.inl rfl, hs d rfl⟩
  | none =>
    refine .ite (fun _ => ?_) fun _ => .pure fun _ _ b' pub d h => by cases h
    refine .bind (Q := fun r _ => ∀ b', r = some b' → Considered w name b b')
      (fun s _ r s' hread b' hr => .inr ⟨s, s', hr ▸ hread⟩) fun r => ?_
    cases r with
    | none => exact .pure fun _ _ b' pub d h => by cases h
    | some b₁ =>
      intro s hs
      refine Returns.bind (getHashDescriptor_found w) (fun r => ?_) s trivial
      cases r with
      | none => exact .pure fun _ _ b' pub d h => by cases h
      | some d =>
        refine .pure fun _ hd b' pub d' h => ?_
        cases h
        exact ⟨hs b₁ rfl, hd d rfl⟩

/-- The blob has passed the check with its own key, and the key is known, or it has been accepted as
    a whole. -/
def BlobAccepted (b : Blob) (pubkeyInToc1 : CString) : Prop :=
  (∃ s s' key, sunxiVbmetaSelfVerify w b s = .ret (0, some key) s' ∧
      w.checkPublicInRootcert (slotVbmeta w pubkeyInToc1) key = 0) ∨
    w.sunxiVerifySignature (b.ram.read b.data b.len.toNat) (slotVbmeta w pubkeyInToc1) = 0

theorem selfVerify_sameRam (b : Blob) : Moves SameRam (sunxiVbmetaSelfVerify w b) := by
  refine .ite (fun _ => .pure _) fun _ => .ite (fun _ => .pure _) fun _ =>
    .ite (fun _ => .pure _) fun _ => .bind (allocate_sameRam w) fun _ => ?_
  refine .ite (fun _ => ?_) fun _ => .leave _
  refine .ite (fun _ => .pure _) fun _ => .ite (fun _ => .pure _) fun _ =>
    .bind (allocate_sameRam w) fun _ => ?_
  refine .ite (fun _ => .bind (allocate_sameRam w) fun _ => ?_) fun _ => .pure _
  exact .ite (fun _ => .ite (fun _ => .pure _) fun _ => .pure _) fun _ => .pure _

theorem selfVerify_key (b : Blob) :
    Returns (fun _ => True) (sunxiVbmetaSelfVerify w b) fun r _ =>
      ∀ key, r.2 = some key → r = (0, some b.key) := by
  have hnone : ∀ (ret : Int), Returns (fun _ => True)
      (pure (ret, none) : Verifier (Int × Option Key))
      fun r _ => ∀ key, r.2 = some key → r = (0, some b.key) :=
    fun ret => .pure fun _ _ key h => by cases h
  have hany : ∀ {α : Type} (p : Verifier α), Returns (fun _ => True) p fun _ _ => True :=
    fun _ _ _ _ _ _ => trivial
  refine .ite (fun _ => hnone _) fun _ => .ite (fun _ => hnone _) fun _ =>
    .ite (fun _ => hnone _) fun _ => .bind (hany _) fun _ => ?_
  refine .ite (fun _ => ?_) fun _ => .leave _
  refine .ite (fun _ => hnone _) fun _ => .ite (fun _ => hnone _) fun _ =>
    .bind (hany _) fun _ => ?_
  refine .ite (fun _ => .bind (hany _) fun _ => ?_) fun _ => hnone _
  exact .ite (fun _ => .ite (fun _ => hnone _) fun _ => .pure fun _ _ _ _ => rfl) fun _ => hnone _

theorem acceptBlob_sameRam (b : Blob) (pubkeyInToc1 : CString) :
    Moves SameRam (acceptBlob w b pubkeyInToc1) := by
  refine .bind (selfVerify_sameRam w b) fun r => .ite (fun _ => .pure _) fun _ => ?_
  cases r.2 <;> exact .pure _

variable {b : Blob}

theorem acceptBlob_spec {pubkeyInToc1 : CString} {s s' : St}
    (h : acceptBlob w b pubkeyInToc1 s = .ret true s') : BlobAccepted w b pubkeyInToc1 := by
  unfold acceptBlob at h
  rw [bind_run] at h
  have hkey := selfVerify_key w b s trivial
  rcases hself : sunxiVbmetaSelfVerify w b s with ⟨⟨ret, key⟩, s₁⟩ | ⟨e, s₁⟩
  · rw [hself, ret_bind] at h
    dsimp only at h
    split_ifs at h
    · injection h with hok
      exact .inr (of_decide_eq_true hok)
    cases key with
    | none =>
      injection h with hok
      cases hok
    | some key =>
      injection h with hok
      have hpair := hkey _ _ hself key rfl
      rw [hpair] at hself
      injection hpair with _ hsome
      cases hsome
      exact .inl ⟨s, s₁, b.key, hself, of_decide_eq_true hok⟩
  · rw [hself] at h
    cases h

/-- The bytes of which the hash is computed. -/
def hashedImage (imageData : BitVec 32) (imageLen : Nat) (b : Blob) (d : HashDescriptor)
    (m : Ram 32) : List UInt8 :=
  (m.write (imageData - BitVec.ofNat 32 d.saltLen)
      (copyBytes w b d (descriptorSize + d.partitionNameLen) d.saltLen)).read
    (imageData - BitVec.ofNat 32 d.saltLen) ((d.saltLen + imageLen) % 2 ^ 32)

/-- The memory with the salt in front of the image. -/
def salted (imageData : BitVec 32) (b : Blob) (d : HashDescriptor) (m : Ram 32) : Ram 32 :=
  m.write (imageData - BitVec.ofNat 32 d.saltLen)
    (copyBytes w b d (descriptorSize + d.partitionNameLen) d.saltLen)

variable {d : HashDescriptor}

theorem checkImage_eq (imageData : BitVec 32) (imageLen : Nat) (b : Blob) (s : St) :
    checkImage w imageData imageLen b d s =
      if imageLen ≠ d.imageSize then .ret (-1) s
      else if w.alloc s.allocs = false then .ret (-1) { s with allocs := s.allocs + 1 }
      else if w.sha256 (hashedImage w imageData imageLen b d s.ram) =
          copyBytes w b d (descriptorSize + d.partitionNameLen + d.saltLen) 32 then
        let saltBufLen := (d.saltLen + 63) / 64 * 64 % 2 ^ 32
        .ret 0 ⟨(salted w imageData b d s.ram).write (imageData - BitVec.ofNat 32 saltBufLen)
          (s.ram.read (imageData - BitVec.ofNat 32 saltBufLen) saltBufLen), s.allocs + 1⟩
      else .ret (-1) ⟨salted w imageData b d s.ram, s.allocs + 1⟩ := by
  unfold checkImage
  by_cases hsize : imageLen = d.imageSize
  · have halloc : allocate w s = .ret (w.alloc s.allocs) { s with allocs := s.allocs + 1 } := rfl
    rw [if_neg (not_not.mpr hsize), if_neg (not_not.mpr hsize), bind_run, halloc, ret_bind]
    cases w.alloc s.allocs with
    | false => rfl
    | true =>
      rw [if_neg (by decide : ¬true = false), if_pos rfl, bind_run, look_run, ret_bind, bind_run,
        update_run, ret_bind, bind_run, look_run, ret_bind]
      by_cases hhash : w.sha256 (hashedImage w imageData imageLen b d s.ram) =
          copyBytes w b d (descriptorSize + d.partitionNameLen + d.saltLen) 32
      · rw [if_neg fun hbad => hbad.1 hhash.symm, if_pos hhash]
        rfl
      -- the computation in software agrees with the first one
      have hsoft : softwareVerify w (hashedImage w imageData imageLen b d s.ram)
          (copyBytes w b d (descriptorSize + d.partitionNameLen + d.saltLen) 32) ≠ 0 := by
        unfold softwareVerify
        split <;> decide
      rw [if_pos ⟨fun heq => hhash heq.symm, hsoft⟩, if_neg hhash]
      rfl
  · rw [if_pos hsize, if_pos hsize]
    rfl

variable {imageData : BitVec 32} {imageLen : Nat}

theorem checkImage_spec {s s' : St}
    (h : checkImage w imageData imageLen b d s = .ret 0 s') :
    imageLen = d.imageSize ∧
      w.sha256 (hashedImage w imageData imageLen b d s.ram) =
        copyBytes w b d (descriptorSize + d.partitionNameLen + d.saltLen) 32 := by
  rw [checkImage_eq] at h
  split_ifs at h with hsize _ hhash
  · cases h
  · cases h
  · exact ⟨not_not.mp hsize, hhash⟩
  · cases h

/-- The salt of a descriptor. -/
def salt (b : Blob) (d : HashDescriptor) : List UInt8 :=
  b.ram.read (d.at' + BitVec.ofNat 32 (descriptorSize + d.partitionNameLen)) d.saltLen

/-- The digest of a descriptor. -/
def digest (b : Blob) (d : HashDescriptor) : List UInt8 :=
  b.ram.read (d.at' + BitVec.ofNat 32 (descriptorSize + d.partitionNameLen + d.saltLen)) d.digestLen

/-- A descriptor lies in its blob. -/
def Inside (b : Blob) (d : HashDescriptor) : Prop :=
  (d.at' - b.data).toNat + (16 + d.numBytesFollowing) ≤ b.len.toNat

/-- A hash descriptor in the blob is for an image: it has the name, the length and the hash of the
    image. -/
structure Binds (imageName : CString) (image : List UInt8) (b : Blob) (d : HashDescriptor) :
    Prop where
  fields : d = hashDescriptor b d.at'
  walked : Walked b d.at'
  valid : validateAndByteswap b d.at' = true
  inside : Inside b d
  name : b.ram.read (d.at' + 132) d.partitionNameLen = imageName.bytes
  size : d.imageSize = image.length
  digest : w.sha256 (salt b d ++ image) = digest b d

/-- What the code does not check of a descriptor: it lies in the blob, its name is as long as the
    image name, its digest has 32 bytes, and the salted length does not wrap. -/
structure Proper (imageName : CString) (imageLen : Nat) (b : Blob) (d : HashDescriptor) : Prop where
  inside : Inside b d
  name : d.partitionNameLen = imageName.bytes.length
  digest : d.digestLen = 32
  salted : d.saltLen + imageLen < 2 ^ 32

/-- Every hash descriptor of the blob whose name agrees with the image name is as it should be. -/
def Tidy (imageName : CString) (imageLen : Nat) (b : Blob) : Prop :=
  ∀ p, Walked b p → Stops w b imageName p → Proper imageName imageLen b (hashDescriptor b p)

theorem copyBytes_eq {from' len : Nat} (hin : Inside b d)
    (hle : from' + len ≤ 16 + d.numBytesFollowing) :
    copyBytes w b d from' len = b.ram.read (d.at' + BitVec.ofNat 32 from') len := by
  unfold Inside at hin
  refine Ram.ext_getD (by simp [copyBytes]) fun i hi => ?_
  have hi' : i < len := by simpa [copyBytes] using hi
  rw [Ram.getD_read _ _ hi', Ram.add_ofNat_add]
  have hbyte : (copyBytes w b d from' len).getD i 0 = copyByte w b d (from' + i) := by
    simp [copyBytes, getD_eq_getElem?_getD, hi']
  rw [hbyte]
  unfold copyByte
  rw [if_pos (by omega)]

/-- What the lookup has validated: name, salt and digest are parts of the descriptor. -/
theorem Matches.lengths {name : CString} (h : Matches w name b d) :
    descriptorSize + d.partitionNameLen + d.saltLen + d.digestLen ≤ 16 + d.numBytesFollowing := by
  have hvalid := h.stops.2.1
  unfold validateAndByteswap at hvalid
  rw [← h.fields] at hvalid
  simp only [Bool.and_eq_true, decide_eq_true_eq] at hvalid
  have hsum := hvalid.2
  omega

theorem map_nameByte :
    (List.range name.bytes.length).map (nameByte w name) = name.bytes := by
  refine Ram.ext_getD (by simp) fun i hi => ?_
  have hi' : i < name.bytes.length := by simpa using hi
  have hbyte : ((List.range name.bytes.length).map (nameByte w name)).getD i 0 =
      nameByte w name i := by simp [getD_eq_getElem?_getD, hi']
  rw [hbyte]
  exact if_pos hi'

theorem hashedImage_eq {m : Ram 32}
    (hsalt : copyBytes w b d (descriptorSize + d.partitionNameLen) d.saltLen = salt b d)
    (hlt : d.saltLen + imageLen < 2 ^ 32) :
    hashedImage w imageData imageLen b d m = salt b d ++ m.read imageData imageLen := by
  have hlen : (salt b d).length = d.saltLen := Ram.length_read _ _ _
  unfold hashedImage
  rw [hsalt, Nat.mod_eq_of_lt hlt, Ram.read_add]
  have hfront : Ram.read (m.write (imageData - BitVec.ofNat 32 d.saltLen) (salt b d))
      (imageData - BitVec.ofNat 32 d.saltLen) (salt b d).length = _ := Ram.read_write (by omega)
  rw [hlen] at hfront
  rw [hfront, BitVec.sub_add_cancel]
  congr 1
  refine Ram.read_write_of_ge fun i hi => ?_
  have haddr : imageData + BitVec.ofNat 32 i =
      imageData - BitVec.ofNat 32 d.saltLen + BitVec.ofNat 32 (d.saltLen + i) := by
    rw [← Ram.add_ofNat_add, BitVec.sub_add_cancel]
  rw [haddr, Ram.toNat_add_sub (by omega), hlen]
  omega

theorem binds_of_proper {imageName : CString} {m : Ram 32}
    (hmatch : Matches w imageName b d) (h : Proper imageName imageLen b d)
    (hsize : imageLen = d.imageSize)
    (hhash : w.sha256 (hashedImage w imageData imageLen b d m) =
      copyBytes w b d (descriptorSize + d.partitionNameLen + d.saltLen) 32) :
    Binds w imageName (m.read imageData imageLen) b d := by
  have hlengths := hmatch.lengths
  have hdigestLen := h.digest
  have hsalt := copyBytes_eq w h.inside
    (show descriptorSize + d.partitionNameLen + d.saltLen ≤ _ by omega)
  have hdigest := copyBytes_eq w h.inside
    (show descriptorSize + d.partitionNameLen + d.saltLen + 32 ≤ _ by omega)
  rw [hashedImage_eq w hsalt h.salted, hdigest] at hhash
  have hname := of_decide_eq_true hmatch.stops.2.2
  rw [← hmatch.fields, h.name, map_nameByte] at hname
  refine ⟨hmatch.fields, hmatch.walked, hmatch.stops.2.1, h.inside, ?_, ?_, ?_⟩
  · rw [h.name]
    exact hname
  · rw [Ram.length_read]
    exact hsize.symm
  · rw [hhash, digest, hdigestLen]

end

/-- A board on which every key is known and every hash and signature is zero. -/
def plainWorld : World where
  sha256 _ := replicate 32 0
  length_sha256 _ := by simp
  softwareSha := true
  sunxiRsaCalc _ _ := replicate 32 0
  sunxiVerifySignature _ _ := -1
  checkPublicInRootcert _ _ := 0
  slotSuffix := none
  alloc _ := true
  turns := 2
  behindName _ := 0
  behindCopy _ := 0
  partitionInfo _ := none
  flashRead _ _ := []
  heap _ := 0
  avbData := 0

/-- A number with eight bytes, greatest byte first. -/
def be64 (n : Nat) : List UInt8 := (Memory.leBytes 8 n).reverse

/-- A vbmeta blob whose only descriptor is for the partition `boot`. -/
def bootBytes : List UInt8 :=
  ascii "AVB0" ++ replicate 8 0 ++ be64 64 ++ be64 448 ++ replicate 12 0 ++ be64 32 ++
    replicate 16 0 ++ be64 168 ++ replicate 32 0 ++ be64 168 ++ replicate 208 0 ++
    be64 2 ++ be64 152 ++ be64 0 ++ replicate 32 0 ++ [0, 0, 0, 4] ++ [0, 0, 0, 0] ++
    [0, 0, 0, 32] ++ replicate 64 0 ++ ascii "boot" ++ replicate 32 0 ++ [0, 0, 8, 0]

/-- The blob at address zero. -/
def bootBlob : Blob where
  ram := Ram.write (fun _ => 0) 0 bootBytes
  data := 0
  len := 768

/-- The return value of a verification. -/
def returned : Result St Exit Int → Option Int
  | .ret ret _ => some ret
  | .gone _ _ => none

theorem returned_eq {r : Result St Exit Int} {ret : Int} (h : returned r = some ret) :
    ∃ s', r = .ret ret s' := by
  cases r with
  | ret ret' s' =>
    cases h
    exact ⟨s', rfl⟩
  | gone e s' => cases h

/-- The only descriptor of the blob is where the descriptors start. -/
theorem bootBlob_walked {p : BitVec 32} (h : Walked bootBlob p) : p = bootBlob.descStart := by
  induction h with
  | start _ _ => rfl
  | next _ _ hlt ih =>
    rw [ih] at hlt
    exact absurd hlt (by decide +kernel)

/-- The image name `bootloader`. -/
def bootloader : CString := ⟨ascii "bootloader", by decide⟩

end Brandy.Vbmeta
