import Brandy.Core.MmcSecStorage

/-!
# Losing One Copy on an eMMC Card

A damaged second copy never matters, since the first is read first. A damaged first copy is made
good for by one path only, the key reader in the product modes. In the boot modes the return code of
the backup reader is compared with a block count it never returns, so the second copy is refused
unseen. The map reader reads the first copy twice, in every mode.

## Main definitions

* `Damaged`: One copy of an item is damaged in any way.
* `deliver`: What a reader makes of the two copies.

## Theorems

* `mmcSecureStorageRead_eq`: A read in terms of the copies.
* `key_read_back_iff`: When a key that was written is given back.
* `mmcSecureStorageRead_damaged_iff`: When an item survives the damage.
-/

namespace Brandy.MmcSec

open Memory Word StoreObject List

/-- The check an item has to pass: item 0 is the map, the others are keys. -/
def itemCheck (item : Nat) (buf : List UInt8) : Int :=
  if item = 0 then checkSecureStorageMap buf else checkSecureStorageKey buf

/-- A copy of an item as the card delivers it. -/
def Emmc.copy (e : Emmc) (item copy : Nat) : Option (List UInt8) :=
  e.card.blockRead (e.copyBlock item copy) sdmmcItemSize

/-- The blocks of a copy. -/
def Emmc.InCopy (e : Emmc) (item copy block : Nat) : Prop :=
  e.copyBlock item copy ≤ block ∧ block < e.copyBlock item copy + sdmmcItemSize

/-- The card reads every block of both copies of an item. -/
def Emmc.Readable (e : Emmc) (item : Nat) : Prop :=
  ∀ block, e.InCopy item 0 block ∨ e.InCopy item 1 block → e.card.readable block = true

/-- `e'` is the card `e` with the bytes and the readability of one copy of an item arbitrary. The
    handles may differ, since the reader may run after a later boot. -/
structure Damaged (item copy : Nat) (e e' : Emmc) : Prop where
  secStorage : e'.secStorage = e.secStorage
  readable : ∀ block, ¬ e.InCopy item copy block → e'.card.readable block = e.card.readable block
  byte : ∀ (block i : Nat), ¬ e.InCopy item copy block → i < 512 →
    e'.card.byte (512 * block + i : Nat) = e.card.byte (512 * block + i : Nat)

theorem blkcnt_item : blkcnt 4096 = sdmmcItemSize := by
  unfold blkcnt
  rw [u32_of_range 4607 (by norm_num) (by norm_num)]
  rfl

theorem blockRead_of_readable (c : Card) (start nblock : Nat)
    (h : ∀ i, i < nblock → c.readable (start + i) = true) :
    c.blockRead start nblock = some (read c.byte (512 * start : Nat) (512 * nblock)) := by
  have hall : (List.range nblock).all (fun i => c.readable (start + i)) = true := by
    rw [List.all_eq_true]
    intro i hi
    exact h i (mem_range.mp hi)
  rw [Card.blockRead, if_pos hall]

variable {buf : List UInt8} {start nblock : Nat}

theorem length_of_blockRead {c : Card} (h : c.blockRead start nblock = some buf) :
    buf.length = 512 * nblock := by
  unfold Card.blockRead at h
  split at h
  · cases h
    exact length_read _
  · cases h

theorem blockRead_congr {c c' : Card}
    (hread : ∀ i, i < nblock → c'.readable (start + i) = c.readable (start + i))
    (hbyte : ∀ i j : Nat, i < nblock → j < 512 →
      c'.byte (512 * (start + i) + j : Nat) = c.byte (512 * (start + i) + j : Nat)) :
    c'.blockRead start nblock = c.blockRead start nblock := by
  have hall : (List.range nblock).all (fun i => c'.readable (start + i)) =
      (List.range nblock).all (fun i => c.readable (start + i)) := by
    rw [Bool.eq_iff_iff, List.all_eq_true, List.all_eq_true]
    refine forall₂_congr (fun i hi => ?_)
    rw [hread i (mem_range.mp hi)]
  have hdata : read c'.byte (512 * start : Nat) (512 * nblock) =
      read c.byte (512 * start : Nat) (512 * nblock) := by
    refine read_congr _ (fun x hlo hhi => ?_)
    -- the block and the byte of the address
    have hx : x = (512 * (start + (x.toNat / 512 - start)) + x.toNat % 512 : Nat) := by omega
    rw [hx]
    exact hbyte _ _ (by omega) (Nat.mod_lt _ (by omega))
  unfold Card.blockRead
  rw [hall, hdata]

variable {item : Nat}

theorem Damaged.copy_other {d : Nat} {e e' : Emmc} (h : Damaged item d e e') {c : Nat} (hc : c ≤ 1)
    (hd : d ≤ 1) (hne : c ≠ d) : e'.copy item c = e.copy item c := by
  have hstart : e'.copyBlock item c = e.copyBlock item c := by
    unfold Emmc.copyBlock
    rw [h.secStorage]
  -- eight blocks of one copy are none of the other's
  have hout : ∀ i, i < sdmmcItemSize → ¬ e.InCopy item d (e.copyBlock item c + i) := by
    intro i hi hin
    unfold Emmc.InCopy Emmc.copyBlock at hin
    rcases (show c = 0 ∧ d = 1 ∨ c = 1 ∧ d = 0 by omega) with ⟨rfl, rfl⟩ | ⟨rfl, rfl⟩ <;> omega
  unfold Emmc.copy
  rw [hstart]
  refine blockRead_congr (fun i hi => h.readable _ (hout i hi)) ?_
  intro i j hi hj
  exact h.byte _ j (hout i hi) hj

/-- The result for a copy. -/
def answer : Option (List UInt8) → Int × List UInt8
  | none => (-1, [])
  | some buf => (0, buf)

@[simp] theorem answer_none : answer none = (-1, []) := rfl

@[simp] theorem answer_some : answer (some buf) = (0, buf) := rfl

theorem mmcItemRead_item {e : Emmc} {c : Nat} (hitem : item ≤ 32) :
    mmcItemRead e c item sdmmcItemSize = answer (e.copy item c) := by
  have hmax : ¬ maxSecureStorageMaxItem < item := Nat.not_lt.mpr hitem
  rw [mmcItemRead, if_neg hmax, if_neg (lt_irrefl _)]
  rfl

theorem blockWrite_byte {c c' : Card} (h : c.blockWrite start nblock buf = some c') :
    c' = { c with byte := store c.byte (512 * start : Nat) (buf.take (512 * nblock)) } := by
  unfold Card.blockWrite at h
  split at h
  · exact (Option.some.inj h).symm
  · cases h

section

variable {e e' : Emmc} {workmode : Nat}
  (h : mmcSecureStorageWrite e workmode item buf 4096 = some (0, e'))
include h

/-- A write that returns 0 is one of an item in range that stored both copies, whichever handle it
    used. -/
theorem mmcItemWrite_of_write : mmcItemWrite e item buf sdmmcItemSize = (0, e') := by
  unfold mmcSecureStorageWrite at h
  rw [blkcnt_item] at h
  cases hmode : family workmode with
  | err =>
    rw [hmode] at h
    cases h
  | flash =>
    rw [hmode] at h
    exact Option.some.inj h
  | sprite =>
    rw [hmode] at h
    simp only [sunxiSpriteMmcSecwrite] at h
    split at h
    · exact Option.some.inj h
    · cases h

theorem written_of_write (hlen : buf.length = 4096) :
    item ≤ 32 ∧ (∃ byte, e' = { e with card := { e.card with byte := byte } }) ∧
      ∀ c ≤ 1, read e'.card.byte (512 * e'.copyBlock item c : Nat) (512 * sdmmcItemSize) = buf := by
  have hw := mmcItemWrite_of_write h
  unfold mmcItemWrite at hw
  split at hw
  · cases hw
  rename_i hitem
  rw [if_neg (lt_irrefl _)] at hw
  split at hw
  · cases hw
  rename_i card0 hcard0
  split at hw
  · cases hw
  rename_i card1 hcard1
  cases hw
  have hsize : (512 * sdmmcItemSize : Nat) = buf.length := by
    rw [hlen]
    rfl
  have h0 := blockWrite_byte hcard0
  have h1 := blockWrite_byte hcard1
  rw [hsize, take_length] at h0 h1
  subst h0 h1
  refine ⟨Nat.not_lt.mp hitem, ⟨_, rfl⟩, fun c hc => ?_⟩
  rw [hsize]
  rcases (show c = 0 ∨ c = 1 by omega) with rfl | rfl
  · -- the second copy is stored behind the first
    refine (read_store_below _ _ _ _ _ ?_).trans (read_store _ _ _)
    change ((512 * e.copyBlock item 0 : Nat) : Int) + buf.length ≤ (512 * e.copyBlock item 1 : Nat)
    rw [hlen]
    unfold Emmc.copyBlock sdmmcItemSize
    omega
  · exact read_store _ _ _

theorem copy_of_write (hlen : buf.length = 4096) (hread : e'.Readable item) :
    item ≤ 32 ∧ e'.copy item 0 = some buf ∧ e'.copy item 1 = some buf := by
  obtain ⟨hitem, -, hcopy⟩ := written_of_write h hlen
  refine ⟨hitem, ?_, ?_⟩
  · rw [Emmc.copy, blockRead_of_readable _ _ _ (fun i hi => hread _ (.inl ⟨by omega, by omega⟩)),
      hcopy 0 (Nat.zero_le 1)]
  · rw [Emmc.copy, blockRead_of_readable _ _ _ (fun i hi => hread _ (.inr ⟨by omega, by omega⟩)),
      hcopy 1 le_rfl]

end

/-- The map that is delivered instead of a bad one. -/
def emptyMap : List UInt8 := replicate 4096 0

theorem ne_emptyMap (h : checkSecureStorageMap buf = 0) : buf ≠ emptyMap := by
  rintro rfl
  have hmagic : field emptyMap mapDataSize ≠ storeObjectMagic := by
    simp only [field, emptyMap, drop_replicate, take_replicate]
    decide
  rw [checkSecureStorageMap, if_pos hmagic] at h
  cases h

/-- What a reader makes of the two copies of an item. A map comes from the first one; a key from the
    second only in the product modes, if `sprite` says that it can be read. -/
def deliver (mode : Family) (sprite : Bool) (item : Nat) (copy0 copy1 : Option (List UInt8)) :
    Option (Int × List UInt8) :=
  if item = 0 then
    some (answer (copy0.map fun buf => if checkSecureStorageMap buf = 0 then buf else emptyMap))
  else
    match copy0.filter (checkSecureStorageKey · = 0) with
    | some buf => some (0, buf)
    | none =>
      if mode = .sprite then
        if sprite then some (answer (copy1.filter (checkSecureStorageKey · = 0))) else none
      else some (-1, [])

/-- A good item with one intact copy is delivered from the first copy, or from the second if that is
    looked at. -/
theorem deliver_eq_iff {mode : Family} {sprite : Bool} {content : List UInt8} {d : Nat} (hd : d ≤ 1)
    {copy : Nat → Option (List UInt8)} (hcheck : itemCheck item content = 0)
    (hother : copy (1 - d) = some content) :
    deliver mode sprite item (copy 0) (copy 1) = some (0, content) ↔
      d = 1 ∨ copy 0 = some content ∨ (item ≠ 0 ∧ mode = .sprite ∧ sprite = true ∧
        ∀ buf, copy 0 = some buf → itemCheck item buf ≠ 0) := by
  have hor : (d = 1 ∨ copy 0 = some content) ↔ copy 0 = some content :=
    ⟨fun h => h.elim (fun h1 => by rwa [h1] at hother) id, .inr⟩
  rw [← or_assoc, hor]
  unfold itemCheck at hcheck ⊢
  unfold deliver
  by_cases h0 : item = 0
  · rw [if_pos h0] at hcheck
    cases hcopy : copy 0 with
    | none => simp [h0]
    | some buf =>
      by_cases hgood : checkSecureStorageMap buf = 0
      · simp [h0, hgood]
      -- a bad map comes out as zeros, which the content is not
      have hne : buf ≠ content := by
        rintro rfl
        exact hgood hcheck
      simp [h0, hgood, hne, (ne_emptyMap hcheck).symm]
  · rw [if_neg h0] at hcheck
    simp only [if_neg h0]
    by_cases hfirst : ∃ buf, copy 0 = some buf ∧ checkSecureStorageKey buf = 0
    · -- the first copy is delivered, whatever it is
      rcases hfirst with ⟨buf, hcopy, hgood⟩
      simp [hcopy, hgood, Option.filter_some]
    -- the first copy is refused, so it is the damaged one
    have hbad : ∀ buf, copy 0 = some buf → checkSecureStorageKey buf ≠ 0 :=
      fun buf hcopy hgood => hfirst ⟨buf, hcopy, hgood⟩
    have hnot : copy 0 ≠ some content := fun hcopy => hbad content hcopy hcheck
    have hsecond : copy 1 = some content := by
      have hzero : d = 0 := by
        by_contra hd0
        rw [show 1 - d = 0 by omega] at hother
        exact hnot hother
      rwa [hzero] at hother
    have hnone : (copy 0).filter (checkSecureStorageKey · = 0) = none := by
      rw [Option.filter_eq_none_iff]
      simpa using hbad
    rw [hnone, hsecond]
    by_cases hmode : mode = .sprite
    · cases sprite with
      | false => simp [hmode, hnot]
      | true => simpa [hmode, hnot, hcheck, Option.filter_some, h0] using hbad
    · simp [hmode, hnot]

theorem mmcSecureStorageRead_eq {e : Emmc} {workmode : Nat} (hmode : family workmode ≠ .err)
    (hitem : item ≤ 32) : mmcSecureStorageRead e workmode item 4096 =
      deliver (family workmode) e.mmcSprite item (e.copy item 0) (e.copy item 1) := by
  have htake : ∀ {c buf}, e.copy item c = some buf → buf.take 4096 = buf := by
    intro c buf hcopy
    rw [take_of_length_le (by rw [length_of_blockRead hcopy]; decide)]
  unfold mmcSecureStorageRead deliver
  by_cases h0 : item = 0
  · have hmap : mmcSecureStorageReadMap e workmode item 4096 =
        readMapTwice (mmcItemRead e 0) item 4096 := by
      unfold mmcSecureStorageReadMap
      cases hm : family workmode with
      | err => exact absurd hm hmode
      | _ => rfl
    rw [if_pos h0, if_pos h0, hmap, readMapTwice, blkcnt_item, mmcItemRead_item hitem, ← emptyMap]
    cases hcopy : e.copy item 0 with
    | none => rfl
    | some buf => by_cases hgood : checkSecureStorageMap buf = 0 <;> simp [hgood, htake hcopy]
  · rw [if_neg h0, if_neg h0]
    unfold mmcSecureStorageReadKey sunxiFlashMmcSecread sunxiSpriteMmcSecread
      sunxiFlashMmcSecreadBackup sunxiSpriteMmcSecreadBackup
    rw [blkcnt_item, mmcItemRead_item hitem, mmcItemRead_item hitem]
    have hsecond : checkCopy1 4096 (answer (e.copy item 1)) =
        answer ((e.copy item 1).filter (checkSecureStorageKey · = 0)) := by
      cases hcopy : e.copy item 1 with
      | none => rfl
      | some buf =>
        by_cases hgood : checkSecureStorageKey buf = 0 <;>
          simp [checkCopy1, hgood, htake hcopy, Option.filter_some]
    -- the boot modes ask for a return code that the reader of the second copy never has
    have hrefused : checkCopy1 4096
        (if (answer (e.copy item 1)).1 = ((sdmmcItemSize : Nat) : Int) then 0 else -1,
          (answer (e.copy item 1)).2) = (-1, []) := by
      cases e.copy item 1 <;> rfl
    cases hm : family workmode with
    | err => exact absurd hm hmode
    | flash =>
      cases hcopy : e.copy item 0 with
      | none => simpa using hrefused
      | some buf =>
        by_cases hgood : checkSecureStorageKey buf = 0
        · simp [hgood, htake hcopy, Option.filter_some]
        · simpa [hgood, Option.filter_some] using hrefused
    | sprite =>
      cases hcopy : e.copy item 0 with
      | none => cases e.mmcSprite <;> simp [hsecond]
      | some buf =>
        by_cases hgood : checkSecureStorageKey buf = 0
        · simp [hgood, htake hcopy, Option.filter_some]
        · cases e.mmcSprite <;> simp [hgood, Option.filter_some, hsecond]

/-- After a write that returned 0 the card delivers the buffer as the copy of a key, if it reads the
    blocks of the copy. -/
theorem copy_map_of_write {e e' : Emmc} {workmode : Nat}
    (h : mmcSecureStorageWrite e workmode item buf 4096 = some (0, e')) (hlen : buf.length = 4096)
    {c : Nat} (hc : c ≤ 1) : e'.copy item c = (e.copy item c).map fun _ => buf := by
  obtain ⟨-, ⟨byte, rfl⟩, hcopy⟩ := written_of_write h hlen
  have hdata := hcopy c hc
  simp only [Emmc.copyBlock] at hdata
  simp only [Emmc.copy, Card.blockRead, Emmc.copyBlock, hdata]
  split <;> simp [*]

/-- In every work mode the reader accepts, a key that was written comes back exactly when it passes
    the check of the object format and the card reads the first copy, or the second in the product
    modes. -/
theorem key_read_back_iff {e e1 : Emmc} {wmode rmode item : Nat} {buf : List UInt8}
    (hitem : 1 ≤ item)
    (hlen : buf.length = 4096) (hwrite : mmcSecureStorageWrite e wmode item buf 4096 = some (0, e1))
    (hmode : family rmode ≠ .err) :
    mmcSecureStorageRead e1 rmode item 4096 = some (0, buf) ↔
      checkSecureStorageKey buf = 0 ∧ ((e.copy item 0).isSome = true ∨
        family rmode = .sprite ∧ e.mmcSprite = true ∧ (e.copy item 1).isSome = true) := by
  obtain ⟨hmax, ⟨byte, hcard⟩, -⟩ := written_of_write hwrite hlen
  have hsprite : e1.mmcSprite = e.mmcSprite := by rw [hcard]
  rw [mmcSecureStorageRead_eq hmode hmax, copy_map_of_write hwrite hlen (Nat.zero_le 1),
    copy_map_of_write hwrite hlen le_rfl, hsprite]
  unfold deliver
  rw [if_neg (by omega)]
  by_cases hcheck : checkSecureStorageKey buf = 0
  · cases e.copy item 0 with
    | some _ => simp [Option.filter_some, hcheck]
    | none =>
      cases e.copy item 1 <;> cases e.mmcSprite <;> simp [Option.filter_some, hcheck]
  · -- both copies are refused
    cases e.copy item 0 <;> cases e.copy item 1 <;> cases e.mmcSprite <;>
      simp [Option.filter_some, hcheck]

/-- An item that passes its check was written, and one copy damaged since: when the reader delivers
    it. -/
theorem mmcSecureStorageRead_damaged_iff {e e1 e2 : Emmc} {wmode rmode item d : Nat}
    {content : List UInt8} (hlen : content.length = 4096) (hcheck : itemCheck item content = 0)
    (hwrite : mmcSecureStorageWrite e wmode item content 4096 = some (0, e1))
    (hread : e1.Readable item) (hd : d ≤ 1) (hdamage : Damaged item d e1 e2)
    (hmode : family rmode ≠ .err) :
    mmcSecureStorageRead e2 rmode item 4096 = some (0, content) ↔
      d = 1 ∨ e2.copy item 0 = some content ∨
        (item ≠ 0 ∧ family rmode = .sprite ∧ e2.mmcSprite = true ∧
          ∀ buf, e2.copy item 0 = some buf → itemCheck item buf ≠ 0) := by
  rcases copy_of_write hwrite hlen hread with ⟨hitem, hcopy0, hcopy1⟩
  -- the copy that was not damaged is intact
  have hother : e2.copy item (1 - d) = some content := by
    rw [hdamage.copy_other (by omega) hd (by omega)]
    rcases (show d = 0 ∨ d = 1 by omega) with rfl | rfl
    · exact hcopy1
    · exact hcopy0
  rw [mmcSecureStorageRead_eq hmode hitem]
  exact deliver_eq_iff hd hcheck hother

/-- A key object up to its checksum, without payload. -/
def sampleBody : List UInt8 := leBytes 4 storeObjectMagic ++ replicate 3168 0

/-- A key object that passes its check, filled up to an item. -/
def sampleKey : List UInt8 :=
  sampleBody ++ (leBytes 4 (crc32 0 sampleBody).toNat ++ replicate 920 0)

theorem length_sampleBody : sampleBody.length = storeObjectCrc := by
  simp only [sampleBody, length_append, length_leBytes, length_replicate]
  rfl

theorem length_sampleKey : sampleKey.length = 4096 := by
  simp only [sampleKey, length_append, length_sampleBody, length_leBytes,
    length_replicate]
  rfl

/-- An object passes its check if it has the magic word and its checksum. -/
theorem checkSecureStorageKey_sealed {body : List UInt8} (rest : List UInt8)
    (hlen : body.length = storeObjectCrc) (hmagic : body.take 4 = leBytes 4 storeObjectMagic) :
    checkSecureStorageKey (body ++ (leBytes 4 (crc32 0 body).toNat ++ rest)) = 0 := by
  have hlt := (crc32 0 body).toNat_lt
  unfold checkSecureStorageKey field
  rw [drop_zero, take_append_of_le_length (by rw [hlen]; decide), hmagic,
    leValue_leBytes _ (by decide), if_neg (not_not.mpr rfl), drop_left' hlen,
    take_left' (length_leBytes _), leValue_leBytes _ (by simpa using hlt),
    take_left' hlen, if_neg (not_not.mpr rfl)]

theorem checkSecureStorageKey_sampleKey : checkSecureStorageKey sampleKey = 0 :=
  checkSecureStorageKey_sealed _ length_sampleBody (take_left' (length_leBytes _))

theorem itemCheck_sampleKey : itemCheck 1 sampleKey = 0 := by
  rw [itemCheck, if_neg (by decide), checkSecureStorageKey_sampleKey]

/-- A blank card without faults. -/
def blankCard : Card where
  byte := fun _ => 0
  readable := fun _ => true
  writable := fun _ => true

/-- The storage on a blank card, from block `0x1800` on. -/
def blankEmmc (mmcSprite : Bool) : Emmc where
  card := blankCard
  secStorage := 0x1800
  mmcSprite := mmcSprite

/-- The card after the key was stored as item 1. -/
def storedEmmc (mmcSprite : Bool) : Emmc :=
  (mmcItemWrite (blankEmmc mmcSprite) 1 sampleKey sdmmcItemSize).2

/-- The same card when it no longer reads the first copy. -/
def brokenEmmc (mmcSprite : Bool) : Emmc :=
  { storedEmmc mmcSprite with
    card := { (storedEmmc mmcSprite).card with
      readable := fun block => !(decide (0x1810 ≤ block ∧ block < 0x1818)) } }

variable {mmcSprite : Bool}

theorem write_blankEmmc {workmode : Nat} (buf : List UInt8)
    (h : family workmode = if mmcSprite then .sprite else .flash) :
    mmcSecureStorageWrite (blankEmmc mmcSprite) workmode 1 buf 4096 =
      some (0, (mmcItemWrite (blankEmmc mmcSprite) 1 buf sdmmcItemSize).2) := by
  unfold mmcSecureStorageWrite
  rw [blkcnt_item, h]
  cases mmcSprite <;> rfl

/-- The key is given back after a write in boot mode. -/
theorem sampleKey_read_back :
    mmcSecureStorageRead (storedEmmc false) 0 1 4096 = some (0, sampleKey) :=
  (key_read_back_iff le_rfl length_sampleKey (@write_blankEmmc false 0 sampleKey rfl)
    (by decide)).mpr
    ⟨checkSecureStorageKey_sampleKey, .inl rfl⟩

theorem checkSecureStorageKey_emptyMap : checkSecureStorageKey emptyMap ≠ 0 := by
  have hmagic : field emptyMap 0 ≠ storeObjectMagic := by
    simp only [field, emptyMap, drop_replicate, take_replicate]
    decide
  rw [checkSecureStorageKey, if_pos hmagic]
  decide

/-- An item without the magic word of an object is stored, and not given back. -/
theorem blank_not_read_back : ∃ e1,
    mmcSecureStorageWrite (blankEmmc false) 0 1 emptyMap 4096 = some (0, e1) ∧
      mmcSecureStorageRead e1 0 1 4096 = some (-1, []) := by
  have hwrite := @write_blankEmmc false 0 emptyMap rfl
  have hcopy := copy_map_of_write hwrite length_replicate (Nat.zero_le 1)
  refine ⟨_, hwrite, ?_⟩
  rw [mmcSecureStorageRead_eq (by decide) (by decide), hcopy]
  unfold deliver
  cases (blankEmmc false).copy 1 0 <;>
    simp [Option.filter_some, checkSecureStorageKey_emptyMap, family]

theorem readable_storedEmmc : (storedEmmc mmcSprite).Readable 1 :=
  fun _ _ => rfl

theorem damaged_brokenEmmc :
    Damaged 1 0 (storedEmmc mmcSprite) (brokenEmmc mmcSprite) where
  secStorage := rfl
  readable := by
    intro block hout
    have hblock : decide (0x1810 ≤ block ∧ block < 0x1818) = false := decide_eq_false hout
    have hread : (brokenEmmc mmcSprite).card.readable block = true := by
      simp only [brokenEmmc, hblock, Bool.not_false]
    exact hread
  byte := fun _ _ _ _ => rfl

theorem copy_brokenEmmc (mmcSprite : Bool) : (brokenEmmc mmcSprite).copy 1 0 = none := by
  have hall : (List.range sdmmcItemSize).all
      (fun i => (brokenEmmc mmcSprite).card.readable (0x1810 + i)) = false := by
    simp only [brokenEmmc]
    decide
  unfold Emmc.copy Card.blockRead
  exact if_neg (by rw [show (brokenEmmc mmcSprite).copyBlock 1 0 = 0x1810 from rfl, hall]; decide)

/-- In boot mode a key whose first copy cannot be read is lost, although its second copy is
    intact. -/
theorem mmcSecureStorageRead_boot_lost :
    itemCheck 1 sampleKey = 0 ∧
      mmcSecureStorageWrite (blankEmmc false) 0 1 sampleKey 4096 = some (0, storedEmmc false) ∧
      Damaged 1 0 (storedEmmc false) (brokenEmmc false) ∧
      (brokenEmmc false).copy 1 1 = some sampleKey ∧
      mmcSecureStorageRead (brokenEmmc false) 0 1 4096 = some (-1, []) := by
  have hwrite := @write_blankEmmc false 0 sampleKey rfl
  have hcopy := copy_of_write hwrite length_sampleKey readable_storedEmmc
  have hsecond : (brokenEmmc false).copy 1 1 = some sampleKey := by
    rw [(damaged_brokenEmmc).copy_other (by omega) (by omega) (by omega)]
    exact hcopy.2.2
  refine ⟨itemCheck_sampleKey, hwrite, damaged_brokenEmmc, hsecond, ?_⟩
  rw [mmcSecureStorageRead_eq (by decide) (by decide), copy_brokenEmmc]
  rfl

/-- In USB product mode the same key is delivered from its second copy. -/
theorem mmcSecureStorageRead_product_survives :
    mmcSecureStorageRead (brokenEmmc true) 0x10 1 4096 = some (0, sampleKey) := by
  refine (mmcSecureStorageRead_damaged_iff length_sampleKey itemCheck_sampleKey
    (@write_blankEmmc true 0x10 sampleKey rfl) readable_storedEmmc (by omega)
    damaged_brokenEmmc (by decide)).mpr ?_
  refine .inr (.inr ⟨by omega, rfl, rfl, ?_⟩)
  intro buf hbuf
  rw [copy_brokenEmmc] at hbuf
  cases hbuf

end Brandy.MmcSec
