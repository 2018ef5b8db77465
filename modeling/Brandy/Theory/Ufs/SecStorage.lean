import Brandy.Core.UfsSecStorage
import Brandy.Theory.MmcSecStorage
import Brandy.Theory.Ufs.Sectors

/-!
# Losing One Copy on a UFS Device

The secure storage of a UFS device has the faults of the one on an eMMC card: in the boot modes the
return code of the backup reader is compared with a number it never returns, and the map reader
reads the first copy twice.

If the storage does not start at the edge of a block, the two copies of an item share one. What is
damaged is therefore not a range of blocks: one copy is, and the other one is still delivered.

## Main definitions

* `Storage.copy`: A copy as the device delivers it.
* `Damaged`: One copy of an item is damaged.

## Theorems

* `secureStorageRead_eq`: A read in terms of the copies.
* `secureStorageRead_damaged_iff`: When an item survives the damage.
-/

namespace Brandy.Ufs

open Buffer StoreObject Option
open MmcSec (family blkcnt itemCheck answer deliver emptyMap)

/-- A copy of an item as the device delivers it. -/
def Storage.copy (e : Storage) (item copy : Nat) : Option (List UInt8) :=
  (phyread e.device (e.copySector item copy) itemSize fun _ => 0).bind fun r =>
    if r.1 = itemSize then some (r.2.bytes 4096) else none

/-- One copy of an item is damaged in any way, and the other one is delivered as before. -/
structure Damaged (item d : Nat) (e e' : Storage) : Prop where
  secStorage : e'.secStorage = e.secStorage
  other : e'.copy item (1 - d) = e.copy item (1 - d)
  delivered : e'.copy item (1 - d) ≠ none

theorem blkcnt_item : blkcnt 4096 = itemSize := MmcSec.blkcnt_item

theorem copySector_lt (e : Storage) (item c : Nat) : e.copySector item c < 2 ^ 32 :=
  Nat.mod_lt _ (by decide)

theorem copySector_one (e : Storage) (item : Nat) :
    e.copySector item 1 = (e.copySector item 0 + 8) % 2 ^ 32 := by
  unfold Storage.copySector itemSize
  omega

theorem inPieces_small {α : Type} {piece : Nat → Nat → Nat → α → Option (Nat × α)} {start n : Nat}
    (hstart : start < 2 ^ 32) (hn : 1 ≤ n) (hlt : n < 2032) (a : α) :
    inPieces piece start n a = piece start n 0 a := by
  have hcnt : fullCnt n = 0 := by
    rw [fullCnt_eq (by omega)]
    omega
  simp only [inPieces, hcnt, fullPieces, maxBufLenSector_eq, zero_mul, add_zero,
    Nat.mod_eq_of_lt hstart, Nat.mod_eq_of_lt hlt, Nat.zero_mod]
  rw [if_pos (by omega)]
  cases piece start n 0 a with
  | none => rfl
  | some r =>
    simp only
    split_ifs with heq
    · rfl
    · rw [← not_not.mp heq]

section

variable {e : Storage} {item c : Nat}

theorem copy_cases (e : Storage) (item c : Nat) :
    (Reaches e.device.readable (e.copySector item c) itemSize ∧
        e.copy item c = some
          (bytes (fun i => e.device.byte (512 * e.copySector item c + i)) 4096)) ∨
      (¬ Reaches e.device.readable (e.copySector item c) itemSize ∧ e.copy item c = none) := by
  have hlt := copySector_lt e item c
  unfold Storage.copy phyread
  rw [inPieces_small hlt (by decide) (by decide)]
  rcases bufferPhyread_cases (d := e.device) (n := itemSize) hlt (by decide) (by decide) 0
      (fun _ => 0) with ⟨hok, hread⟩ | ⟨hno, ⟨hread, -⟩ | hread⟩
  · refine .inl ⟨hok, ?_⟩
    rw [hread, bind_some]
    exact (if_pos rfl).trans (congrArg some (bytes_memcpy _ _))
  · exact .inr ⟨hno, by rw [hread, bind_none]⟩
  · refine .inr ⟨hno, ?_⟩
    rw [hread, bind_some]
    exact if_neg (by decide)

theorem itemRead_cases
    (hwrap : Unaligned (e.copySector item c) itemSize → e.copySector item c + 8 + 6 < 2 ^ 32)
    (hitem : item ≤ 32) (buf : Buffer) :
    (∃ content m, e.copy item c = some content ∧ itemRead e c item itemSize buf = some (0, m) ∧
        m.bytes 4096 = content) ∨
      (e.copy item c = none ∧ itemRead e c item itemSize buf = some (-1, buf)) := by
  have hmax : ¬ maxSecureStorageMaxItem < item := Nat.not_lt.mpr hitem
  have hlt := copySector_lt e item c
  unfold itemRead phyread
  rw [if_neg hmax, if_neg (lt_irrefl _), inPieces_small hlt (by decide) (by decide)]
  rcases bufferPhyread_cases (d := e.device) (n := itemSize) hlt (by decide) (by decide) 0 buf with
    ⟨hok, hread⟩ | ⟨hno, ⟨-, hun, hbig⟩ | hread⟩
  · refine .inl ⟨_, _, ((copy_cases e item c).resolve_right fun h => h.1 hok).2, ?_,
      bytes_memcpy buf 4096⟩
    rw [hread, map_some]
    exact congrArg (fun ret => some (ret, _)) (if_neg (not_not.mpr rfl))
  · exact absurd (hwrap hun) hbig
  · refine .inr ⟨((copy_cases e item c).resolve_left fun h => hno h.1).2, ?_⟩
    rw [hread, map_some]
    exact congrArg (fun ret => some (ret, buf)) (if_pos (show 0 ≠ itemSize by decide))

end

variable {buf : Buffer}

theorem phywrite_item {d d' : Device} {start : Nat} (hstart : start < 2 ^ 32)
    (h : phywrite d start itemSize buf = some (itemSize, d')) :
    (Unaligned start itemSize → start + 8 + 6 < 2 ^ 32) ∧ d' = d.put start buf 0 8 := by
  unfold phywrite at h
  rw [inPieces_small hstart (by decide) (by decide)] at h
  rcases bufferPhywrite_cases (d := d) (n := itemSize) hstart (by decide) (by decide) 0 buf with
    ⟨hok, -, hput⟩ | ⟨-, hnone | hzero⟩
  · rw [hput] at h
    injection h with h
    injection h with _ h
    exact ⟨hok.1, h.symm⟩
  · rw [hnone] at h
    cases h
  · rw [hzero] at h
    injection h with h
    injection h with h _
    exact absurd h (by decide)

theorem itemWrite_ok {e e1 : Storage} {item : Nat}
    (h : itemWrite e item buf itemSize = some (0, e1)) :
    item ≤ 32 ∧ ∃ d, phywrite e.device (e.copySector item 0) itemSize buf = some (itemSize, d) ∧
      phywrite d (e.copySector item 1) itemSize buf = some (itemSize, e1.device) ∧
      e1.secStorage = e.secStorage := by
  unfold itemWrite at h
  split at h
  · cases h
  rename_i hitem
  refine ⟨Nat.not_lt.mp hitem, ?_⟩
  obtain ⟨r, hfirst, h⟩ := bind_eq_some_iff.mp h
  split_ifs at h with hret
  · cases h
  obtain ⟨r', hsecond, h⟩ := map_eq_some_iff.mp h
  injection h with hcode hstate
  split_ifs at hcode with hret'
  subst hstate
  refine ⟨r.2, ?_, ?_, rfl⟩
  · rw [hfirst, ← not_not.mp hret]
  · rw [hsecond, ← not_not.mp hret']

theorem copies_of_write {e e1 : Storage} {workmode item : Nat}
    (h : secureStorageWrite e workmode item buf 4096 = some (0, e1)) :
    item ≤ 32 ∧ ∀ c ≤ 1,
      (Unaligned (e1.copySector item c) itemSize → e1.copySector item c + 8 + 6 < 2 ^ 32) ∧
        ∀ content, e1.copy item c = some content → content = buf.bytes 4096 := by
  have hitem : itemWrite e item buf itemSize = some (0, e1) := by
    unfold secureStorageWrite at h
    rw [blkcnt_item] at h
    cases hmode : family workmode with
    | err =>
      rw [hmode] at h
      cases h
    | _ =>
      rw [hmode] at h
      exact h
  obtain ⟨hle, d, hfirst, hsecond, hsec⟩ := itemWrite_ok hitem
  have hsector : ∀ c, e1.copySector item c = e.copySector item c := by
    intro c
    unfold Storage.copySector
    rw [hsec]
  obtain ⟨hwrap0, rfl⟩ := phywrite_item (copySector_lt e item 0) hfirst
  obtain ⟨hwrap1, hput⟩ := phywrite_item (copySector_lt e item 1) hsecond
  have hone := copySector_one e item
  have hcopy : ∀ {c content}, e1.copy item c = some content →
      content = bytes (fun i => e1.device.byte (512 * e.copySector item c + i)) 4096 := by
    intro c content hcontent
    rcases copy_cases e1 item c with ⟨-, h⟩ | ⟨-, h⟩
    · rw [h, hsector] at hcontent
      exact (some.inj hcontent).symm
    · rw [h] at hcontent
      cases hcontent
  refine ⟨hle, fun c hc => ?_⟩
  rw [hsector]
  have hc' : c = 0 ∨ c = 1 := by omega
  rcases hc' with rfl | rfl
  · refine ⟨hwrap0, fun content hcontent => ?_⟩
    rw [hcopy hcontent, hput]
    refine bytes_congr fun i hi => ?_
    -- the second copy is elsewhere
    have hout : ¬ (512 * e.copySector item 1 ≤ 512 * e.copySector item 0 + i ∧
        512 * e.copySector item 0 + i < 512 * e.copySector item 1 + 512 * 8) := by omega
    simp only [Device.put]
    rw [memcpy, if_neg hout, memcpy_of_mem,
      show 0 + (512 * e.copySector item 0 + i - 512 * e.copySector item 0) = i by omega]
  · refine ⟨hwrap1, fun content hcontent => ?_⟩
    rw [hcopy hcontent, hput]
    refine bytes_congr fun i hi => ?_
    simp only [Device.put]
    rw [memcpy_of_mem,
      show 0 + (512 * e.copySector item 1 + i - 512 * e.copySector item 1) = i by omega]

/-- The two copies of an item have sector numbers that do not wrap around. -/
def Storage.InRange (e : Storage) (item : Nat) : Prop :=
  item ≤ 32 ∧ ∀ c ≤ 1,
    Unaligned (e.copySector item c) itemSize → e.copySector item c + 8 + 6 < 2 ^ 32

theorem bytes_clear (m : Buffer) : (clear m 4096).bytes 4096 = emptyMap := by
  rw [clear, bytes_memcpy, bytes, List.map_const', List.length_range, emptyMap]

section

variable {e : Storage} {item : Nat} (hrange : e.InRange item)
include hrange

variable (align : Buffer)

theorem readMapTwice_eq : readMapTwice (itemRead e 0) item 4096 align =
    some (answer ((e.copy item 0).map fun buf =>
      if checkSecureStorageMap buf = 0 then buf else emptyMap)) := by
  have hcases := itemRead_cases (hrange.2 0 (by omega)) hrange.1
  unfold readMapTwice
  rw [blkcnt_item]
  rcases hcases align with ⟨first, m, hcopy, hread, hbytes⟩ | ⟨hcopy, hread⟩
  · rw [hread, bind_some, hcopy]
    by_cases hgood : checkSecureStorageMap first = 0
    · simp [secBlkSize, hbytes, hgood]
    -- a bad map is read again and comes out as zeros
    rcases hcases (clear m 4096) with ⟨again, m', hcopy', hread', hbytes'⟩ | ⟨hcopy', -⟩
    · obtain rfl := some.inj (hcopy.symm.trans hcopy')
      simp [secBlkSize, hbytes, hgood, hread', hbytes', bytes_clear]
    · cases hcopy.symm.trans hcopy'
  · rw [hread, bind_some, hcopy]
    rcases hcases (clear align 4096) with ⟨again, m', hcopy', -, -⟩ | ⟨-, hread'⟩
    · cases hcopy.symm.trans hcopy'
    · simp [hread']

/-- The first copy of a key is delivered if it is good, and otherwise the next try is made. -/
theorem readCopy0_cases :
    (∃ first, (e.copy item 0).filter (checkSecureStorageKey · = 0) = some first ∧
        readCopy0 (itemRead e 0) item 4096 align = some (.inl first)) ∨
      ((e.copy item 0).filter (checkSecureStorageKey · = 0) = none ∧
        ∃ align', readCopy0 (itemRead e 0) item 4096 align = some (.inr align')) := by
  unfold readCopy0
  rw [blkcnt_item]
  rcases itemRead_cases (hrange.2 0 (by omega)) hrange.1 align with
    ⟨first, m, hcopy, hread, hbytes⟩ | ⟨hcopy, hread⟩
  · rw [hread, hcopy]
    by_cases hgood : checkSecureStorageKey first = 0 <;>
      simp [secBlkSize, hbytes, hgood, filter_some]
  · simp [hread, hcopy]

/-- The second copy is read, and the code is never the number of sectors. -/
theorem itemRead_second :
    ∃ ret m, itemRead e 1 item itemSize align = some (ret, m) ∧ ret ≠ (itemSize : Nat) ∧
    checkCopy1 4096 ret m = answer ((e.copy item 1).filter (checkSecureStorageKey · = 0)) := by
  rcases itemRead_cases (hrange.2 1 (by omega)) hrange.1 align with
    ⟨second, m, hcopy, hread, hbytes⟩ | ⟨hcopy, hread⟩
  · refine ⟨0, m, hread, by decide, ?_⟩
    by_cases hgood : checkSecureStorageKey second = 0 <;>
      simp [checkCopy1, secBlkSize, hbytes, hcopy, hgood, filter_some]
  · exact ⟨-1, align, hread, by decide, by simp [checkCopy1, hcopy]⟩

theorem secureStorageRead_eq {workmode : Nat} (hmode : family workmode ≠ .err) (align : Buffer) :
    secureStorageRead e workmode item 4096 align =
      deliver (family workmode) true item (e.copy item 0) (e.copy item 1) := by
  unfold secureStorageRead deliver
  by_cases h0 : item = 0
  · rw [if_pos h0, if_pos h0, ← readMapTwice_eq hrange align, secureStorageReadMap]
    cases hm : family workmode with
    | err => exact absurd hm hmode
    | _ => rfl
  rw [if_neg h0, if_neg h0]
  unfold secureStorageReadKey spriteUfsSecread spriteUfsSecreadBackup flashUfsSecread
    flashUfsSecreadBackup
  rcases readCopy0_cases hrange align with ⟨first, hfilter, hread⟩ | ⟨hfilter, align', hread⟩
  · rw [hread, hfilter]
    cases hm : family workmode with
    | err => exact absurd hm hmode
    | _ => rfl
  · rcases itemRead_second hrange align' with ⟨ret, m, hread', hne, hcheck⟩
    rw [hread, hfilter, blkcnt_item]
    cases hm : family workmode with
    | err => exact absurd hm hmode
    | flash => simp [hread', hne, checkCopy1]
    | sprite => simp [hread', hcheck]

end

/-- An item that passes its check was written, and one copy damaged since: when the reader delivers
    it. -/
theorem secureStorageRead_damaged_iff {e e1 e2 : Storage} {wmode rmode item d : Nat} {buf : Buffer}
    (hcheck : itemCheck item (buf.bytes 4096) = 0)
    (hwrite : secureStorageWrite e wmode item buf 4096 = some (0, e1)) (hd : d ≤ 1)
    (hdamage : Damaged item d e1 e2) (hmode : family rmode ≠ .err) (align : Buffer) :
    secureStorageRead e2 rmode item 4096 align = some (0, buf.bytes 4096) ↔
      d = 1 ∨ e2.copy item 0 = some (buf.bytes 4096) ∨
        (item ≠ 0 ∧ family rmode = .sprite ∧
          ∀ first, e2.copy item 0 = some first → itemCheck item first ≠ 0) := by
  obtain ⟨hitem, hwritten⟩ := copies_of_write hwrite
  have hrange : e2.InRange item := by
    refine ⟨hitem, fun c hc => ?_⟩
    have hsector : e2.copySector item c = e1.copySector item c := by
      unfold Storage.copySector
      rw [hdamage.secStorage]
    rw [hsector]
    exact (hwritten c hc).1
  -- the copy that was not damaged is intact
  have hother : e2.copy item (1 - d) = some (buf.bytes 4096) := by
    obtain ⟨content, hcontent⟩ := ne_none_iff_exists'.mp hdamage.delivered
    rw [hcontent, (hwritten (1 - d) (by omega)).2 content (hdamage.other ▸ hcontent)]
  rw [secureStorageRead_eq hrange hmode, MmcSec.deliver_eq_iff hd hcheck hother]
  simp only [true_and]

/-- The key of the eMMC card. -/
def keyBuffer : Buffer := fun i => MmcSec.sampleKey.getD i 0

theorem bytes_keyBuffer : keyBuffer.bytes 4096 = MmcSec.sampleKey := by
  have h := bytes_getD MmcSec.sampleKey 0
  rwa [MmcSec.length_sampleKey] at h

/-- A blank device of 4096 blocks, with the storage at its usual place. -/
def blankStorage : Storage where
  device := blank 4096
  secStorage := 12288

/-- The device after the key was stored as item 1. -/
def keyStored : Storage where
  device := ((blank 4096).put 12304 keyBuffer 0 8).put 12312 keyBuffer 0 8
  secStorage := 12288

/-- The same device when it no longer reads the block of the first copy. -/
def keyDamaged : Storage :=
  { keyStored with device :=
    { keyStored.device with readable := fun b => decide (b < 4096 ∧ b ≠ 1538) } }

theorem itemWrite_keyStored :
    itemWrite blankStorage 1 keyBuffer itemSize = some (0, keyStored) := by
  have hwrite : ∀ (d : Device) (start : Nat), d.Sized 4096 → start < 2 ^ 32 →
      Fits 4096 start 8 → phywrite d start itemSize keyBuffer =
        some (8, d.put start keyBuffer 0 8) := by
    intro d start hd hstart hfits
    unfold phywrite
    rw [inPieces_small hstart (by decide) (by decide)]
    exact ((bufferPhywrite_sized hd hstart (by decide) (by decide) 0 keyBuffer).resolve_right
      fun h => h.1 hfits).2
  have hfirst := hwrite (blank 4096) 12304 blank_sized (by decide) (by decide)
  have hsecond := hwrite ((blank 4096).put 12304 keyBuffer 0 8) 12312 blank_sized (by decide)
    (by decide)
  unfold itemWrite
  rw [if_neg (by decide), if_neg (by decide)]
  refine bind_eq_some_iff.mpr ⟨_, hfirst, ?_⟩
  rw [if_neg (by decide)]
  exact map_eq_some_iff.mpr ⟨_, hsecond, rfl⟩

theorem copy_keyDamaged : keyDamaged.copy 1 0 = none :=
  ((copy_cases keyDamaged 1 0).resolve_left fun h => absurd h.1 (by decide)).2

theorem damaged_keyDamaged : Damaged 1 0 keyStored keyDamaged := by
  have hstored := ((copy_cases keyStored 1 1).resolve_right fun h =>
    h.1 (by decide)).2
  have hdamaged := ((copy_cases keyDamaged 1 1).resolve_right fun h =>
    h.1 (by decide)).2
  exact ⟨rfl, hdamaged.trans hstored.symm, by rw [hdamaged]; exact some_ne_none _⟩

/-- In boot mode a key whose first copy cannot be read is lost, although its second copy is
    intact. -/
theorem secureStorageRead_boot_lost :
    itemCheck 1 (keyBuffer.bytes 4096) = 0 ∧
      secureStorageWrite blankStorage 0 1 keyBuffer 4096 = some (0, keyStored) ∧
      Damaged 1 0 keyStored keyDamaged ∧
      secureStorageRead keyDamaged 0 1 4096 (fun _ => 0) = some (-1, []) := by
  have hwrite : secureStorageWrite blankStorage 0 1 keyBuffer 4096 = some (0, keyStored) := by
    unfold secureStorageWrite
    rw [blkcnt_item]
    exact itemWrite_keyStored
  refine ⟨bytes_keyBuffer ▸ MmcSec.itemCheck_sampleKey, hwrite, damaged_keyDamaged, ?_⟩
  have hrange : keyDamaged.InRange 1 :=
    ⟨by decide, fun c hc => ((copies_of_write hwrite).2 c hc).1⟩
  rw [secureStorageRead_eq hrange (by decide), copy_keyDamaged]
  rfl

/-- In USB product mode the same key is delivered from its second copy. -/
theorem secureStorageRead_product_survives :
    secureStorageRead keyDamaged 0x10 1 4096 (fun _ => 0) = some (0, keyBuffer.bytes 4096) := by
  have hwrite : secureStorageWrite blankStorage 0x10 1 keyBuffer 4096 = some (0, keyStored) := by
    unfold secureStorageWrite
    rw [blkcnt_item]
    exact itemWrite_keyStored
  refine (secureStorageRead_damaged_iff (bytes_keyBuffer ▸ MmcSec.itemCheck_sampleKey) hwrite
    (by decide) damaged_keyDamaged (by decide) _).mpr ?_
  refine .inr (.inr ⟨by decide, rfl, fun first hfirst => ?_⟩)
  rw [copy_keyDamaged] at hfirst
  cases hfirst

end Brandy.Ufs
