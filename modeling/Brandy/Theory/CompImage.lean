import Brandy.Core.CompImage

/-!
# Moving a Decompressed Image to Its Run Address

An image that lies near its run address is copied behind that address first, so that it can be
copied back from there. But both copies go forward, and the first one can run over the image itself.

## Main definitions

* `Intact`: The bytes at the run address are the decompressed ones.
* `Copied`: `memcpy_large` ends with the bytes at the target.

## Theorems

* `intact_iff`: When an image arrives intact.
* `copied_iff`: When `memcpy_large` copies ranges that do not overlap.
-/

namespace Brandy.CompImage

theorem copyWords_eq (m : Ram 32) {dst src : BitVec 32} (h : (dst - src).toNat % 4 = 0) (n : Nat) :
    copyWords m dst src n = m.memcpy dst src (n * 4) := by
  induction n generalizing m dst src with
  | zero => rfl
  | succ n ih =>
    have hword : Ram.Apart dst src 4 := by
      rcases Nat.eq_zero_or_pos (dst - src).toNat with hzero | hpos
      · exact .inl (sub_eq_zero.mp (BitVec.eq_of_toNat_eq hzero))
      · exact .inr (by omega)
    rw [copyWords, ih _ (by rwa [add_sub_add_right_eq_sub]),
      ← Ram.memcpy_eq_write (by decide) hword, Nat.succ_mul, Nat.add_comm, Ram.memcpy_add]
    rfl

theorem memcpy_eq (m : Ram 32) (dst src : BitVec 32) (len : Nat) :
    memcpy m dst src len = m.memcpy dst src len := by
  unfold memcpy
  split
  · next h =>
    have hword : (dst - src).toNat % 4 = 0 := by
      rw [BitVec.toNat_sub]
      omega
    dsimp only
    rw [copyWords_eq m hword, ← Ram.memcpy_add]
    congr 1
    omega
  · rfl

/-- The bytes at the run address are those that were decompressed, whatever they are. -/
def Intact (dst imageBase : BitVec 32) (dstlen : Nat) : Prop :=
  ∀ m : Ram 32, (relocate m dst imageBase dstlen).read imageBase dstlen = m.read dst dstlen

/-- By way of the place behind the run address an image arrives intact exactly if it does not start
    behind that address, or otherwise that address is its start or not inside it. -/
theorem intact_iff (dst imageBase : BitVec 32) (dstlen : Nat) (hpos : 1 ≤ dstlen)
    (hfit : imageBase.toNat + 2 * dstlen < 2 ^ 32) :
    Intact dst imageBase dstlen ↔
      if imageBase - BitVec.ofNat 32 dstlen < dst ∧ dst < imageBase + BitVec.ofNat 32 dstlen then
        dst ≤ imageBase
      else imageBase = dst ∨ dstlen ≤ (imageBase - dst).toNat := by
  have hlen : dstlen ≤ 2 ^ 32 := by omega
  unfold Intact relocate
  simp only [memcpy_eq]
  split
  · next hclose =>
    have hback : Ram.Apart imageBase (imageBase + BitVec.ofNat 32 dstlen) dstlen := by
      right
      rw [sub_add_cancel_left, BitVec.toNat_neg, BitVec.toNat_ofNat]
      omega
    have hread : ∀ m : Ram 32, (m.memcpy imageBase (imageBase + BitVec.ofNat 32 dstlen) dstlen).read
        imageBase dstlen = m.read (imageBase + BitVec.ofNat 32 dstlen) dstlen :=
      (Ram.memcpy_copies_iff hpos hlen).mpr hback
    simp only [hread]
    rw [Ram.memcpy_copies_iff hpos hlen, Ram.Apart, BitVec.toNat_sub, BitVec.toNat_add,
      BitVec.toNat_ofNat, BitVec.le_def, ← BitVec.toNat_inj, BitVec.toNat_add, BitVec.toNat_ofNat]
    rcases hclose with ⟨-, hlt⟩
    rw [BitVec.lt_def, BitVec.toNat_add, BitVec.toNat_ofNat] at hlt
    omega
  · exact Ram.memcpy_copies_iff hpos hlen

/-- An image that is decompressed far away. -/
theorem intact_far : Intact 0x40000000 0x4a000000 0x100000 :=
  (intact_iff _ _ _ (by decide) (by decide)).mpr (by decide)

/-- Thirty-two bytes, decompressed sixteen bytes behind the run address: the second half is
    overwritten with the first. -/
theorem second_half_lost :
    (relocate (fun x => if x = 0x4a000020 then 1 else 0) 0x4a000010 0x4a000000 32).read
      0x4a000000 32 =
        List.replicate 32 0 ∧
      Ram.read (fun x : BitVec 32 => if x = 0x4a000020 then 1 else 0) 0x4a000010 32 =
        List.replicate 16 0 ++ 1 :: List.replicate 15 0 := by
  decide +kernel

section

variable {m : Ram 32} {dst src : BitVec 32}

theorem copyLongs_eq {n : Nat} (h : n * 8 ≤ (dst - src).toNat) :
    copyLongs m dst src n = m.memcpy dst src (n * 8) := by
  induction n generalizing m dst src with
  | zero => rfl
  | succ n ih =>
    rw [copyLongs, ih (by rw [add_sub_add_right_eq_sub]; omega),
      ← Ram.memcpy_eq_write (by decide) (.inr (by omega)), Nat.succ_mul, Nat.add_comm,
      Ram.memcpy_add]
    rfl

theorem copyRest_longs (n : Nat) (hn : n * 8 < 2 ^ 32) :
    copyRest (n + 1) m dst src (n * 8) = some (copyLongs m dst src n) := by
  induction n generalizing m dst src with
  | zero => rfl
  | succ n ih =>
    have hnext : ((n + 1) * 8 + 2 ^ 32 - 8) % 2 ^ 32 = n * 8 := by omega
    rw [copyRest, if_pos (by omega), hnext, ih (by omega), copyLongs]

/-- With a part of a long word left the count never becomes 0. -/
theorem copyRest_eq_none (fuel : Nat) {len : Nat} (h : len % 8 ≠ 0) :
    copyRest fuel m dst src len = none := by
  induction fuel generalizing m dst src len with
  | zero => rfl
  | succ fuel ih => rw [copyRest, if_pos (by omega), ih (by omega)]

end

/-- The copy ends, with the bytes of the source at the target and everything else as it was. -/
def Copied (m : Ram 32) (dst src : BitVec 32) (len : Nat) : Prop :=
  ∃ fuel m', memcpyLarge fuel m dst src len = some m' ∧ m'.read dst len = m.read src len ∧
    ∀ x, len ≤ (x - dst).toNat → m' x = m x

/-- Ranges that do not overlap are copied exactly if the length is a number of long words. -/
theorem copied_iff (m : Ram 32) (dst src : BitVec 32) (len : Nat) (hlen : len < 2 ^ 32)
    (hdst : len ≤ (dst - src).toNat) :
    Copied m dst src len ↔ len % 8 = 0 := by
  constructor
  · rintro ⟨fuel, m', hrun, -⟩
    by_contra hodd
    rw [memcpyLarge, copyRest_eq_none fuel (by omega)] at hrun
    cases hrun
  · intro hlongs
    obtain ⟨rest, hrest⟩ : ∃ rest, len % 32 = rest * 8 := ⟨len % 32 / 8, by omega⟩
    have hrun : memcpyLarge (rest + 1) m dst src len = some (m.memcpy dst src len) := by
      rw [memcpyLarge, hrest, copyRest_longs _ (by omega),
        copyLongs_eq (by rw [add_sub_add_right_eq_sub]; omega), copyLongs_eq (by omega),
        ← Ram.memcpy_add]
      congr 2
      omega
    have hcopy := Ram.memcpy_eq_write (m := m) hlen.le (.inr hdst)
    have hread : (m.read src len).length = len := Ram.length_read m src len
    refine ⟨_, _, hrun, ?_, fun x hx => Ram.memcpy_of_ge hx⟩
    rw [hcopy, Ram.read_write_take hread.ge (by omega), List.take_of_length_le hread.le]

/-- Five long words. -/
theorem copied_forty : Copied (fun _ => 0) 0x1000 0x2000 40 :=
  (copied_iff _ _ _ _ (by decide) (by decide)).mpr rfl

/-- The copy of a single byte does not end. -/
theorem one_byte_not_copied : ¬ Copied (fun _ => 0) 0x1000 0x2000 1 := by
  rintro ⟨fuel, m', hrun, -⟩
  rw [memcpyLarge, copyRest_eq_none fuel (by decide)] at hrun
  cases hrun

end Brandy.CompImage
