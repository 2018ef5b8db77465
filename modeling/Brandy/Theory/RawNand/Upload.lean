import Brandy.Core.RawNand.Uboot
import Brandy.Theory.RawNand.Faithful

/-!
# Reading Back U-Boot

The reader of the U-Boot area takes one page after the other. What it does with a page depends on
the head at the front of the buffer, and when enough pages for the length in the head are there, on
the checksum.

## Main definitions

* `headSize`: How much of the buffer the fields of the head take up.

## Theorems

* `uploadCheck_more`, `uploadCheck_done`: What is done with a page of a package.
* `verified_iff_sum`: With the head of a package in the buffer the checksum decides.
-/

namespace Brandy.RawNand

open Buffer (memcpy)

/-- The size of `sbrom_toc1_head_info_t` up to the fields that are read. -/
def headSize : Nat := 40

theorem headWord_congr {b b' : Buffer} {off : Nat} (hoff : off + 4 ≤ headSize)
    (h : ∀ i < headSize, b i = b' i) : headWord b off = headWord b' off := by
  unfold headWord
  rw [Buffer.bytes_congr fun i hi => h (off + i) (by omega)]

section

variable {b b' : Buffer} (h : ∀ i < headSize, b i = b' i)
include h

theorem headMagic_congr : headMagic b = headMagic b' := headWord_congr (by decide) h

theorem headAddSum_congr : headAddSum b = headAddSum b' := headWord_congr (by decide) h

theorem headValidLen_congr : headValidLen b = headValidLen b' := headWord_congr (by decide) h

end

namespace UbootFlash

variable (f : UbootFlash)

theorem headSize_le : headSize ≤ f.pagesize := by
  have hpow : 2 ^ 9 ≤ 2 ^ f.cfg.geometry.pagesizeShift :=
    Nat.pow_le_pow_right (by decide) f.sector_le
  unfold pagesize Config.pagesize headSize
  rw [Nat.shiftLeft_eq]
  omega

theorem pagesize_pos : 0 < f.pagesize := by
  have h := f.headSize_le
  unfold headSize at h
  omega

theorem pagesPerBlk_pos : 0 < f.pagesPerBlk := by
  unfold pagesPerBlk
  rw [Nat.shiftLeft_eq]
  positivity

end UbootFlash

section

variable {f : UbootFlash} {len : Nat}

variable {u : Upload}

theorem uploadCheck_more {n : Nat} (h : u.hadReadLen < n) :
    uploadCheck f u n = (.more,
      if (n + (2 ^ 32 - u.hadReadLen)) % 2 ^ 32 ≤ f.pagesize then
        { u with mdata := .mbuf, off := 0 }
      else u) := by
  unfold uploadCheck
  simp only [if_neg (Nat.not_le.mpr h)]

theorem uploadCheck_done {n : Nat} (h : n ≤ u.hadReadLen) :
    let buf := memcpy u.buf (u.hadReadLen - f.pagesize) u.mbuf 0 (n - (u.hadReadLen - f.pagesize))
    (SumOk buf n ∧ ∃ mdata off, uploadCheck f u n =
        (.accepted n,
          { u with ret := 0, hadReadLen := 0, mdata := mdata, off := off, buf := buf })) ∨
      (¬ SumOk buf n ∧ ∃ mdata off, uploadCheck f u n =
        (.wrongSum n, { u with hadReadLen := 0, mdata := mdata, off := off, buf := buf })) := by
  intro buf
  unfold uploadCheck
  simp only [if_pos h]
  by_cases hlast : (n + (2 ^ 32 - u.hadReadLen)) % 2 ^ 32 ≤ f.pagesize
  · simp only [if_pos hlast]
    by_cases hsum : SumOk buf n
    · exact .inl ⟨hsum, .mbuf, 0, if_pos hsum⟩
    · exact .inr ⟨hsum, .mbuf, 0, if_neg hsum⟩
  · simp only [if_neg hlast]
    by_cases hsum : SumOk buf n
    · exact .inl ⟨hsum, u.mdata, u.off, if_pos hsum⟩
    · exact .inr ⟨hsum, u.mdata, u.off, if_neg hsum⟩

/-- A buffer with the head of a package is in order if its checksum is right. -/
theorem verified_iff_sum {b b' : Buffer} {n : Nat} (hmagic : headMagic b = tocMainInfoMagic)
    (hvalid : headValidLen b = n) (hlen : n ≤ len) (hhead : ∀ i < headSize, b' i = b i) :
    Verified b' len ↔ SumOk b' n := by
  have hvalid' : headValidLen b' = n := (headValidLen_congr hhead).trans hvalid
  constructor
  · intro hver
    have hsum := hver.sum
    rwa [hvalid'] at hsum
  · intro hsum
    refine ⟨(headMagic_congr hhead).trans hmagic, ?_, ?_⟩
    · rwa [hvalid']
    · rwa [hvalid']

@[simp] theorem read_hadReadLen (u : Upload) {page : Nat} :
    (u.read f page).hadReadLen = u.hadReadLen := by
  unfold Upload.read
  cases u.mdata <;> rfl

end

end Brandy.RawNand
