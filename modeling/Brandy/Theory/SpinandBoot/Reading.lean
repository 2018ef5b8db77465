import Brandy.Theory.SpinandBoot.Copies

/-!
# Reading a Boot Package Back

`aw_spinand_mtd_read` walks the good blocks from its start on, as the burning does. The search of
`spinand_mtd_upload_uboot` tries the places at a fixed distance from each other. Its result is that
of the first place where a package passes.

## Main definitions

* `readList`: Reading a list of blocks.
* `place`, `attempt`: A place of the search, and an attempt there.

## Theorems

* `awSpinandMtdRead_eq`: A read on a chip below 4 GiB.
* `uploadLoop_first`, `uploadLoop_sound`: The search.
-/

namespace Brandy.SpinandBoot

open Memory Word Goods List

/-- Reading a list of blocks to `off` on. At the end of the list there is no result. -/
def readList (geo : Geometry) (nand : Nand) : List Nat → Nat → Int → Mem → Option (Int × Mem)
  | [], _, _, _ => none
  | b :: bs, len, off, buf =>
    if nand.readable b then
      let buf := overlay buf (fun x => nand.content b (x - off)) off (min len geo.phyBlockSize)
      if len ≤ geo.phyBlockSize then some (0, buf)
      else readList geo nand bs (len - geo.phyBlockSize) (off + geo.phyBlockSize) buf
    else some (-1, buf)

section

variable {geo : Geometry} {nand : Nand}

theorem mtdReadLoop_eq {k : Nat} (hblk : geo.phyBlockSize = 2 ^ k)
    (hchip : nand.blkCnt * geo.phyBlockSize ≤ 2 ^ 32) (n block len : Nat) (off : Int) (buf : Mem)
    (hlen : 0 < len) (hn : block + n = nand.blkCnt) :
    mtdReadLoop geo nand n (block * geo.phyBlockSize) block len off buf =
      readList geo nand (goods nand.isBad block nand.blkCnt) len off buf := by
  have hpos := geo.phyBlockSize_pos
  induction n generalizing block len off buf with
  | zero =>
    rw [goods_of_le (by omega)]
    rfl
  | succ n ih =>
    have hand : block * geo.phyBlockSize &&& (geo.phyBlockSize - 1) = 0 := by
      rw [hblk, Nat.and_two_pow_sub_one_eq_mod, Nat.mul_mod_left]
    -- behind the last block of the chip the position is not looked at any more
    have hnext : ∀ (len : Nat) (off : Int) (buf : Mem), 0 < len →
        mtdReadLoop geo nand n ((block * geo.phyBlockSize + geo.phyBlockSize) % 2 ^ 32) (block + 1)
          len off buf =
        readList geo nand (goods nand.isBad (block + 1) nand.blkCnt) len off buf := by
      intro len off buf hlen
      rw [← ih (block + 1) len off buf hlen (by omega), ← Nat.succ_mul]
      cases n with
      | zero => rfl
      | succ n =>
        have hlt : (block + 1) * geo.phyBlockSize < nand.blkCnt * geo.phyBlockSize :=
          Nat.mul_lt_mul_of_pos_right (by omega) hpos
        rw [Nat.mod_eq_of_lt (lt_of_lt_of_le hlt hchip)]
    rw [mtdReadLoop]
    by_cases hbad : nand.isBad block = true
    · rw [if_pos hbad, if_neg (by omega), goods_cons_bad (by omega) hbad, hnext len off buf hlen]
    rw [if_neg hbad, goods_cons_good (by omega) (Bool.eq_false_iff.mpr hbad), readList, hand,
      Nat.mul_div_cancel _ hpos, Nat.mul_mod_left]
    simp only [Nat.sub_zero, Nat.cast_zero, add_zero]
    split
    · by_cases hle : len ≤ geo.phyBlockSize
      · rw [if_pos hle, if_pos (by omega)]
      · rw [if_neg hle, if_neg (by omega), min_eq_right (by omega),
          if_pos (by rw [← Nat.succ_mul, Nat.mul_mod_left]), hnext _ _ _ (by omega)]
    · rfl

variable {len : Nat}

theorem awSpinandMtdRead_eq {k r : Nat} (hblk : geo.phyBlockSize = 2 ^ k)
    (hchip : nand.blkCnt * geo.phyBlockSize ≤ 2 ^ 32) (hr : r < nand.blkCnt) (hlen : 0 < len)
    (hlt : len < 2 ^ 32) (hsects : len % 512 = 0) (buf : Mem) :
    awSpinandMtdRead geo nand (u32 ((r : Int) * geo.phyBlockSize)) (len / 512) buf =
      readList geo nand (goods nand.isBad r nand.blkCnt) len 0 buf := by
  have hpos := geo.phyBlockSize_pos
  have hstart : u32 ((r : Int) * geo.phyBlockSize) = r * geo.phyBlockSize := by
    rw [← Nat.cast_mul, u32_natCast]
    exact Nat.mod_eq_of_lt (lt_of_lt_of_le (Nat.mul_lt_mul_of_pos_right hr hpos) hchip)
  have hbytes : u32 (((len / 512 : Nat) : Int) * 512) = len := by
    rw [show ((len / 512 : Nat) : Int) * 512 = ((len / 512 * 512 : Nat) : Int) by push_cast; rfl,
      u32_natCast, Nat.div_mul_cancel (Nat.dvd_of_mod_eq_zero hsects), Nat.mod_eq_of_lt hlt]
  unfold awSpinandMtdRead
  rw [hstart, hbytes, Nat.mul_div_cancel _ hpos]
  exact mtdReadLoop_eq hblk hchip _ r len 0 buf hlen (by omega)

theorem copyMem_cons_lt (content : Nat → Mem) (b : Nat) (bs : List Nat) {t : Nat}
    (h : t < geo.phyBlockSize) : copyMem geo content (b :: bs) t = content b t := by
  unfold copyMem
  rw [Int.toNat_natCast, Nat.div_eq_of_lt h, Nat.mod_eq_of_lt h, getD_cons_zero]

theorem copyMem_cons_ge (content : Nat → Mem) (b : Nat) (bs : List Nat) {t : Nat}
    (h : geo.phyBlockSize ≤ t) :
    copyMem geo content (b :: bs) t = copyMem geo content bs (t - geo.phyBlockSize : Nat) := by
  unfold copyMem
  rw [Int.toNat_natCast, Int.toNat_natCast, Nat.div_eq_sub_div geo.phyBlockSize_pos h,
    Nat.mod_eq_sub_mod h, getD_cons_succ]

/-- The number of blocks that `len` bytes need. -/
def Needs (geo : Geometry) (len n : Nat) : Prop := ∀ g, g * geo.phyBlockSize < len ↔ g < n

variable {n : Nat}

theorem Needs.tail (h : Needs geo len n) :
    Needs geo (len - geo.phyBlockSize) (n - 1) := by
  intro g
  have hg := h (g + 1)
  rw [Nat.succ_mul] at hg
  omega

theorem Needs.one_lt (h : Needs geo len n) : 1 < n ↔ ¬ len ≤ geo.phyBlockSize := by
  rw [← h 1, one_mul, not_le]

theorem Needs.pos (h : Needs geo len n) : 0 < n ↔ 0 < len := by
  rw [← h 0, zero_mul]

/-- A walk for `n` blocks delivers their bytes, or fails, or comes to the end of the list. -/
theorem readList_cases {bs : List Nat} (off : Int) (buf : Mem) (hlen : 0 < len)
    (hn : Needs geo len n) :
    (n ≤ bs.length ∧ (∀ b ∈ bs.take n, nand.readable b = true) ∧
      ∃ buf', readList geo nand bs len off buf = some (0, buf') ∧
        (∀ t < len, buf' (off + t) = copyMem geo nand.content bs t) ∧
        Set.EqOn buf' buf (Set.Iio off)) ∨
    ((∃ b ∈ bs.take n, nand.readable b = false) ∧
      ∃ buf', readList geo nand bs len off buf = some (-1, buf')) ∨
    (bs.length < n ∧ readList geo nand bs len off buf = none) := by
  induction bs generalizing len n off buf with
  | nil => exact .inr (.inr ⟨hn.pos.mpr hlen, rfl⟩)
  | cons b bs ih =>
    rcases Nat.exists_eq_succ_of_ne_zero (hn.pos.mpr hlen).ne' with ⟨m, rfl⟩
    rw [readList, take_succ_cons, length_cons]
    by_cases hread : nand.readable b = true
    · rw [if_pos hread]
      have hfirst : ∀ t : Nat, t < min len geo.phyBlockSize →
          overlay buf (fun x => nand.content b (x - off)) off (min len geo.phyBlockSize) (off + t) =
            copyMem geo nand.content (b :: bs) t := by
        intro t ht
        rw [overlay_of_mem ⟨by omega, by omega⟩, copyMem_cons_lt _ _ _ (by omega),
          add_sub_cancel_left]
      have hkept : Set.EqOn
          (overlay buf (fun x => nand.content b (x - off)) off (min len geo.phyBlockSize)) buf
          (Set.Iio off) := by
        intro x hx
        exact overlay_of_notMem fun hmem => absurd hmem.1 (not_le.mpr hx)
      have hone := hn.one_lt
      by_cases hle : len ≤ geo.phyBlockSize
      · have hm : m = 0 := by omega
        subst hm
        simp only [if_pos hle]
        refine .inl ⟨by omega, ?_, _, rfl, fun t ht => hfirst t (by omega), hkept⟩
        rw [take_zero]
        exact forall_mem_singleton.mpr hread
      · simp only [if_neg hle]
        have htail := hn.tail
        rw [Nat.succ_sub_one] at htail
        rcases ih (off + geo.phyBlockSize) (overlay buf (fun x => nand.content b (x - off)) off
          (min len geo.phyBlockSize)) (by omega) htail with
          ⟨hlength, hall, buf', heq, hdata, hsame⟩ | ⟨⟨c, hc, hbad⟩, hfail⟩ | ⟨hshort, hnone⟩
        · refine .inl ⟨by omega, forall_mem_cons.mpr ⟨hread, hall⟩, buf', heq, fun t ht => ?_,
            fun x hx => ?_⟩
          · by_cases hblock : t < geo.phyBlockSize
            · rw [hsame (show off + (t : Int) < off + geo.phyBlockSize by omega),
                hfirst t (by omega)]
            · have hrest := hdata (t - geo.phyBlockSize) (by omega)
              rw [copyMem_cons_ge _ _ _ (not_lt.mp hblock), ← hrest]
              congr 1
              omega
          · have hx' : x < off := hx
            rw [hsame (show x < off + geo.phyBlockSize by omega), hkept hx]
        · exact .inr (.inl ⟨⟨c, mem_cons_of_mem _ hc, hbad⟩, hfail⟩)
        · exact .inr (.inr ⟨by omega, hnone⟩)
    · rw [if_neg hread]
      exact .inr (.inl ⟨⟨b, mem_cons_self, Bool.eq_false_iff.mpr hread⟩, buf, rfl⟩)

/-- Where the search tries for the `i`-th time. -/
def place (geo : Geometry) (len start i : Nat) : Nat := start + i * blksPerUboot geo len

/-- One attempt of the search. -/
def attempt (geo : Geometry) (nand : Nand) (len r : Nat) (buf : Mem) : Option (Int × Mem) :=
  awSpinandMtdRead geo nand (u32 ((r : Int) * geo.phyBlockSize)) (len / 512) buf

/-- An attempt that sends the search on to the next place. -/
def Rejected (geo : Geometry) (nand : Nand) (len r : Nat) : Prop :=
  ∀ buf, ∃ ret buf', attempt geo nand len r buf = some (ret, buf') ∧
    (ret ≠ 0 ∨ toc1Good buf' = false)

/-- An attempt that ends the search with a buffer as described. -/
def Accepted (geo : Geometry) (nand : Nand) (len r : Nat) (Q : Mem → Prop) : Prop :=
  ∀ buf, ∃ buf', attempt geo nand len r buf = some (0, buf') ∧ toc1Good buf' = true ∧ Q buf'

theorem place_zero (geo : Geometry) (len start : Nat) : place geo len start 0 = start := by
  unfold place
  rw [zero_mul, add_zero]

theorem place_succ (geo : Geometry) (len start i : Nat) :
    place geo len start (i + 1) = place geo len (start + blksPerUboot geo len) i := by
  unfold place
  rw [Nat.succ_mul]
  omega

variable {endblk : Nat}

theorem uploadLoop_turn {r : Nat} (hr : r + blksPerUboot geo len ≤ endblk) (n : Nat) (buf : Mem) :
    uploadLoop geo nand endblk len (n + 1) r buf =
      match attempt geo nand len r buf with
      | none => none
      | some (ret, buf') =>
        if ret = 0 ∧ toc1Good buf' = true then some (0, buf')
        else uploadLoop geo nand endblk len n (r + blksPerUboot geo len) buf' := by
  rw [uploadLoop, if_pos hr]
  unfold attempt
  rcases awSpinandMtdRead geo nand (u32 ((r : Int) * geo.phyBlockSize)) (len / 512) buf with
    - | ⟨ret, buf'⟩
  · rfl
  · dsimp only
    by_cases hret : ret = 0
    · simp only [hret, ne_eq, not_true_eq_false, if_false, true_and]
    · rw [if_pos hret, if_neg fun h => hret h.1]

theorem uploadLoop_first {Q : Mem → Prop} (m : Nat) {start : Nat} (n : Nat) (buf : Mem) (hn : m < n)
    (hplace : place geo len start m + blksPerUboot geo len ≤ endblk)
    (hrej : ∀ l < m, Rejected geo nand len (place geo len start l))
    (hacc : Accepted geo nand len (place geo len start m) Q) :
    ∃ buf', uploadLoop geo nand endblk len n start buf = some (0, buf') ∧ Q buf' := by
  induction m generalizing start n buf with
  | zero =>
    rcases Nat.exists_eq_succ_of_ne_zero (show n ≠ 0 by omega) with ⟨n, rfl⟩
    rw [place_zero] at hplace hacc
    rcases hacc buf with ⟨buf', heq, hgood, hQ⟩
    rw [uploadLoop_turn hplace, heq]
    exact ⟨buf', if_pos ⟨rfl, hgood⟩, hQ⟩
  | succ m ih =>
    rcases Nat.exists_eq_succ_of_ne_zero (show n ≠ 0 by omega) with ⟨n, rfl⟩
    rw [place_succ] at hplace hacc
    have hroom : start + blksPerUboot geo len ≤ endblk := by
      unfold place at hplace
      omega
    rcases hrej 0 (by omega) buf with ⟨ret, buf', heq, hout⟩
    rw [place_zero] at heq
    rw [uploadLoop_turn hroom, heq]
    dsimp only
    rw [if_neg fun h => hout.elim (fun hne => hne h.1) fun hbad => by simp [hbad] at h]
    refine ih n buf' (by omega) hplace (fun l hl => ?_) hacc
    rw [← place_succ]
    exact hrej (l + 1) (by omega)

theorem uploadLoop_sound (n : Nat) {start : Nat} {buf buf' : Mem}
    (h : uploadLoop geo nand endblk len n start buf = some (0, buf')) :
    ∃ i buf₀, place geo len start i + blksPerUboot geo len ≤ endblk ∧
      attempt geo nand len (place geo len start i) buf₀ = some (0, buf') := by
  induction n generalizing start buf with
  | zero => cases h
  | succ n ih =>
    by_cases hroom : start + blksPerUboot geo len ≤ endblk
    · rw [uploadLoop_turn hroom] at h
      rcases hread : attempt geo nand len start buf with - | ⟨ret, buf₁⟩
      all_goals simp only [hread, reduceCtorEq] at h
      split_ifs at h with hpass
      · rw [Option.some.injEq, Prod.mk.injEq] at h
        refine ⟨0, buf, ?_⟩
        rw [place_zero, hread, hpass.1, h.2]
        exact ⟨hroom, rfl⟩
      · rcases ih h with ⟨i, hi⟩
        refine ⟨i + 1, ?_⟩
        rwa [place_succ]
    · rw [uploadLoop, if_neg hroom] at h
      cases h

end

end Brandy.SpinandBoot
