import Mathlib.Tactic
import Brandy.Core.SpinandMtd

/-!
# Addresses of MTD Reads

As long as one layout is used for the start of a request and for its pages, a read is a copy of the
bytes from its first address on, and reads can be cut anywhere. That is so without
`CONFIG_SIMULATE_MULTIPLANE`, and with it behind the start of the system partition.

In front of it `addr_to_req` finds the super page of an address, and the rest of the driver takes
that number for the number of a page. Both halves of a super page are the same page then.

## Main definitions

* `byteAt`: The byte of an address.
* `Splits`: A read delivers the same as two reads.

## Theorems

* `mtdRead_eq`: A read with one layout.
* `consistent_iff`: When the addresses are consistent.
-/

namespace Brandy.SpinandMtd

open Buffer (memcpy memcpy_congr memcpy_append memcpy_zero)
open SpinandPhysic (eccLimit eccErr)

variable {c : MtdChip}

namespace MtdChip

variable (c)

theorem phyPageSize_pos : 0 < c.phyPageSize := Nat.two_pow_pos _

theorem pageCntPerBlk_pos : 0 < c.pageCntPerBlk := Nat.two_pow_pos _

theorem pageSize_eq_pow :
    c.pageSize = 2 ^ (c.phyPageShift + if c.multiplane then 1 else 0) := by
  unfold pageSize phyPageSize
  split
  · rw [pow_succ]
  · rw [add_zero]

theorem blockSize_eq_pow : c.blockSize =
    2 ^ (c.pageCntShift + (c.phyPageShift + if c.multiplane then 1 else 0)) := by
  rw [blockSize, pageSize_eq_pow, pageCntPerBlk, pow_add 2 c.pageCntShift]

theorem pageSize_pos : 0 < c.pageSize := by
  rw [pageSize_eq_pow]
  exact Nat.two_pow_pos _

theorem blockSize_div : c.blockSize / c.pageSize = c.pageCntPerBlk := by
  rw [blockSize, Nat.mul_div_cancel _ c.pageSize_pos]

end MtdChip

theorem addrToReq_eq (addr : Nat) :
    addrToReq c addr = (addr / c.pageSize / c.pageCntPerBlk, addr / c.pageSize % c.pageCntPerBlk,
      addr % c.pageSize) := by
  have hblock : addr &&& (c.blockSize - 1) = addr % c.blockSize := by
    rw [c.blockSize_eq_pow, Nat.and_two_pow_sub_one_eq_mod]
  have hpage : ∀ x, x &&& (c.pageSize - 1) = x % c.pageSize := by
    intro x
    rw [c.pageSize_eq_pow, Nat.and_two_pow_sub_one_eq_mod]
  rw [addrToReq, hblock, hpage, MtdChip.blockSize, mul_comm, Nat.mod_mul_right_div_self,
    Nat.div_div_eq_div_mul, Nat.mod_mul_right_mod]

theorem add_within {p off i : Nat} (h : off % p + i < p) :
    (off + i) / p = off / p ∧ (off + i) % p = off % p + i := by
  have hi : i % p = i := Nat.mod_eq_of_lt (by omega)
  have hlt : off % p + i % p < p := by rwa [hi]
  constructor
  · rw [Nat.add_div_eq_of_add_mod_lt hlt, Nat.div_eq_of_lt (show i < p by omega), add_zero]
  · rw [Nat.add_mod_of_add_mod_lt hlt, hi]

/-- All pages can be read, some of them perhaps with bit flips that are corrected. -/
def Readable (f : Flash) : Prop :=
  ∀ block page, f.status block page = 0 ∨ f.status block page = eccLimit

/-- The bytes of a page of a request. -/
def pageByte (c : MtdChip) (f : Flash) (block page off : Nat) : UInt8 :=
  if c.multiplane then f.content (block * 2 + off / c.phyPageSize) page (off % c.phyPageSize)
  else f.content block page off

variable {f : Flash} (hf : Readable f)

include hf

variable {req : Request}

theorem readSinglePage_eq (hpage : req.page < c.pageCntPerBlk) (hblock : req.block < c.blkCntPerDie)
    (buf : Buffer) :
    readSinglePage c f req buf = (f.status req.block req.page,
      memcpy buf req.databuf (f.content req.block req.page) req.pageoff req.datalen) := by
  rw [readSinglePage, if_neg (by omega), if_neg (by omega), if_neg]
  rcases hf req.block req.page with h | h
  · rw [h]
    decide
  · rw [h]
    decide

theorem superLoop_succ {fuel : Nat} (phy : Request) (hpage : phy.page < c.pageCntPerBlk)
    (hblock : phy.block < c.blkCntPerDie) (hleft : phy.dataleft ≠ 0) (limit : Int) (buf : Buffer) :
    superLoop c f (fuel + 1) phy limit buf =
      superLoop c f fuel (superNext c phy)
        (if f.status phy.block phy.page = eccLimit then eccLimit else limit)
        (memcpy buf phy.databuf (f.content phy.block phy.page) phy.pageoff phy.datalen) := by
  rw [superLoop, if_neg hleft, readSinglePage_eq hf hpage hblock]
  rcases hf phy.block phy.page with h | h
  · rw [h]
    rfl
  · rw [h]
    rfl

omit hf in
theorem superToPhy_eq (hoff : req.pageoff < c.phyPageSize * 2) :
    superToPhy c req = ⟨req.block * 2 + req.pageoff / c.phyPageSize, req.page,
      req.pageoff % c.phyPageSize, req.databuf,
      min (c.phyPageSize - req.pageoff % c.phyPageSize) req.datalen, req.datalen⟩ := by
  have hmask : req.pageoff &&& (c.phyPageSize - 1) = req.pageoff % c.phyPageSize :=
    Nat.and_two_pow_sub_one_eq_mod _ _
  have hblock : (if c.phyPageSize ≤ req.pageoff then req.block * 2 + 1 else req.block * 2) =
      req.block * 2 + req.pageoff / c.phyPageSize := by
    split
    · rw [Nat.div_eq_of_lt_le (k := 1) (by omega) (by omega)]
    · rw [Nat.div_eq_of_lt (by omega), add_zero]
  rw [superToPhy, hmask, hblock]

omit hf in
/-- What is read of one page of a plane is a piece of the page of the request. -/
theorem memcpy_pageByte (hmulti : c.multiplane = true) (block page off n : Nat)
    (hn : off % c.phyPageSize + n ≤ c.phyPageSize) {buf : Buffer} {databuf : Nat} :
    memcpy buf databuf (f.content (block * 2 + off / c.phyPageSize) page) (off % c.phyPageSize) n =
      memcpy buf databuf (pageByte c f block page) off n := by
  refine memcpy_congr _ _ fun i hi => ?_
  obtain ⟨hdiv, hmod⟩ := add_within (show off % c.phyPageSize + i < c.phyPageSize by omega)
  rw [pageByte, if_pos hmulti, hdiv, hmod]

theorem readSuperPage_eq (hmulti : c.multiplane = true) (hpage : req.page < c.pageCntPerBlk)
    (hblock : req.block < c.superBlocks) (hlen : 0 < req.datalen)
    (hin : req.pageoff + req.datalen ≤ c.phyPageSize * 2) (buf : Buffer) :
    ∃ ret, readSuperPage c f req buf =
        (ret, memcpy buf req.databuf (pageByte c f req.block req.page) req.pageoff req.datalen) ∧
      (ret = 0 ∨ ret = eccLimit) := by
  have hlimit : ∀ {limit : Int} {block page}, limit = 0 ∨ limit = eccLimit →
      (if f.status block page = eccLimit then eccLimit else limit) = 0 ∨
        (if f.status block page = eccLimit then eccLimit else limit) = eccLimit := by
    intro limit block page h
    split
    · exact Or.inr rfl
    · exact h
  have hpos := c.phyPageSize_pos
  have hmod := Nat.mod_lt req.pageoff hpos
  have hplane : req.pageoff / c.phyPageSize < 2 := Nat.div_lt_of_lt_mul (by omega)
  have hdie : c.blkCntPerDie = 2 * c.superBlocks := rfl
  rw [readSuperPage, superToPhy_eq (by omega),
    superLoop_succ hf _ (by exact hpage) (by dsimp only; omega) (by dsimp only; omega)]
  by_cases hmore : c.phyPageSize - req.pageoff % c.phyPageSize < req.datalen
  · -- the request goes on in the second page
    have hoff : req.pageoff < c.phyPageSize := by
      by_contra hge
      rw [Nat.mod_eq_sub_mod (by omega), Nat.mod_eq_of_lt (by omega)] at hmore
      omega
    have hpiece := memcpy_pageByte (f := f) hmulti req.block req.page
    have hfirst := hpiece req.pageoff (c.phyPageSize - req.pageoff)
    have hsecond := hpiece c.phyPageSize (req.datalen - (c.phyPageSize - req.pageoff))
    have hboth := memcpy_append buf req.databuf (pageByte c f req.block req.page) req.pageoff
      (c.phyPageSize - req.pageoff) (req.datalen - (c.phyPageSize - req.pageoff))
    rw [Nat.div_eq_of_lt hoff, Nat.mod_eq_of_lt hoff] at *
    rw [Nat.div_self hpos, Nat.mod_self] at hsecond
    rw [min_eq_left hmore.le, hfirst (by omega),
      superLoop_succ hf _ (by exact hpage) (by dsimp only [superNext]; omega)
        (by dsimp only [superNext]; omega)]
    refine ⟨_, Prod.ext rfl ?_, hlimit (hlimit (Or.inl rfl))⟩
    dsimp only [superNext, superLoop]
    rw [min_eq_left (by omega), add_zero, hsecond (by omega)]
    rwa [Nat.add_sub_cancel' hoff.le, Nat.add_sub_cancel' hmore.le] at hboth
  · rw [min_eq_right (by omega), superLoop, if_pos (by dsimp only [superNext]; omega),
      memcpy_pageByte hmulti _ _ _ _ (by dsimp only; omega)]
    exact ⟨_, rfl, hlimit (Or.inl rfl)⟩

theorem readPage_eq {req : Request} (hpage : req.page < c.pageCntPerBlk)
    (hblock : req.block * c.blockSize < c.totalSize) (hlen : 0 < req.datalen)
    (hin : req.pageoff + req.datalen ≤ c.pageSize) (buf : Buffer) :
    ∃ ret, readPage c f req buf =
        (ret, memcpy buf req.databuf (pageByte c f req.block req.page) req.pageoff req.datalen) ∧
      (ret = 0 ∨ ret = eccLimit) := by
  rw [MtdChip.totalSize, MtdChip.blkCntPerDie, MtdChip.phyBlockSize, MtdChip.blockSize] at hblock
  rw [MtdChip.pageSize] at hin hblock
  rw [readPage]
  cases hmulti : c.multiplane with
  | true =>
    rw [hmulti, if_pos rfl] at hin hblock
    refine readSuperPage_eq hf hmulti hpage ?_ hlen hin buf
    rw [← mul_assoc c.pageCntPerBlk, mul_comm (c.pageCntPerBlk * _) 2, ← mul_assoc,
      mul_comm req.block 2] at hblock
    have hlt := Nat.lt_of_mul_lt_mul_right hblock
    omega
  | false =>
    rw [hmulti, if_neg (by decide)] at hblock
    have hblk : req.block < c.blkCntPerDie := Nat.lt_of_mul_lt_mul_right hblock
    rw [if_neg (by decide), readSinglePage_eq hf hpage hblk]
    refine ⟨_, Prod.ext rfl (memcpy_congr _ _ fun i _ => ?_), hf _ _⟩
    rw [pageByte, hmulti, if_neg (by decide)]

/-- The byte of an address. -/
def byteAt (c : MtdChip) (f : Flash) (addr : Nat) : UInt8 :=
  pageByte c f (addr / c.pageSize / c.pageCntPerBlk) (addr / c.pageSize % c.pageCntPerBlk)
    (addr % c.pageSize)

/-- A request that has come to an address. -/
def reqAt (c : MtdChip) (addr left databuf : Nat) : Request :=
  ⟨addr / c.pageSize / c.pageCntPerBlk, addr / c.pageSize % c.pageCntPerBlk, addr % c.pageSize,
    databuf, min (c.pageSize - addr % c.pageSize) left, left⟩

omit hf

theorem next_page {count : Nat} (hpos : 0 < count) (page : Nat) :
    (if count ≤ page % count + 1 then page / count + 1 else page / count) = (page + 1) / count ∧
      (if count ≤ page % count + 1 then 0 else page % count + 1) = (page + 1) % count := by
  have hlt := Nat.mod_lt page hpos
  have hall := Nat.div_add_mod' page count
  by_cases hend : count ≤ page % count + 1
  · have hnext : page + 1 = (page / count + 1) * count := by
      rw [Nat.succ_mul]
      omega
    rw [if_pos hend, if_pos hend, hnext, Nat.mul_div_cancel _ hpos, Nat.mul_mod_left]
    exact ⟨rfl, rfl⟩
  · have hnext : page + 1 = page % count + 1 + page / count * count := by omega
    have hsame : page % count + 1 < count := by omega
    rw [if_neg hend, if_neg hend, hnext, Nat.add_mul_div_right _ _ hpos, Nat.add_mul_mod_self_right,
      Nat.div_eq_of_lt hsame, Nat.mod_eq_of_lt hsame, zero_add]
    exact ⟨rfl, rfl⟩

section

variable {offs : Nat} (hlayout : c.multiplane = false ∨ c.sysPartOffset ≤ offs)

include hlayout

/-- Both layouts have the same pages, or it is the one of the system partition. -/
theorem size_eq : (if c.sysPartOffset ≤ offs then c.pageSize else c.phyPageSize) = c.pageSize := by
  rcases hlayout with hmulti | hsys
  · rw [MtdChip.pageSize, hmulti]
    simp
  · exact if_pos hsys

theorem reqInit_eq (len databuf : Nat) : reqInit c offs len databuf = reqAt c offs len databuf := by
  have hmask : offs &&& (c.pageSize - 1) = offs % c.pageSize := by
    rw [c.pageSize_eq_pow, Nat.and_two_pow_sub_one_eq_mod]
  rw [reqInit, size_eq hlayout, hmask, addrToReq_eq, reqAt]

theorem reqNext_eq {addr left : Nat} (hmore : c.pageSize - addr % c.pageSize < left)
    (databuf : Nat) : reqNext c offs (reqAt c addr left databuf) =
      reqAt c (addr + (c.pageSize - addr % c.pageSize)) (left - (c.pageSize - addr % c.pageSize))
        (databuf + (c.pageSize - addr % c.pageSize)) := by
  have hpos := c.pageSize_pos
  have hlt := Nat.mod_lt addr hpos
  have hpage : addr + (c.pageSize - addr % c.pageSize) = (addr / c.pageSize + 1) * c.pageSize := by
    have hall := Nat.div_add_mod' addr c.pageSize
    rw [Nat.succ_mul]
    omega
  have hmin : min (c.pageSize - addr % c.pageSize) left = c.pageSize - addr % c.pageSize := by omega
  have hnext := next_page c.pageCntPerBlk_pos (addr / c.pageSize)
  rw [reqNext, size_eq hlayout, c.blockSize_div, MtdChip.phyBlockSize,
    Nat.mul_div_cancel _ c.phyPageSize_pos, ite_id]
  simp only [reqAt, hmin, hpage, Nat.mul_div_cancel _ hpos, Nat.mul_mod_left, Nat.sub_zero, hnext.1,
    hnext.2]

theorem readTurn_eq (hf : Readable f) {addr left : Nat} (hleft : 0 < left)
    (hin : addr + left ≤ c.totalSize) (databuf : Nat) (buf : Buffer) :
    ∃ ret, (if c.sysPartOffset ≤ offs then readPage c f (reqAt c addr left databuf) buf
        else readSinglePage c f (reqAt c addr left databuf) buf) =
        (ret, memcpy buf databuf (byteAt c f) addr (min (c.pageSize - addr % c.pageSize) left)) ∧
      (ret = 0 ∨ ret = eccLimit) := by
  have hpos := c.pageSize_pos
  have hlt := Nat.mod_lt addr hpos
  have hread : (if c.sysPartOffset ≤ offs then readPage c f (reqAt c addr left databuf) buf
      else readSinglePage c f (reqAt c addr left databuf) buf) =
      readPage c f (reqAt c addr left databuf) buf := by
    rcases hlayout with hmulti | hsys
    · rw [readPage, hmulti]
      simp
    · exact if_pos hsys
  have hblock : (reqAt c addr left databuf).block * c.blockSize < c.totalSize := by
    have hle : addr / c.pageSize / c.pageCntPerBlk * c.blockSize ≤ addr := by
      rw [MtdChip.blockSize, mul_comm c.pageCntPerBlk, Nat.div_div_eq_div_mul]
      exact Nat.div_mul_le_self _ _
    exact lt_of_le_of_lt hle (by omega)
  obtain ⟨ret, heq, hret⟩ := readPage_eq hf
    (Nat.mod_lt _ c.pageCntPerBlk_pos) hblock (by dsimp only [reqAt]; omega)
    (by dsimp only [reqAt]; omega) buf
  refine ⟨ret, ?_, hret⟩
  rw [hread, heq]
  refine Prod.ext rfl (memcpy_congr _ _ fun i hi => ?_)
  dsimp only [reqAt] at hi ⊢
  obtain ⟨hdiv, hmod⟩ := add_within (show addr % c.pageSize + i < c.pageSize by omega)
  rw [byteAt, hdiv, hmod]

omit hlayout in
theorem readLoop_done (fuel : Nat) (hleft : req.dataleft = 0) (maxBitflips : Int) (retlen : Nat)
    (buf : Buffer) :
    readLoop c f offs fuel req maxBitflips false retlen buf = ⟨maxBitflips, retlen, buf⟩ := by
  cases fuel with
  | zero => rfl
  | succ fuel => exact if_pos hleft

theorem readLoop_eq (hf : Readable f) {fuel addr left : Nat} (hfuel : left ≤ fuel)
    (hin : addr + left ≤ c.totalSize) (databuf : Nat) {maxBitflips : Int}
    (hflips : maxBitflips = 0 ∨ maxBitflips = eccLimit) (retlen : Nat) (buf : Buffer) :
    ∃ ret, readLoop c f offs fuel (reqAt c addr left databuf) maxBitflips false retlen buf =
        ⟨ret, retlen + left, memcpy buf databuf (byteAt c f) addr left⟩ ∧
      (ret = 0 ∨ ret = eccLimit) := by
  induction fuel generalizing addr left databuf maxBitflips retlen buf with
  | zero =>
    obtain rfl : left = 0 := by omega
    exact ⟨maxBitflips, by rw [memcpy_zero]; rfl, hflips⟩
  | succ fuel ih =>
    rcases Nat.eq_zero_or_pos left with rfl | hpos
    · refine ⟨maxBitflips, ?_, hflips⟩
      rw [readLoop_done (fuel + 1) rfl, memcpy_zero]
      rfl
    obtain ⟨ret, hturn, hret⟩ := readTurn_eq hlayout hf hpos hin databuf buf
    have hlt := Nat.mod_lt addr c.pageSize_pos
    -- no error, and the bit flips are counted as one value
    have hno : ¬ ret < 0 := by
      rcases hret with rfl | rfl
      · decide
      · decide
    have hgood : (false || ret == eccErr) = false := by
      rcases hret with rfl | rfl
      · decide
      · decide
    have hflips' : (if ret = eccLimit then max maxBitflips eccLimit else maxBitflips) = 0 ∨
        (if ret = eccLimit then max maxBitflips eccLimit else maxBitflips) = eccLimit := by
      rcases hflips with rfl | rfl
      · split
        · exact Or.inr rfl
        · exact Or.inl rfl
      · split
        · exact Or.inr rfl
        · exact Or.inr rfl
    have hleft : (reqAt c addr left databuf).dataleft ≠ 0 := ne_of_gt hpos
    rw [readLoop, if_neg hleft, hturn]
    rw [if_neg hno, hgood]
    by_cases hmore : c.pageSize - addr % c.pageSize < left
    · have hmin : min (c.pageSize - addr % c.pageSize) left = c.pageSize - addr % c.pageSize := by
        omega
      rw [reqNext_eq hlayout hmore, hmin]
      have hfuel' : left - (c.pageSize - addr % c.pageSize) ≤ fuel := by omega
      have hin' : addr + (c.pageSize - addr % c.pageSize) +
          (left - (c.pageSize - addr % c.pageSize)) ≤ c.totalSize := by omega
      obtain ⟨ret', heq, hret'⟩ := ih hfuel' hin'
        (databuf + (c.pageSize - addr % c.pageSize)) hflips'
        (retlen + (reqAt c addr left databuf).datalen)
        (memcpy buf databuf (byteAt c f) addr (c.pageSize - addr % c.pageSize))
      refine ⟨ret', heq.trans ?_, hret'⟩
      rw [memcpy_append, Nat.add_sub_cancel' (le_of_lt hmore), reqAt, hmin, add_assoc,
        Nat.add_sub_cancel' (le_of_lt hmore)]
    · have hmin : min (c.pageSize - addr % c.pageSize) left = left := by omega
      refine ⟨_, ?_, hflips'⟩
      rw [readLoop_done, hmin]
      · rw [reqAt, hmin]
      · rw [reqNext, reqAt, hmin]
        exact Nat.sub_self left

theorem mtdRead_eq (hf : Readable f) {len : Nat} (hin : offs + len ≤ c.totalSize) {databuf : Nat}
    {buf : Buffer} :
    (mtdRead c f offs len databuf buf).buf = memcpy buf databuf (byteAt c f) offs len ∧
      (mtdRead c f offs len databuf buf).retlen = len := by
  rw [mtdRead, if_neg (by omega)]
  rcases Nat.eq_zero_or_pos len with rfl | hpos
  · rw [if_pos rfl, memcpy_zero]
    exact ⟨rfl, rfl⟩
  obtain ⟨ret, heq, -⟩ := readLoop_eq hlayout hf le_rfl hin databuf (Or.inl rfl) 0 buf
  have hread : awSpinandRead c f offs len databuf buf =
      ⟨ret, len, memcpy buf databuf (byteAt c f) offs len⟩ := by
    rw [awSpinandRead, if_neg (by omega), if_neg (ne_of_gt hpos), reqInit_eq hlayout, heq,
      zero_add]
  rw [if_neg (ne_of_gt hpos), hread]
  dsimp only
  split
  · exact ⟨rfl, rfl⟩
  · exact ⟨rfl, rfl⟩

end

/-- A read delivers the same as two reads, the second of which goes on where the first one ends,
    whatever is stored. -/
def Splits (c : MtdChip) (a k n : Nat) : Prop :=
  ∀ f, Readable f → ∀ (b : Nat) (buf : Buffer), ∀ i < n,
    (mtdRead c f (a + k) (n - k) (b + k) (mtdRead c f a k b buf).buf).buf (b + i) =
      (mtdRead c f a n b buf).buf (b + i)

theorem splits_of_layout {a k n : Nat} (hlayout : c.multiplane = false ∨ c.sysPartOffset ≤ a)
    (hk : k ≤ n) (hin : a + n ≤ c.totalSize) : Splits c a k n := by
  intro f hf b buf i _
  have hlayout' : c.multiplane = false ∨ c.sysPartOffset ≤ a + k :=
    hlayout.imp_right fun h => h.trans (Nat.le_add_right a k)
  rw [(mtdRead_eq hlayout' hf (by omega)).1, (mtdRead_eq hlayout hf (by omega)).1,
    (mtdRead_eq hlayout hf hin).1, memcpy_append, Nat.add_sub_cancel' hk]

theorem addrMap_inj (hmulti : c.multiplane = false) {x y : Nat} (h : addrMap c x = addrMap c y) :
    x = y := by
  have hmap : ∀ x, addrMap c x = (x / c.pageSize / c.pageCntPerBlk,
      x / c.pageSize % c.pageCntPerBlk, x % c.pageSize) := by
    intro x
    rw [addrMap, reqInit_eq (Or.inl hmulti), hmulti]
    rfl
  rw [hmap, hmap, Prod.mk.injEq, Prod.mk.injEq] at h
  obtain ⟨hblock, hpage, hoff⟩ := h
  have hpages : x / c.pageSize = y / c.pageSize := by
    rw [← Nat.div_add_mod (x / c.pageSize) c.pageCntPerBlk, hblock, hpage, Nat.div_add_mod]
  rw [← Nat.div_add_mod x c.pageSize, hpages, hoff, Nat.div_add_mod]

theorem addrMap_collide (hmulti : c.multiplane = true) :
    c.phyPageSize < c.totalSize ∧ addrMap c 0 = addrMap c c.phyPageSize := by
  have hpos := c.phyPageSize_pos
  have hblock : c.phyPageSize ≤ c.phyBlockSize := Nat.le_mul_of_pos_left _ c.pageCntPerBlk_pos
  have hsys : 8 * c.phyBlockSize ≤ c.sysPartOffset := c.sys_ge
  have htotal : 2 * c.phyBlockSize ≤ c.totalSize :=
    Nat.mul_le_mul_right _ (Nat.le_mul_of_pos_right 2 c.superBlocks_pos)
  have hsize : c.pageSize = c.phyPageSize * 2 := by rw [MtdChip.pageSize, if_pos hmulti]
  have hmap : ∀ x < c.sysPartOffset, addrMap c x = (x / c.pageSize / c.pageCntPerBlk,
      x / c.pageSize % c.pageCntPerBlk, x % c.phyPageSize) := by
    intro x hx
    have hmask : x &&& (c.phyPageSize - 1) = x % c.phyPageSize :=
      Nat.and_two_pow_sub_one_eq_mod _ _
    rw [addrMap, if_neg fun h => Nat.not_le.mpr hx h.2, reqInit, if_neg (Nat.not_le.mpr hx), hmask,
      addrToReq_eq]
  refine ⟨by omega, ?_⟩
  rw [hmap 0 (by omega), hmap _ (by omega), Nat.zero_div, Nat.zero_mod, Nat.zero_mod, Nat.mod_self,
    Nat.div_eq_of_lt (show c.phyPageSize < c.pageSize by omega), Nat.zero_mod]

/-- The addresses of the device are consistent just if there are no super blocks. -/
theorem consistent_iff (c : MtdChip) (a k n : Nat) (hk : k ≤ n) (hin : a + n ≤ c.totalSize) :
    (Splits c a k n ∧
      ∀ x y, x < c.totalSize → y < c.totalSize → addrMap c x = addrMap c y → x = y) ↔
      c.multiplane = false := by
  constructor
  · rintro ⟨-, hinj⟩
    by_contra hmulti
    have htrue : c.multiplane = true := by simpa using hmulti
    obtain ⟨hlt, hsame⟩ := addrMap_collide htrue
    have hzero := hinj 0 c.phyPageSize (by omega) hlt hsame
    exact absurd hzero (Nat.ne_of_lt c.phyPageSize_pos)
  · intro hmulti
    exact ⟨splits_of_layout (Or.inl hmulti) hk hin, fun x y _ _ h => addrMap_inj hmulti h⟩

/-- Pages of 2048 bytes, 64 of them in a block, and 1024 blocks. -/
def mtdChip (multiplane : Bool) : MtdChip :=
  { phyPageShift := 11, pageCntShift := 6, superBlocks := 512, multiplane := multiplane,
    sysPartOffset := 48 * 131072, superBlocks_pos := Nat.succ_pos 511, total_lt := by decide,
    sys_ge := by decide }

/-- A read over the end of a page, cut inside the first one. -/
theorem consistent_small :
    Splits (mtdChip false) 2000 10 100 ∧
      ∀ x y, x < (mtdChip false).totalSize → y < (mtdChip false).totalSize →
        addrMap (mtdChip false) x = addrMap (mtdChip false) y → x = y :=
  (consistent_iff (mtdChip false) 2000 10 100 (by decide) (by decide)).mpr rfl

/-- With super blocks the bytes 0 and 2048 of the device are the same: a read of two pages delivers
    the first two, and two reads the first one twice. -/
theorem consistent_not :
    addrMap (mtdChip true) 0 = addrMap (mtdChip true) 2048 ∧
      ¬ Splits (mtdChip true) 0 2048 4096 ∧
      ¬ (Splits (mtdChip true) 0 2048 4096 ∧ ∀ x y, x < (mtdChip true).totalSize →
        y < (mtdChip true).totalSize → addrMap (mtdChip true) x = addrMap (mtdChip true) y →
        x = y) := by
  have hsplits : ¬ Splits (mtdChip true) 0 2048 4096 := by
    intro h
    have hbyte := h ⟨fun _ page _ => UInt8.ofNat page, fun _ _ => 0⟩ (fun _ _ => Or.inl rfl) 0
      (fun _ => 0) 2048 (by decide)
    exact absurd hbyte (by decide +kernel)
  exact ⟨by decide, hsplits, fun h => hsplits h.1⟩

end Brandy.SpinandMtd
