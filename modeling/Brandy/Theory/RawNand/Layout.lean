import Brandy.Theory.RawNand.Attempts

/-!
# Copies of U-Boot

The writer of the U-Boot area fills the blocks that are not bad and can be erased with copies of the
package, each from the start of a block on. Behind the last page of a copy the rest of the block is
filled up. If there is no rest, the fill goes over the whole next block, which the writer erases
when it gets there.

## Main definitions

* `Writing`: The writer is at some bytes of a package, with some blocks left.
* `IsCopy`: The blocks of a complete copy.

## Theorems

* `downloadBlock_spec`: One block.
* `Writing.copies`: The copies in the blocks that are left.
* `download_holds`: The pages of a complete copy hold the package.
-/

namespace Brandy.RawNand

open List Function Bool

open Buffer (memcpy Agree)

variable {q : Nat}

section

variable {cfg : Config} {len : Nat} {buf : Buffer}

variable {page : Nat}

theorem write_other {s : Nand cfg} (h : q ≠ page) (m : Buffer) (off mlen : Nat) :
    (chipWritePage s 0 page m off mlen).2.cell 0 q = s.cell 0 q := by
  unfold chipWritePage
  split
  · simp only [update_self, update_of_ne h]
  · rfl

theorem write_page (s : Nand cfg) (hok : cfg.writeRet 0 page = 0) (m : Buffer) (off : Nat)
    {mlen i : Nat} (hi : i < mlen) :
    (chipWritePage s 0 page m off mlen).2.cell 0 page i = m (off + i) := by
  unfold chipWritePage
  rw [if_pos hok]
  simp only [update_self]
  rw [Buffer.memcpy_of_mem, Nat.sub_zero]

theorem fillPages_below (left : Nat) (h : q < page) (s : Nand cfg) :
    (fillPages left page s).cell 0 q = s.cell 0 q := by
  induction left generalizing page s with
  | zero => rfl
  | succ left ih =>
    rw [fillPages, ih (by omega), write_other (by omega)]

/-- What a page is written from. -/
def Download.src (buf : Buffer) (d : Download cfg) : Buffer :=
  match d.mdata with
  | .buf => buf
  | .mbuf => d.mbuf

/-- The bytes that are not written yet, as the code counts them. -/
def Download.rest (len : Nat) (d : Download cfg) : Nat :=
  (len + (2 ^ 32 - (d.writenLen + cfg.pagesize))) % 2 ^ 32

theorem downloadPage_nand (page : Nat) (d : Download cfg) :
    (downloadPage len buf page d).2.nand =
      if len ≤ d.writenLen + cfg.pagesize then
        fillRemainPages (chipWritePage d.nand 0 page (d.src buf) d.off cfg.pagesize).2 (page + 1)
      else (chipWritePage d.nand 0 page (d.src buf) d.off cfg.pagesize).2 := by
  unfold downloadPage
  by_cases hrest : d.rest len < cfg.pagesize ∧ 0 < d.rest len
  · unfold Download.rest at hrest
    simp only [if_pos hrest]
    split
    · rfl
    · rfl
  · unfold Download.rest at hrest
    simp only [if_neg hrest]
    split
    · rfl
    · rfl

theorem downloadPage_below (h : q < page) (d : Download cfg) :
    (downloadPage len buf page d).2.nand.cell 0 q = d.nand.cell 0 q := by
  rw [downloadPage_nand]
  split
  · rw [fillRemainPages, fillPages_below _ (by omega), write_other (by omega)]
  · rw [write_other (by omega)]

/-- The page that is written, also when the rest of the block is filled behind it. -/
theorem downloadPage_cell (len : Nat) (hok : cfg.writeRet 0 page = 0) (d : Download cfg) {i : Nat}
    (hi : i < cfg.pagesize) :
    (downloadPage len buf page d).2.nand.cell 0 page i = d.src buf (d.off + i) := by
  rw [downloadPage_nand]
  split
  · rw [fillRemainPages, fillPages_below _ (by omega), write_page _ hok _ _ hi]
  · rw [write_page _ hok _ _ hi]

theorem downloadPages_below (left : Nat) (h : q < page) (d : Download cfg) :
    (downloadPages len buf left page d).nand.cell 0 q = d.nand.cell 0 q := by
  induction left generalizing page d with
  | zero => rfl
  | succ left ih =>
    rw [downloadPages]
    split
    · exact downloadPage_below h d
    · rw [ih (by omega), downloadPage_below h]

/-- `mdata` points to the bytes that come next. The last page of a package that does not fill it is
    in `mbuf`. -/
def Ready (len : Nat) (buf : Buffer) (d : Download cfg) : Prop :=
  (d.mdata = .buf ∧ d.off = d.writenLen) ∨
    (d.mdata = .mbuf ∧ d.off = 0 ∧ len < d.writenLen + cfg.pagesize ∧
      ∀ i, d.writenLen + i < len → d.mbuf i = buf (d.writenLen + i))

variable {d : Download cfg}

theorem Ready.src (h : Ready len buf d) {i : Nat} (hi : d.writenLen + i < len) :
    d.src buf (d.off + i) = buf (d.writenLen + i) := by
  unfold Download.src
  rcases h with ⟨hmdata, hoff⟩ | ⟨hmdata, hoff, -, hmbuf⟩
  · rw [hmdata, hoff]
  · rw [hmdata, hoff, zero_add]
    exact hmbuf i hi

theorem downloadPage_done (buf : Buffer) (page : Nat) (h : len ≤ d.writenLen + cfg.pagesize) :
    (downloadPage len buf page d).1 = true ∧ (downloadPage len buf page d).2.writenLen = 0 := by
  unfold downloadPage
  by_cases hrest : d.rest len < cfg.pagesize ∧ 0 < d.rest len
  · unfold Download.rest at hrest
    simp only [if_pos hrest, if_pos h]
    exact ⟨trivial, trivial⟩
  · unfold Download.rest at hrest
    simp only [if_neg hrest, if_pos h]
    exact ⟨trivial, trivial⟩

theorem downloadPage_more (page : Nat) (hready : Ready len buf d) (hlen : len < 2 ^ 32)
    (h : d.writenLen + cfg.pagesize < len) :
    (downloadPage len buf page d).1 = false ∧
      (downloadPage len buf page d).2.writenLen = d.writenLen + cfg.pagesize ∧
      Ready len buf (downloadPage len buf page d).2 := by
  rcases hready with ⟨hmdata, hoff⟩ | ⟨-, -, hlast, -⟩
  · have hrest : (len + (2 ^ 32 - (d.writenLen + cfg.pagesize))) % 2 ^ 32 =
        len - (d.writenLen + cfg.pagesize) := by
      rw [show len + (2 ^ 32 - (d.writenLen + cfg.pagesize)) =
        len - (d.writenLen + cfg.pagesize) + 2 ^ 32 by omega, Nat.add_mod_right,
        Nat.mod_eq_of_lt (by omega)]
    unfold downloadPage
    simp only [hmdata, hrest]
    by_cases hlast : len - (d.writenLen + cfg.pagesize) < cfg.pagesize
    · -- the next page is the last, and does not fill a page
      have hboth : len - (d.writenLen + cfg.pagesize) < cfg.pagesize ∧
          0 < len - (d.writenLen + cfg.pagesize) := ⟨hlast, by omega⟩
      simp only [if_pos hboth, if_neg (Nat.not_le.mpr h)]
      refine ⟨trivial, trivial, .inr ⟨rfl, rfl, by simp only; omega, fun i hi => ?_⟩⟩
      simp only at hi ⊢
      rw [Buffer.memcpy_of_mem, Nat.sub_zero, hoff]
    · have hnot : ¬ (len - (d.writenLen + cfg.pagesize) < cfg.pagesize ∧
          0 < len - (d.writenLen + cfg.pagesize)) := fun hc => hlast hc.1
      simp only [if_neg hnot, if_neg (Nat.not_le.mpr h)]
      refine ⟨trivial, trivial, .inl ⟨rfl, ?_⟩⟩
      simp only [hoff]
  · omega

theorem downloadPages_state (hlen : len < 2 ^ 32) {left : Nat} (hleft : 0 < left) (page : Nat)
    (hready : Ready len buf d) :
    (d.writenLen + left * cfg.pagesize < len →
      (downloadPages len buf left page d).writenLen = d.writenLen + left * cfg.pagesize ∧
        Ready len buf (downloadPages len buf left page d)) ∧
    (len ≤ d.writenLen + left * cfg.pagesize →
      (downloadPages len buf left page d).writenLen = 0) := by
  induction left generalizing page d with
  | zero => omega
  | succ left ih =>
    rw [downloadPages, add_mul, one_mul]
    by_cases hmore : d.writenLen + cfg.pagesize < len
    · obtain ⟨hfalse, hlen', hready'⟩ := downloadPage_more page hready hlen hmore
      simp only [hfalse, false_eq_true, if_false]
      rcases Nat.eq_zero_or_pos left with rfl | hpos
      · rw [downloadPages, zero_mul, zero_add]
        exact ⟨fun _ => ⟨hlen', hready'⟩, fun hle => by omega⟩
      have h := ih hpos (page + 1) hready'
      rw [hlen'] at h
      refine ⟨fun hlt => ?_, fun hle => h.2 (by omega)⟩
      obtain ⟨hw, hr⟩ := h.1 (by omega)
      exact ⟨by omega, hr⟩
    · obtain ⟨htrue, hzero⟩ := downloadPage_done buf page (Nat.le_of_not_lt hmore)
      simp only [htrue, if_true]
      exact ⟨fun hlt => by omega, fun _ => hzero⟩

theorem downloadPages_cell (hlen : len < 2 ^ 32) {left k : Nat} (hk : k < left) (page : Nat)
    (hready : Ready len buf d) (hok : cfg.writeRet 0 (page + k) = 0) {i : Nat}
    (hi : i < cfg.pagesize) (hbyte : d.writenLen + k * cfg.pagesize + i < len) :
    (downloadPages len buf left page d).nand.cell 0 (page + k) i =
      buf (d.writenLen + k * cfg.pagesize + i) := by
  induction left generalizing page d k with
  | zero => omega
  | succ left ih =>
    rw [downloadPages]
    cases k with
    | zero =>
      simp only [zero_mul, add_zero] at hok hbyte ⊢
      have hcell := (downloadPage_cell len hok d hi).trans (hready.src hbyte)
      split
      · exact hcell
      · rw [downloadPages_below _ (Nat.lt_succ_self page)]
        exact hcell
    | succ k =>
      rw [add_mul, one_mul] at *
      obtain ⟨hfalse, hlen', hready'⟩ := downloadPage_more page hready hlen (by omega)
      simp only [hfalse, false_eq_true, if_false]
      rw [show page + (k + 1) = page + 1 + k by omega] at hok ⊢
      have h := ih (by omega) (page + 1) hready' hok (by omega)
      rw [h, hlen']
      congr 1
      omega

end

namespace UbootFlash

variable (f : UbootFlash)

/-- The pages of a block. -/
def pagesOf (blk : Nat) : List Nat := range' (f.firstPage blk) f.pagesPerBlk

/-- A block that the writer does not leave out. -/
def writable (blk : Nat) : Bool := !f.blockBad blk && f.cfg.eraseOk 0 blk

/-- The size of a block. -/
def blockSize : Nat := f.pagesPerBlk * f.pagesize

theorem blockSize_pos : 0 < f.blockSize := mul_pos f.pagesPerBlk_pos f.pagesize_pos

end UbootFlash

section

variable {f : UbootFlash} {len : Nat} {buf : Buffer}

theorem firstPage_eq (blk : Nat) : f.firstPage blk = blk * f.pagesPerBlk := by
  unfold UbootFlash.firstPage UbootFlash.pagesPerBlk
  rw [Nat.shiftLeft_eq, Nat.shiftLeft_eq, one_mul]

section

variable {blk : Nat} (h : blk < f.cfg.geometry.blocks)
include h

theorem rowBlock_firstPage : rowBlock f.cfg.world (f.firstPage blk) = blk := by
  have hlt : f.firstPage blk < 2 ^ 24 := by
    have hrows := f.cfg.geometry.rows_le
    rw [firstPage_eq]
    unfold UbootFlash.pagesPerBlk
    rw [Nat.shiftLeft_eq, one_mul]
    exact (Nat.mul_lt_mul_of_pos_right h (by positivity)).trans_le hrows
  unfold rowBlock
  rw [show (0xffffff : Nat) = 2 ^ 24 - 1 from rfl, Nat.and_two_pow_sub_one_eq_mod,
    Nat.mod_eq_of_lt hlt]
  exact Nat.shiftLeft_shiftRight blk _

theorem erase_ret (s : Nand f.cfg) :
    (eraseUbootBlock s (f.firstPage blk)).1 = 0 ↔ f.cfg.eraseOk 0 blk = true := by
  unfold eraseUbootBlock chipErase
  rw [rowBlock_firstPage h]
  constructor
  · intro hret
    by_contra hno
    exact absurd ((if_neg hno).symm.trans hret) (by decide)
  · intro hok
    exact if_pos hok

theorem erase_below (hq : q < f.firstPage blk) {s : Nand f.cfg} :
    (eraseUbootBlock s (f.firstPage blk)).2.cell 0 q = s.cell 0 q := by
  unfold eraseUbootBlock chipErase Nand.erase
  simp only
  rw [if_neg]
  intro hmem
  have hmem := mem_of_mem_filter hmem
  rw [mem_singleton, rowBlock_firstPage h, Prod.mk.injEq] at hmem
  rw [← hmem.2, firstPage_eq, Nat.shiftRight_eq_div_pow] at hq
  unfold UbootFlash.pagesPerBlk at hq
  rw [Nat.shiftLeft_eq, one_mul] at hq
  exact absurd (Nat.div_mul_le_self q _) (Nat.not_le.mpr hq)

/-- A block that is written to. -/
def downloadBlock (f : UbootFlash) (len : Nat) (buf : Buffer) (blk : Nat) (d : Download f.cfg) :
    Download f.cfg :=
  let d := { d with nand := (eraseUbootBlock d.nand (f.firstPage blk)).2 }
  downloadPages len buf f.pagesPerBlk (f.firstPage blk)
    (if d.writenLen = 0 then { d with mdata := .buf, off := 0 } else d)

theorem downloadBlocks_writable (hok : f.writable blk = true) (rest : List Nat)
    (d : Download f.cfg) :
    downloadBlocks f len buf (blk :: rest) d =
      downloadBlocks f len buf rest (downloadBlock f len buf blk d) := by
  unfold UbootFlash.writable at hok
  rw [and_eq_true, not_eq_true'] at hok
  have hret := (erase_ret h d.nand).mpr hok.2
  rw [downloadBlocks, hok.1]
  simp only [hret, false_eq_true, if_false, ne_eq, not_true_eq_false]
  rfl

theorem downloadBlocks_skip {len : Nat} {buf : Buffer} (hno : ¬ f.writable blk = true)
    {rest : List Nat} (d : Download f.cfg) :
    ∃ s, (∀ q < f.firstPage blk, s.cell 0 q = d.nand.cell 0 q) ∧
      downloadBlocks f len buf (blk :: rest) d =
        downloadBlocks f len buf rest { d with nand := s } := by
  rw [downloadBlocks]
  by_cases hbad : f.blockBad blk = true
  · rw [if_pos hbad]
    exact ⟨d.nand, fun _ _ => rfl, rfl⟩
  rw [if_neg hbad]
  have hret : (eraseUbootBlock d.nand (f.firstPage blk)).1 ≠ 0 := by
    intro hret
    refine hno ?_
    unfold UbootFlash.writable
    rw [and_eq_true, not_eq_true']
    exact ⟨eq_false_of_not_eq_true hbad, (erase_ret h d.nand).mp hret⟩
  simp only [hret, ne_eq, not_false_eq_true, if_true]
  exact ⟨_, fun q hq => erase_below h hq, rfl⟩

theorem downloadBlock_below (hq : q < f.firstPage blk) (d : Download f.cfg) :
    (downloadBlock f len buf blk d).nand.cell 0 q = d.nand.cell 0 q := by
  unfold downloadBlock
  rw [downloadPages_below _ hq]
  split
  · exact erase_below h hq
  · exact erase_below h hq

end

theorem downloadBlocks_below (blks : List Nat) (hrow : ∀ blk ∈ blks, blk < f.cfg.geometry.blocks)
    (hq : ∀ blk ∈ blks, q < f.firstPage blk) (d : Download f.cfg) :
    (downloadBlocks f len buf blks d).nand.cell 0 q = d.nand.cell 0 q := by
  induction blks generalizing d with
  | nil => rfl
  | cons blk rest ih =>
    have hrow' := hrow blk mem_cons_self
    have hq' := hq blk mem_cons_self
    have ih := fun d => ih (fun b hb => hrow b (mem_cons_of_mem _ hb))
      (fun b hb => hq b (mem_cons_of_mem _ hb)) d
    by_cases hok : f.writable blk = true
    · rw [downloadBlocks_writable hrow' hok, ih, downloadBlock_below hrow' hq']
    · obtain ⟨s, hcell, hskip⟩ := downloadBlocks_skip hrow' hok d
      rw [hskip, ih]
      exact hcell q hq'

/-- The writer is at some bytes of a package, with these blocks left to go over. -/
structure Writing (f : UbootFlash) (len : Nat) (buf : Buffer) (blks : List Nat)
    (d : Download f.cfg) : Prop where
  sorted : blks.Pairwise (· < ·)
  row : ∀ blk ∈ blks, blk < f.cfg.geometry.blocks
  lt : d.writenLen < len
  ready : d.writenLen ≠ 0 → Ready len buf d

variable {d : Download f.cfg}

theorem Writing.tail {rest : List Nat} (h : Writing f len buf (blk :: rest) d) (d' : Download f.cfg)
    (hlt : d'.writenLen < len) (hready : d'.writenLen ≠ 0 → Ready len buf d') :
    Writing f len buf rest d' :=
  ⟨h.sorted.of_cons, fun b hb => h.row b (mem_cons_of_mem _ hb), hlt, hready⟩

theorem downloadBlock_spec (hlen : len < 2 ^ 32) {blks : List Nat} (h : Writing f len buf blks d)
    (blk : Nat) :
    (d.writenLen + f.blockSize < len →
      (downloadBlock f len buf blk d).writenLen = d.writenLen + f.blockSize ∧
        Ready len buf (downloadBlock f len buf blk d)) ∧
    (len ≤ d.writenLen + f.blockSize → (downloadBlock f len buf blk d).writenLen = 0) ∧
    ∀ k < f.pagesPerBlk, f.cfg.writeRet 0 (f.firstPage blk + k) = 0 → ∀ i < f.pagesize,
      d.writenLen + k * f.pagesize + i < len →
        (downloadBlock f len buf blk d).nand.cell 0 (f.firstPage blk + k) i =
          buf (d.writenLen + k * f.pagesize + i) := by
  have hready : ∀ s : Nand f.cfg, Ready len buf (if d.writenLen = 0 then
      { d with nand := s, mdata := .buf, off := 0 } else { d with nand := s }) := by
    intro s
    by_cases hzero : d.writenLen = 0
    · rw [if_pos hzero]
      exact .inl ⟨rfl, hzero.symm⟩
    · rw [if_neg hzero]
      exact h.ready hzero
  have hlen' : ∀ s : Nand f.cfg, (if d.writenLen = 0 then
      { d with nand := s, mdata := .buf, off := 0 } else { d with nand := s }).writenLen =
        d.writenLen := by
    intro s
    split
    · rfl
    · rfl
  have hstate := downloadPages_state hlen f.pagesPerBlk_pos (f.firstPage blk)
    (hready (eraseUbootBlock d.nand (f.firstPage blk)).2)
  rw [hlen'] at hstate
  refine ⟨hstate.1, hstate.2, fun k hk hok i hi hbyte => ?_⟩
  have hcell := downloadPages_cell hlen hk (f.firstPage blk)
    (hready (eraseUbootBlock d.nand (f.firstPage blk)).2) hok hi (by rw [hlen']; exact hbyte)
  rw [hlen'] at hcell
  exact hcell

theorem pagesOf_getD (blk : Nat) {k : Nat} (hk : k < f.pagesPerBlk) :
    (f.pagesOf blk).getD k 0 = f.firstPage blk + k := by
  unfold UbootFlash.pagesOf
  rw [getD_eq_getElem _ _ (by rwa [length_range']), getElem_range', one_mul]

theorem Writing.copy (hlen : len < 2 ^ 32) {blks cur post : List Nat} (h : Writing f len buf blks d)
    (hfilter : blks.filter f.writable = cur ++ post)
    (hlow : d.writenLen + (cur.length - 1) * f.blockSize < len)
    (hhigh : len ≤ d.writenLen + cur.length * f.blockSize) :
    (∃ rest d', downloadBlocks f len buf blks d = downloadBlocks f len buf rest d' ∧
      Writing f len buf rest d' ∧ d'.writenLen = 0 ∧ rest.filter f.writable = post) ∧
    ∀ j, d.writenLen + j < len →
      f.cfg.writeRet 0 ((cur.flatMap f.pagesOf).getD (j / f.pagesize) 0) = 0 →
        (downloadBlocks f len buf blks d).nand.cell 0
          ((cur.flatMap f.pagesOf).getD (j / f.pagesize) 0) (j % f.pagesize) =
            buf (d.writenLen + j) := by
  have hpos := f.pagesize_pos
  have hlt := h.lt
  induction blks generalizing cur d with
  | nil =>
    -- no block is left, but some bytes are
    obtain ⟨rfl, -⟩ : cur = [] ∧ post = [] := by simpa using hfilter.symm
    rw [length_nil, zero_mul] at hhigh
    omega
  | cons blk rest ih =>
    have hrow := h.row blk mem_cons_self
    by_cases hok : f.writable blk = true
    · rw [filter_cons_of_pos hok] at hfilter
      cases cur with
      | nil =>
        rw [length_nil, zero_mul] at hhigh
        omega
      | cons b cur =>
        rw [cons_append] at hfilter
        obtain ⟨rfl, htail⟩ := cons.inj hfilter
        obtain ⟨hmore, hdone, hcell⟩ := downloadBlock_spec hlen h blk
        have hafter : ∀ j, d.writenLen + j < len → j < f.blockSize →
            f.cfg.writeRet 0 ((f.pagesOf blk).getD (j / f.pagesize) 0) = 0 →
              (downloadBlocks f len buf (blk :: rest) d).nand.cell 0
                ((f.pagesOf blk).getD (j / f.pagesize) 0) (j % f.pagesize) =
                  buf (d.writenLen + j) := by
          intro j hj hjlt hwrite
          have hk : j / f.pagesize < f.pagesPerBlk := (Nat.div_lt_iff_lt_mul hpos).mpr hjlt
          rw [pagesOf_getD blk hk] at hwrite ⊢
          rw [downloadBlocks_writable hrow hok,
            downloadBlocks_below rest (fun b hb => h.row b (mem_cons_of_mem _ hb)) ?_]
          · have hsum : j / f.pagesize * f.pagesize + j % f.pagesize = j := by
              rw [mul_comm]
              exact Nat.div_add_mod j f.pagesize
            rw [hcell _ hk hwrite _ (Nat.mod_lt _ hpos) (by omega), add_assoc, hsum]
          · -- the blocks behind this one have greater numbers
            intro b hb
            have hlt := rel_of_pairwise_cons h.sorted hb
            have hle : (blk + 1) * f.pagesPerBlk ≤ b * f.pagesPerBlk := Nat.mul_le_mul_right _ hlt
            rw [add_mul, one_mul] at hle
            rw [firstPage_eq, firstPage_eq]
            omega
        have hpages : (f.pagesOf blk).length = f.pagesPerBlk := length_range'
        rw [length_cons, Nat.add_sub_cancel] at hlow
        rw [length_cons, add_mul, one_mul] at hhigh
        simp only [flatMap_cons]
        rcases Nat.eq_zero_or_pos cur.length with hzero | hcur
        · -- the copy ends in this block
          obtain rfl := eq_nil_of_length_eq_zero hzero
          rw [hzero, zero_mul] at hhigh
          refine ⟨⟨rest, _, downloadBlocks_writable hrow hok rest d, ?_, hdone (by omega), htail⟩,
            fun j hj hwrite => ?_⟩
          · exact h.tail _ (by rw [hdone (by omega)]; omega) fun hne =>
              absurd (hdone (by omega)) hne
          · rw [flatMap_nil, append_nil] at hwrite ⊢
            exact hafter j hj (by omega) hwrite
        · have hblock : f.blockSize ≤ cur.length * f.blockSize := Nat.le_mul_of_pos_left _ hcur
          obtain ⟨hw, hready⟩ := hmore (by omega)
          have hsub : (cur.length - 1) * f.blockSize + f.blockSize = cur.length * f.blockSize := by
            rw [← Nat.succ_mul]
            congr 1
            omega
          obtain ⟨⟨rest', d', hrun, hwriting, hstate⟩, hrest⟩ :=
            ih (h.tail (downloadBlock f len buf blk d) (by omega) fun _ => hready) htail
              (by omega) (by omega) (by omega)
          refine ⟨⟨rest', d', ?_, hwriting, hstate⟩, fun j hj hwrite => ?_⟩
          · rw [downloadBlocks_writable hrow hok, hrun]
          · by_cases hj' : j < f.blockSize
            · have hk : j / f.pagesize < f.pagesPerBlk := (Nat.div_lt_iff_lt_mul hpos).mpr hj'
              rw [getD_append _ _ _ _ (by omega)] at hwrite ⊢
              exact hafter j hj hj' hwrite
            · -- the page is in one of the next blocks
              obtain ⟨j, rfl⟩ : ∃ i, j = f.blockSize + i := ⟨j - f.blockSize, by omega⟩
              have hdiv : (f.blockSize + j) / f.pagesize = f.pagesPerBlk + j / f.pagesize := by
                unfold UbootFlash.blockSize
                rw [mul_comm, Nat.mul_add_div hpos]
              have hmod : (f.blockSize + j) % f.pagesize = j % f.pagesize := by
                unfold UbootFlash.blockSize
                rw [mul_comm, Nat.mul_add_mod]
              rw [hdiv, getD_append_right _ _ _ _ (hpages.le.trans (Nat.le_add_right _ _)), hpages,
                Nat.add_sub_cancel_left] at hwrite ⊢
              rw [hmod, downloadBlocks_writable hrow hok, hrest j (by omega) hwrite, hw]
              congr 1
              omega
    · rw [filter_cons_of_neg hok] at hfilter
      obtain ⟨s, -, hskip⟩ := downloadBlocks_skip hrow hok d
      rw [hskip]
      exact ih (h.tail { d with nand := s } hlt h.ready) hfilter hlow hhigh hlt

/-- The number of blocks of a copy. -/
def UbootFlash.copyBlocks (f : UbootFlash) (len : Nat) : Nat :=
  (len + f.blockSize - 1) / f.blockSize

/-- The blocks of a complete copy. -/
def IsCopy (f : UbootFlash) (len : Nat) (blks : List Nat) : Prop :=
  ∃ c pre post, f.area.filter f.writable = pre ++ (blks ++ post) ∧
    pre.length = c * f.copyBlocks len ∧ blks.length = f.copyBlocks len

/-- The pages of a copy. -/
def UbootFlash.copyPages (f : UbootFlash) (len : Nat) (blks : List Nat) : List Nat :=
  (blks.flatMap f.pagesOf).take ((len + f.pagesize - 1) / f.pagesize)

theorem copyBlocks_bounds (hpos : 0 < len) :
    (f.copyBlocks len - 1) * f.blockSize < len ∧ len ≤ f.copyBlocks len * f.blockSize := by
  have hbpos := f.blockSize_pos
  have hdiv : f.copyBlocks len * f.blockSize + (len + f.blockSize - 1) % f.blockSize =
      len + f.blockSize - 1 := by
    rw [mul_comm]
    exact Nat.div_add_mod _ _
  have hmod := Nat.mod_lt (len + f.blockSize - 1) hbpos
  have hone : 1 ≤ f.copyBlocks len := (Nat.le_div_iff_mul_le hbpos).mpr (by omega)
  have hsub : (f.copyBlocks len - 1) * f.blockSize + f.blockSize =
      f.copyBlocks len * f.blockSize := by
    rw [← Nat.succ_mul]
    congr 1
    omega
  omega

theorem Writing.copies (hlen : len < 2 ^ 32) (c : Nat) {blks pre post : List Nat}
    (h : Writing f len buf blks d) (hzero : d.writenLen = 0)
    (hfilter : blks.filter f.writable = pre ++ post) (hpre : pre.length = c * f.copyBlocks len) :
    ∃ rest d', downloadBlocks f len buf blks d = downloadBlocks f len buf rest d' ∧
      Writing f len buf rest d' ∧ d'.writenLen = 0 ∧ rest.filter f.writable = post := by
  induction c generalizing blks pre d with
  | zero =>
    rw [zero_mul] at hpre
    obtain rfl := eq_nil_of_length_eq_zero hpre
    exact ⟨blks, d, rfl, h, hzero, hfilter⟩
  | succ c ih =>
    rw [Nat.succ_mul] at hpre
    obtain ⟨hlow, hhigh⟩ := copyBlocks_bounds (f := f) (show 0 < len from by have := h.lt; omega)
    have htake : (pre.take (f.copyBlocks len)).length = f.copyBlocks len := by
      rw [length_take]
      omega
    rw [← take_append_drop (f.copyBlocks len) pre, append_assoc] at hfilter
    obtain ⟨⟨rest, d', hrun, hwriting, hzero', hrest⟩, -⟩ := h.copy hlen hfilter
      (by rw [htake, hzero, zero_add]; exact hlow)
      (by rw [htake, hzero, zero_add]; exact hhigh)
    obtain ⟨rest', d'', hrun', h'⟩ := ih hwriting hzero' hrest (by rw [length_drop]; omega)
    exact ⟨rest', d'', hrun.trans hrun', h'⟩

theorem area_sorted : f.area.Pairwise (· < ·) := pairwise_lt_range'

theorem area_row : ∀ blk ∈ f.area, blk < f.cfg.geometry.blocks := by
  intro blk hblk
  have hle := f.area_le
  unfold UbootFlash.area at hblk
  rw [mem_range'_1] at hblk
  omega

theorem download_holds (buf : Buffer) (hlen : len < 2 ^ 32) {blks : List Nat}
    (hcopy : IsCopy f len blks)
    (hwrite : ∀ page ∈ f.copyPages len blks, f.cfg.writeRet 0 page = 0) :
    (downloadUboot f len buf).2.Holds (f.copyPages len blks) len buf := by
  have hpos := f.pagesize_pos
  rcases Nat.eq_zero_or_pos len with rfl | hlenpos
  · exact ⟨Nat.zero_le _, fun i hi => absurd hi (Nat.not_lt_zero i)⟩
  obtain ⟨c, pre, post, hfilter, hpre, hblks⟩ := hcopy
  obtain ⟨hlow, hhigh⟩ := copyBlocks_bounds (f := f) hlenpos
  have hstart : Writing f len buf f.area (Download.start f.nand) :=
    ⟨area_sorted, area_row, hlenpos, fun hne => absurd rfl hne⟩
  obtain ⟨rest, d, hrun, hwriting, hzero, hrest⟩ := hstart.copies hlen c rfl hfilter hpre
  obtain ⟨-, hcells⟩ := hwriting.copy hlen hrest (by rw [hblks, hzero, zero_add]; exact hlow)
    (by rw [hblks, hzero, zero_add]; exact hhigh)
  -- the pages of the blocks are enough for the package
  have hpages : (blks.flatMap f.pagesOf).length = f.copyBlocks len * f.pagesPerBlk := by
    rw [length_flatMap, ← hblks]
    simp [UbootFlash.pagesOf]
  have hneed : len ≤ (len + f.pagesize - 1) / f.pagesize * f.pagesize := by
    have hdiv := Nat.div_add_mod (len + f.pagesize - 1) f.pagesize
    have hmod := Nat.mod_lt (len + f.pagesize - 1) hpos
    rw [mul_comm] at hdiv
    omega
  have hall : (len + f.pagesize - 1) / f.pagesize ≤ (blks.flatMap f.pagesOf).length := by
    rw [hpages, Nat.div_le_iff_le_mul_add_pred hpos]
    unfold UbootFlash.blockSize at hhigh
    rw [← mul_assoc] at hhigh
    have : f.copyBlocks len * f.pagesPerBlk * f.pagesize =
      f.pagesize * (f.copyBlocks len * f.pagesPerBlk) := mul_comm _ _
    omega
  have hlength : (f.copyPages len blks).length = (len + f.pagesize - 1) / f.pagesize := by
    unfold UbootFlash.copyPages
    rw [length_take]
    omega
  refine ⟨by rw [hlength]; exact hneed, fun i hi => ?_⟩
  have hk : i / f.pagesize < (len + f.pagesize - 1) / f.pagesize :=
    (Nat.div_lt_iff_lt_mul hpos).mpr (by omega)
  have hget : (f.copyPages len blks).getD (i / f.pagesize) 0 =
      (blks.flatMap f.pagesOf).getD (i / f.pagesize) 0 := by
    unfold UbootFlash.copyPages
    rw [getD_eq_getElem?_getD, getD_eq_getElem?_getD, getElem?_take_of_lt hk]
  have hmem : (f.copyPages len blks).getD (i / f.pagesize) 0 ∈ f.copyPages len blks := by
    rw [getD_eq_getElem _ _ (by omega)]
    exact getElem_mem _
  have hcell := hcells i (by omega) (hget ▸ hwrite _ hmem)
  rw [hzero, zero_add, ← hrun] at hcell
  change buf i = (downloadUboot f len buf).2.nand.cell 0
    ((f.copyPages len blks).getD (i / f.pagesize) 0) (i % f.pagesize)
  rw [hget]
  exact hcell.symm

end

end Brandy.RawNand
