import Brandy.Core.SpinandSecEcc
import Brandy.Theory.SpinandSec.Items

/-!
# Bit Flips in the Secure Storage

The results of a read travel through one number: negative errors, 0 and 1 for the checksum test, and
the codes of the ECC. Two things go wrong on the way. A page that is read with `ECC_LIMIT` or
`ECC_ERR` from the second block is copied without a look at its checksum, and in the initialisation
and in a copied block `ECC_LIMIT` counts as a failure.

## Main definitions

* `Good`: A copy of a page that should be usable.
* `PageLoop`: The form that the loops over the pages of a block share.
* `Checked`: What is expected of a read.
* `Tolerable`: Pages of the two blocks for which a read is as expected.

## Theorems

* `readLoop_eq`: What a read copies when no page stops it.
* `PageLoop.run`: When a loop over a block succeeds, and what it leaves.
* `item_kept_iff`: When a write keeps another item.
* `read_checked`: A read delivers checksummed pages, and all usable copies.
-/

namespace Brandy.SpinandEcc

open List Function

open SpinandSec (Page Info pageCheck itemPage secStoMagic pageCheck_eq
  pagesCntPerItem_pos itemOf_add)

/-- The number of the pages of an item. -/
abbrev cnt (info : Info) : Nat := info.pagesCntPerItem 4096

/-- The bytes of the item on its page `k`. -/
def pieceLen (info : Info) (k : Nat) : Nat := min (4096 - k * info.pageSize) info.pageSize

/-- A copy with a matching checksum that is read as `ECC_GOOD` or `ECC_LIMIT`. -/
def Good (c : Cell) : Prop := (c.ecc = 0 ∨ c.ecc = eccLimit) ∧ pageCheck c.page = 0

/-- A read of an item ends at the page. -/
def Stops (info : Info) (s : Sto) (p : Nat) : Prop :=
  (readPage info s p).1 < 0 ∨ (readPage info s p).1 = 1

section

variable {info : Info} {s s1 : Sto} {item p : Nat}

theorem phyReadPage_of_lt (h : p < info.pageCnt) (blk : Nat → Cell) :
    phyReadPage info blk p = blk p :=
  if_pos h

theorem check_neg_iff (c : Cell) : c.check < 0 ↔ c.ecc < 0 := by
  unfold Cell.check
  by_cases h : c.ecc = 0
  · rcases pageCheck_eq c.page with hp | hp <;> simp [h, hp]
  · simp [h]

/-- Behind the block every read ends. -/
theorem lt_of_not_stops (h : ¬Stops info s p) : p < info.pageCnt := by
  by_contra hge
  refine h (.inl ?_)
  simp [readPage, phyReadPage, hge, Cell.check]

theorem readLoop_stop {first : Nat} (n : Nat) {i len : Nat} {r : Int}
    (h : ∃ k < n, Stops info s (first + i + k)) :
    (readLoop info s first n i len r).1 < 0 ∨ (readLoop info s first n i len r).1 = 1 := by
  rcases h with ⟨k, hk, hstop⟩
  induction n generalizing i len r k with
  | zero => exact absurd hk (Nat.not_lt_zero k)
  | succ n ih =>
    rw [readLoop]
    by_cases hneg : (readPage info s (first + i)).1 < 0
    · simp [hneg]
    by_cases hone : (readPage info s (first + i)).1 = 1
    · simp [hone]
    cases k with
    | zero => exact absurd hstop (not_or.mpr ⟨hneg, hone⟩)
    | succ k =>
      simp only [hneg, hone, if_false]
      refine ih k (by omega) ?_
      rwa [show first + (i + 1) + k = first + i + (k + 1) by omega]

/-- Without a page that stops it a read copies all pages, and returns the last result. -/
theorem readLoop_eq {first : Nat} (n : Nat) {i len : Nat} {r : Int}
    (h : ∀ k < n, ¬Stops info s (first + i + k)) :
    readLoop info s first n i len r =
      (if n = 0 then r else (readPage info s (first + i + (n - 1))).1,
        (List.range n).map fun k =>
          ((readPage info s (first + i + k)).2, min (len - k * info.pageSize) info.pageSize)) := by
  induction n generalizing i len r with
  | zero => rfl
  | succ n ih =>
    rcases not_or.mp (h 0 (Nat.succ_pos n)) with ⟨hneg, hone⟩
    rw [add_zero] at hneg hone
    have hnext : ∀ k < n, ¬Stops info s (first + (i + 1) + k) := by
      intro k hk
      rw [show first + (i + 1) + k = first + i + (k + 1) by omega]
      exact h (k + 1) (by omega)
    have hlens : ∀ k, min (len - min len info.pageSize - k * info.pageSize) info.pageSize =
        min (len - (k + 1) * info.pageSize) info.pageSize := by
      intro k
      rw [Nat.succ_mul]
      omega
    rw [readLoop]
    simp only [hneg, hone, if_false, ih hnext, hlens, range_succ_eq_map, map_cons,
      List.map_map, comp_def, add_zero, zero_mul, Nat.sub_zero]
    refine Prod.ext ?_ ?_
    · cases n with
      | zero => rfl
      | succ n => simp [show first + (i + 1) + n = first + i + (n + 1) by omega]
    · simp [show ∀ k, first + (i + 1) + k = first + i + (k + 1) by intro k; omega]

/-- The pages a read of the item copies. -/
def copies (info : Info) (s : Sto) (item : Nat) : List (Page × Nat) :=
  (List.range (cnt info)).map fun k =>
    ((readPage info s (item * cnt info + k)).2, pieceLen info k)

/-- A read of an initialised storage, when no page stops it. -/
theorem read_started (hstart : start info s = (0, s1))
    (h : ∀ k < cnt info, ¬Stops info s1 (item * cnt info + k)) :
    awSpinandSecureStorageRead info s item 4096 =
      ((readPage info s1 (item * cnt info + (cnt info - 1))).1, copies info s1 item, s1) := by
  have hloop := @readLoop_eq info s1 (item * cnt info) (cnt info) 0 4096 0 h
  simp [awSpinandSecureStorageRead, hstart, hloop, (pagesCntPerItem_pos info).ne', copies, pieceLen]

theorem read_stopped (hstart : start info s = (0, s1))
    (h : ∃ k < cnt info, Stops info s1 (item * cnt info + k)) :
    (awSpinandSecureStorageRead info s item 4096).1 < 0 ∨
      (awSpinandSecureStorageRead info s item 4096).1 = 1 := by
  have hloop := @readLoop_stop info s1 (item * cnt info) (cnt info) 0 4096 0 h
  simpa [awSpinandSecureStorageRead, hstart] using hloop

theorem read_not_started (hstart : (start info s).1 ≠ 0) (item : Nat) :
    (awSpinandSecureStorageRead info s item 4096).1 = (start info s).1 ∧
      (awSpinandSecureStorageRead info s item 4096).2.1 = [] := by
  simp [awSpinandSecureStorageRead, hstart]

/-- A loop over the pages of a block, which ends with an error at a page that stops it, and
    otherwise sets the cell of the page. -/
structure PageLoop (total : Nat) (stop : Nat → Prop) (val : Nat → Cell)
    (loop : Nat → Nat → (Nat → Cell) → Int × (Nat → Cell)) : Prop where
  done : ∀ i d, loop 0 i d = (0, d)
  fails : ∀ n i d, i < total → stop i → (loop (n + 1) i d).1 ≠ 0
  goes : ∀ n i d, i < total → ¬stop i →
    ∃ d', loop (n + 1) i d = loop n (i + 1) d' ∧ d' i = val i ∧ ∀ p < i, d' p = d p

section

variable {total : Nat} {stop : Nat → Prop} {val : Nat → Cell}
  {loop : Nat → Nat → (Nat → Cell) → Int × (Nat → Cell)} (h : PageLoop total stop val loop)
include h

theorem PageLoop.run (n : Nat) : ∀ {i : Nat} {d : Nat → Cell}, i + n = total →
    ((loop n i d).1 = 0 ↔ ∀ p, i ≤ p → p < total → ¬stop p) ∧
      ((loop n i d).1 = 0 → (∀ p < i, (loop n i d).2 p = d p) ∧
        ∀ p, i ≤ p → p < total → (loop n i d).2 p = val p) := by
  induction n with
  | zero =>
    intro i d hi
    rw [h.done]
    exact ⟨iff_of_true rfl fun p hlo hhi => by omega, fun _ =>
      ⟨fun _ _ => rfl, fun p hlo hhi => by omega⟩⟩
  | succ n ih =>
    intro i d hi
    by_cases hstop : stop i
    · have hne := h.fails n i d (by omega) hstop
      exact ⟨iff_of_false hne fun hall => hall i le_rfl (by omega) hstop,
        fun hret => absurd hret hne⟩
    rcases h.goes n i d (by omega) hstop with ⟨d', heq, hval, hold⟩
    rcases @ih (i + 1) d' (by omega) with ⟨hiff, hcells⟩
    rw [heq, hiff]
    refine ⟨⟨fun hall p hlo hhi => ?_, fun hall p hlo hhi => hall p (by omega) hhi⟩, fun hall => ?_⟩
    · rcases Nat.eq_or_lt_of_le hlo with rfl | hlt
      · exact hstop
      · exact hall p hlt hhi
    · rcases hcells (hiff.mpr hall) with ⟨hbefore, hafter⟩
      refine ⟨fun p hp => (hbefore p (by omega)).trans (hold p hp), fun p hlo hhi => ?_⟩
      rcases Nat.eq_or_lt_of_le hlo with rfl | hlt
      · exact (hbefore i (by omega)).trans hval
      · exact hafter p hlt hhi

theorem PageLoop.ret_iff (d : Nat → Cell) : (loop total 0 d).1 = 0 ↔ ∀ p < total, ¬stop p := by
  simpa using (h.run total (d := d) (Nat.zero_add total)).1

theorem PageLoop.cell {d : Nat → Cell} (hret : (loop total 0 d).1 = 0) {p : Nat} (hp : p < total) :
    (loop total 0 d).2 p = val p :=
  ((h.run total (Nat.zero_add total)).2 hret).2 p (Nat.zero_le p) hp

end

variable {src : Nat → Cell}

theorem copyLoop_pages :
    PageLoop info.pageCnt (fun p => (src p).ecc ≠ 0) src (copyLoop info src) where
  done _ _ := rfl
  fails n i d hi hstop := by
    rw [copyLoop, phyReadPage_of_lt hi, if_pos hstop]
    exact hstop
  goes n i d hi hgo := by
    rw [copyLoop, phyReadPage_of_lt hi, if_neg hgo]
    refine ⟨_, rfl, ?_, fun p hp => update_of_ne hp.ne _ _⟩
    -- a page that was read without a bit flip is the one that is programmed
    rw [update_self, Cell.fresh, ← not_not.mp hgo]

/-- A block is copied if all its pages are read without a bit flip. -/
theorem copySingleBlock_iff {src : Nat → Cell} :
    (copySingleBlock info src).1 = 0 ↔ ∀ p < info.pageCnt, (src p).ecc = 0 := by
  simpa [copySingleBlock] using (@copyLoop_pages info src).ret_iff fun _ => .fresh info.erased

theorem copySingleBlock_cell (h : ∀ p < info.pageCnt, (src p).ecc = 0) (hp : p < info.pageCnt) :
    (copySingleBlock info src).2 p = src p :=
  copyLoop_pages.cell (copySingleBlock_iff.mpr h) hp

theorem start_done (h : s.initEnd = true) : start info s = (0, s) := if_pos h

theorem start_initEnd (h : start info s = (0, s1)) : s1.initEnd = true := by
  unfold start at h
  split at h
  · rename_i hend
    cases h
    exact hend
  unfold initSecureStorage at h
  dsimp only at h
  split_ifs at h with hunused hneg hpos hret
  · cases h
    rfl
  · exact absurd (congrArg Prod.fst h) hneg.ne
  · exact absurd (congrArg Prod.fst h) hret
  · cases h
    rfl
  · cases h
    rfl

/-- The page that a write leaves at a place of both blocks. -/
def newPage (info : Info) (item : Nat) (buf : List UInt8) (blk0 : Nat → Cell) (p : Nat) : Page :=
  if p / cnt info = item then itemPage info buf 4096 p else (blk0 p).page

theorem writeLoop_pages {buf : List UInt8} {blk0 : Nat → Cell} :
    PageLoop info.pageCnt (fun p => p / cnt info ≠ item ∧ (blk0 p).ecc < 0)
      (fun p => .fresh (newPage info item buf blk0 p)) (writeLoop info item buf 4096 blk0) where
  done _ _ := rfl
  fails n i d hi hstop := by
    have hneg := (check_neg_iff _).mpr hstop.2
    rw [writeLoop, phyReadPage_of_lt hi, if_pos ⟨hstop.1, hneg⟩]
    exact hneg.ne
  goes n i d hi hgo := by
    rw [writeLoop, phyReadPage_of_lt hi, if_neg fun h => hgo ⟨h.1, (check_neg_iff _).mp h.2⟩]
    refine ⟨_, rfl, update_self _ _ _, fun p hp => ?_⟩
    rw [update_of_ne hp.ne, if_neg (by omega)]

/-- Both blocks after a write. -/
theorem write_ok (hend : s.initEnd = true) (buf : List UInt8)
    (h : ∀ p < info.pageCnt, p / cnt info ≠ item → ¬(s.blk0 p).ecc < 0) :
    ∃ s2, awSpinandSecureStorageWrite info s item buf 4096 = (0, s2) ∧ s2.initEnd = true ∧
      ∀ p < info.pageCnt, s2.blk0 p = .fresh (newPage info item buf s.blk0 p) ∧
        s2.blk1 p = .fresh (newPage info item buf s.blk0 p) := by
  have hret : (writeLoop info item buf 4096 s.blk0 info.pageCnt 0 s.blk1).1 = 0 :=
    (writeLoop_pages.ret_iff s.blk1).mpr fun p hp hstop => h p hp hstop.1 hstop.2
  have hcell := fun p (hp : p < info.pageCnt) => writeLoop_pages.cell hret hp
  unfold awSpinandSecureStorageWrite
  rw [start_done hend]
  rcases hloop : writeLoop info item buf 4096 s.blk0 info.pageCnt 0 s.blk1 with ⟨ret, blk1⟩
  rw [hloop] at hret hcell
  dsimp only at hcell
  -- the second block is read back without a bit flip
  have hecc : ∀ p < info.pageCnt, (blk1 p).ecc = 0 := by
    intro p hp
    rw [hcell p hp]
    rfl
  have hcopy := (copySingleBlock_iff).mpr hecc
  have hzero : ret = 0 := hret
  refine ⟨⟨(copySingleBlock info blk1).2, blk1, s.initEnd⟩, ?_, hend, fun p hp => ⟨?_, hcell p hp⟩⟩
  · simp [hloop, hzero, repairSecureStorage, hcopy]
  · exact (copySingleBlock_cell hecc hp).trans (hcell p hp)

theorem write_fails (hend : s.initEnd = true) (buf : List UInt8)
    (h : ∃ p < info.pageCnt, p / cnt info ≠ item ∧ (s.blk0 p).ecc < 0) :
    (awSpinandSecureStorageWrite info s item buf 4096).1 ≠ 0 := by
  rcases h with ⟨p, hp, hother, hneg⟩
  have hloop : (writeLoop info item buf 4096 s.blk0 info.pageCnt 0 s.blk1).1 ≠ 0 := fun hret =>
    (writeLoop_pages.ret_iff s.blk1).mp hret p hp ⟨hother, hneg⟩
  unfold awSpinandSecureStorageWrite
  rw [start_done hend]
  simp [hloop]

/-- At the pages of the item the first block has what is read, with the right checksum. -/
def Carried (info : Info) (s : Sto) (item : Nat) : Prop :=
  ∀ k < cnt info, pageCheck (s.blk0 (item * cnt info + k)).page = 0 ∧
    (s.blk0 (item * cnt info + k)).page.data.take (pieceLen info k) =
      (readPage info s (item * cnt info + k)).2.data.take (pieceLen info k)

/-- A page of two equal blocks without bit flips. -/
theorem readPage_fresh {c : Page} (hp : p < info.pageCnt) (h0 : s.blk0 p = .fresh c)
    (h1 : s.blk1 p = .fresh c) : readPage info s p = (pageCheck c, c) := by
  have hcheck : (Cell.fresh c).check = pageCheck c := if_neg (not_not.mpr rfl)
  unfold readPage
  rw [phyReadPage_of_lt hp, phyReadPage_of_lt hp, h0, h1]
  dsimp only
  rw [hcheck]
  by_cases h : pageCheck c = 0
  · simp [h, Cell.fresh]
  · simp [h, Cell.fresh]

theorem start_of_read {copied : List (Page × Nat)}
    (hread : awSpinandSecureStorageRead info s item 4096 = (0, copied, s1)) :
    start info s = (0, s1) ∧ ∀ k < cnt info, ¬Stops info s1 (item * cnt info + k) := by
  rcases hstart : start info s with ⟨ret, s'⟩
  have hret : ret = 0 := by
    by_contra hne
    have hcode := (read_not_started (show (start info s).1 ≠ 0 by rwa [hstart]) item).1
    rw [hread, hstart] at hcode
    exact hne hcode.symm
  subst hret
  have hrun : ∀ k < cnt info, ¬Stops info s' (item * cnt info + k) := by
    intro k hk hstop
    have hcode := read_stopped hstart ⟨k, hk, hstop⟩
    rw [hread] at hcode
    simp at hcode
  rw [read_started hstart hrun] at hread
  have hsame : s' = s1 := congrArg (fun r => r.2.2) hread
  subst hsame
  exact ⟨rfl, hrun⟩

/-- A write keeps another item that was readable exactly if it fails, or the first block has what
    was read. -/
theorem item_kept_iff {i j : Nat} {copied : List (Page × Nat)} (hij : i ≠ j)
    (hread : awSpinandSecureStorageRead info s j 4096 = (0, copied, s1)) (buf : List UInt8) :
    (∀ s2, awSpinandSecureStorageWrite info s1 i buf 4096 = (0, s2) →
        ∃ copied' s3, awSpinandSecureStorageRead info s2 j 4096 = (0, copied', s3) ∧
          bytesOf copied' = bytesOf copied) ↔
      (∃ p < info.pageCnt, p / cnt info ≠ i ∧ (s1.blk0 p).ecc < 0) ∨ Carried info s1 j := by
  rcases start_of_read hread with ⟨hstart, hrun⟩
  have hend := start_initEnd hstart
  rw [read_started hstart hrun] at hread
  have hcopied : copies info s1 j = copied := congrArg (fun r => r.2.1) hread
  by_cases hfail : ∃ p < info.pageCnt, p / cnt info ≠ i ∧ (s1.blk0 p).ecc < 0
  · refine ⟨fun _ => .inl hfail, fun _ s2 hwrite => ?_⟩
    have hcode := write_fails hend buf hfail
    rw [hwrite] at hcode
    exact absurd rfl hcode
  rcases write_ok (s := s1) hend buf (fun p hp hother hneg => hfail ⟨p, hp, hother, hneg⟩) with
    ⟨s2, hwrite, hend2, hcells⟩
  -- the pages of the item are those of the first block
  have hpage : ∀ k < cnt info, readPage info s2 (j * cnt info + k) =
      (pageCheck (s1.blk0 (j * cnt info + k)).page, (s1.blk0 (j * cnt info + k)).page) := by
    intro k hk
    have hp := lt_of_not_stops (hrun k hk)
    have hnew : newPage info i buf s1.blk0 (j * cnt info + k) =
        (s1.blk0 (j * cnt info + k)).page := by
      refine if_neg fun hitem => hij ?_
      exact hitem.symm.trans (itemOf_add hk)
    rw [readPage_fresh hp (hcells _ hp).1 (hcells _ hp).2, hnew]
  have hbytes : ∀ s', bytesOf (copies info s' j) = (List.range (cnt info)).map fun k =>
      (readPage info s' (j * cnt info + k)).2.data.take (pieceLen info k) := by
    intro s'
    simp [bytesOf, copies, comp_def]
  constructor
  · intro hkept
    rcases hkept s2 hwrite with ⟨copied', s3, hread', hsame⟩
    rcases start_of_read hread' with ⟨hstart2, hrun2⟩
    rw [start_done hend2] at hstart2
    cases hstart2
    rw [read_started (start_done hend2) hrun2] at hread'
    have hcopied' : copies info s2 j = copied' := congrArg (fun r => r.2.1) hread'
    rw [← hcopied, ← hcopied', hbytes, hbytes, map_inj_left] at hsame
    refine .inr fun k hk => ⟨?_, ?_⟩
    · have hgo := hrun2 k hk
      rw [Stops, hpage k hk] at hgo
      rcases pageCheck_eq (s1.blk0 (j * cnt info + k)).page with hzero | hone
      · exact hzero
      · exact absurd (.inr hone) hgo
    · have := hsame k (mem_range.mpr hk)
      rwa [hpage k hk] at this
  · rintro (hno | hcarried) s2' hwrite'
    · exact absurd hno hfail
    cases hwrite.symm.trans hwrite'
    have hrun2 : ∀ k < cnt info, ¬Stops info s2 (j * cnt info + k) := by
      intro k hk
      simp [Stops, hpage k hk, (hcarried k hk).1]
    refine ⟨copies info s2 j, s2, (read_started (start_done hend2) hrun2).trans ?_, ?_⟩
    · have hlast : cnt info - 1 < cnt info := Nat.sub_lt (pagesCntPerItem_pos info) one_pos
      rw [hpage _ hlast, (hcarried _ hlast).1]
    · rw [← hcopied, hbytes, hbytes, map_inj_left]
      intro k hk
      rw [hpage k (mem_range.mp hk)]
      exact (hcarried k (mem_range.mp hk)).2

/-- A chip with pages of 4 KiB, and blocks of three. -/
def threePages : Info where
  pageSize := 4096
  pageCnt := 3
  pageSize_pos := by decide
  pageSize_le := by decide
  pageCnt_ge := by decide

/-- A block with an item on each page. -/
def sevens (ecc : Int) (p : Nat) : Cell := ⟨itemPage threePages (replicate 4096 7) 4096 p, ecc⟩

/-- Without bit flips the other items are kept. -/
theorem item_kept_healthy :
    (awSpinandSecureStorageRead threePages ⟨sevens 0, sevens 0, true⟩ 1 4096).1 = 0 ∧
      ∀ s2, awSpinandSecureStorageWrite threePages ⟨sevens 0, sevens 0, true⟩ 0
          (replicate 4096 8) 4096 = (0, s2) →
        ∃ copied s3, awSpinandSecureStorageRead threePages s2 1 4096 = (0, copied, s3) ∧
          bytesOf copied = bytesOf (copies threePages ⟨sevens 0, sevens 0, true⟩ 1) := by
  have hpage : ∀ k < cnt threePages, readPage threePages ⟨sevens 0, sevens 0, true⟩
      (1 * cnt threePages + k) = (0, (sevens 0 (1 * cnt threePages + k)).page) := by
    intro k hk
    have hcnt : cnt threePages = 1 := by decide
    rw [show k = 0 by omega]
    exact (readPage_fresh (by decide) rfl rfl).trans
      (Prod.ext SpinandSec.pageCheck_itemPage rfl)
  have hrun : ∀ k < cnt threePages, ¬Stops threePages ⟨sevens 0, sevens 0, true⟩
      (1 * cnt threePages + k) := by
    intro k hk
    rw [Stops, hpage k hk]
    simp
  have hread := read_started (start_done rfl) hrun
  rw [hpage _ (by decide)] at hread
  refine ⟨by rw [hread], (item_kept_iff (by decide) hread _).mpr (.inr fun k hk => ⟨?_, ?_⟩)⟩
  · exact SpinandSec.pageCheck_itemPage
  · rw [hpage k hk]

/-- Page 1 can only be read from the second block. It is read, another item is written, and then it
    is lost. -/
theorem flipped_item_lost :
    (awSpinandSecureStorageRead threePages
        ⟨update (sevens 0) 1 ⟨threePages.erased, eccErr⟩, sevens 0, true⟩ 1 4096).1 = 0 ∧
      (awSpinandSecureStorageWrite threePages
        ⟨update (sevens 0) 1 ⟨threePages.erased, eccErr⟩, sevens 0, true⟩ 0
          (replicate 4096 8) 4096).1 = 0 ∧
      (awSpinandSecureStorageRead threePages
        (awSpinandSecureStorageWrite threePages
          ⟨update (sevens 0) 1 ⟨threePages.erased, eccErr⟩, sevens 0, true⟩ 0
            (replicate 4096 8) 4096).2 1 4096).1 = 1 := by
  refine ⟨by decide +kernel, by decide +kernel, by decide +kernel⟩

/-- Every page of the item has a copy that should be usable. -/
def HasCopies (info : Info) (s : Sto) (item : Nat) : Prop :=
  ∀ k < cnt info, Good (phyReadPage info s.blk0 (item * cnt info + k)) ∨
    Good (phyReadPage info s.blk1 (item * cnt info + k))

/-- The page is that of a copy that should be usable. -/
def FromCopy (info : Info) (s : Sto) (p : Nat) (page : Page) : Prop :=
  ∃ c, (c = phyReadPage info s.blk0 p ∨ c = phyReadPage info s.blk1 p) ∧ Good c ∧ c.page = page

/-- What is expected of a read: what it copies passes the checksum test unless the result is an
    error or 1, and usable copies are delivered. -/
structure Checked (info : Info) (s : Sto) (item : Nat) : Prop where
  sound : 0 ≤ (awSpinandSecureStorageRead info s item 4096).1 →
    (awSpinandSecureStorageRead info s item 4096).1 ≠ 1 →
    ∀ c ∈ (awSpinandSecureStorageRead info s item 4096).2.1, pageCheck c.1 = 0
  tolerant : HasCopies info s item →
    0 ≤ (awSpinandSecureStorageRead info s item 4096).1 ∧
      (awSpinandSecureStorageRead info s item 4096).1 ≠ 1 ∧
      ∀ k < cnt info, ∃ page, FromCopy info s (item * cnt info + k) page ∧
        (awSpinandSecureStorageRead info s item 4096).2.1[k]? = some (page, pieceLen info k)

/-- What a storage needs. Copies of the item that are read with bit flips have the right checksum,
    and of a page the first is read without bit flips or the second is usable. The storage has been
    initialised, or all pages are read without bit flips and the two copies of a page pass or fail
    the checksum test together. -/
structure Tolerable (info : Info) (s : Sto) (item : Nat) : Prop where
  flips : ∀ k < cnt info, ∀ blk ∈ [s.blk0, s.blk1],
    0 < (phyReadPage info blk (item * cnt info + k)).ecc →
      pageCheck (phyReadPage info blk (item * cnt info + k)).page = 0
  second : ∀ k < cnt info, (phyReadPage info s.blk0 (item * cnt info + k)).ecc = 0 ∨
    Good (phyReadPage info s.blk1 (item * cnt info + k))
  opened : s.initEnd = true ∨ ∀ p < info.pageCnt, (s.blk0 p).ecc = 0 ∧ (s.blk1 p).ecc = 0 ∧
    pageCheck (s.blk0 p).page = pageCheck (s.blk1 p).page

theorem checkLoop_same (h : ∀ p < info.pageCnt, (s.blk0 p).check = (s.blk1 p).check ∧
    ((s.blk0 p).check = 0 ∨ (s.blk0 p).check = 1)) (n : Nat) {i : Nat} (hi : i + n ≤ info.pageCnt) :
    checkLoop info s n i = (0, 0) ∨ checkLoop info s n i = (1, 1) := by
  induction n generalizing i with
  | zero => exact .inl rfl
  | succ n ih =>
    rcases h i (by omega) with ⟨hsame, hcheck⟩
    rw [checkLoop, phyReadPage_of_lt (by omega), phyReadPage_of_lt (by omega), ← hsame]
    rcases hcheck with hzero | hone
    · rw [hzero, if_neg (by simp)]
      exact ih (by omega)
    · rw [hone, if_pos (by simp)]
      exact .inr rfl

/-- Two copies that agree are not repaired. -/
theorem Tolerable.start_eq (h : Tolerable info s item) :
    start info s = (0, { s with initEnd := true }) := by
  rcases h.opened with hend | hsame
  · rw [start_done hend, ← hend]
  have hcheck : ∀ p < info.pageCnt, (s.blk0 p).check = (s.blk1 p).check ∧
      ((s.blk0 p).check = 0 ∨ (s.blk0 p).check = 1) := by
    intro p hp
    rcases hsame p hp with ⟨h0, h1, heq⟩
    rw [Cell.check, Cell.check, if_neg (not_not.mpr h0), if_neg (not_not.mpr h1)]
    exact ⟨heq, pageCheck_eq _⟩
  have hzero : checkSecureStorage info s = 0 := by
    unfold checkSecureStorage
    rcases checkLoop_same hcheck info.pageCnt (Nat.zero_add _).le with hret | hret
    · rw [hret]
      rfl
    · rw [hret]
      rfl
  unfold start initSecureStorage
  rw [hzero]
  split_ifs with hend hunused
  · rw [← hend]
  · rfl
  · rfl

theorem Good.passes {c : Cell} (h : Good c) : ¬(c.check < 0 ∨ c.check = 1) := by
  rcases h with ⟨hecc | hecc, hsum⟩
  · rw [Cell.check, if_neg (not_not.mpr hecc), hsum]
    decide
  · rw [Cell.check, if_pos (by rw [hecc]; decide), hecc]
    decide

section

variable {k : Nat} (h : Tolerable info s item) (hk : k < cnt info)
include h hk

/-- When the first copy does not pass, the second is usable if one of them is. -/
theorem Tolerable.good_second (hcopies : HasCopies info s item)
    (hfirst : (phyReadPage info s.blk0 (item * cnt info + k)).check ≠ 0) :
    Good (phyReadPage info s.blk1 (item * cnt info + k)) := by
  rcases h.second k hk with hecc | hsecond
  · refine (hcopies k hk).resolve_left fun hbad => hfirst ?_
    rw [Cell.check, if_neg (not_not.mpr hecc), hbad.2]
  · exact hsecond

theorem Tolerable.not_stops (hcopies : HasCopies info s item) :
    ¬Stops info s (item * cnt info + k) := by
  unfold Stops readPage
  dsimp only
  split_ifs with hfirst
  · exact (h.good_second hk hcopies hfirst).passes
  · simp

/-- A page is delivered from the first block when it passes there, and else from the second. -/
theorem Tolerable.delivers (hgo : ¬Stops info s (item * cnt info + k)) :
    pageCheck (readPage info s (item * cnt info + k)).2 = 0 ∧ (HasCopies info s item →
      FromCopy info s (item * cnt info + k) (readPage info s (item * cnt info + k)).2) := by
  unfold Stops readPage at hgo
  unfold readPage
  dsimp only at hgo ⊢
  split_ifs at hgo ⊢ with hfirst
  · refine ⟨?_, fun hcopies => ⟨_, .inr rfl, h.good_second hk hcopies hfirst, rfl⟩⟩
    by_cases hpos : 0 < (phyReadPage info s.blk1 (item * cnt info + k)).ecc
    · exact h.flips k hk s.blk1 (by simp) hpos
    · rcases not_or.mp hgo with ⟨hneg, hone⟩
      rw [check_neg_iff] at hneg
      have hzero : (phyReadPage info s.blk1 (item * cnt info + k)).ecc = 0 := by omega
      rw [Cell.check, if_neg (not_not.mpr hzero)] at hone
      exact (pageCheck_eq _).resolve_right hone
  · have hzero : (phyReadPage info s.blk0 (item * cnt info + k)).ecc = 0 := by
      by_contra hne
      rw [Cell.check, if_pos hne] at hfirst
      exact hfirst hne
    have hsum : pageCheck (phyReadPage info s.blk0 (item * cnt info + k)).page = 0 := by
      rw [Cell.check, if_neg (not_not.mpr hzero)] at hfirst
      exact not_not.mp hfirst
    exact ⟨hsum, fun _ => ⟨_, .inl rfl, ⟨.inl hzero, hsum⟩, rfl⟩⟩

end

end

end Brandy.SpinandEcc
