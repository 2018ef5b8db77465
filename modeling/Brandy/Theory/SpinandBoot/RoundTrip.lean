import Brandy.Theory.SpinandBoot.Reading

/-!
# Finding the Boot Package Again

The writer starts a copy behind the blocks the last one used, bad ones included. The reader tries
places at a fixed distance of as many blocks as a copy has. A single bad block inside a copy puts
the two out of step: a place then delivers the end of one copy and the beginning of the next.

## Main definitions

* `Survives`, `Found`: Only copy `j` is as it was burned, and it is found then.
* `Reached`: Some place of the reader is in step with copy `j`.

## Theorems

* `copy_of_getElem`: The blocks of a copy.
* `found_of_reached`, `not_found_of_no_place`, `not_found_of_out_of_step`: The two directions.
* `found_iff_reached`: When a copy is found.
-/

namespace Brandy.SpinandBoot

open Memory Word Goods Checksum List Option Function

/-- Where the copies of a package start. -/
def copiesOf (geo : Geometry) (ubootBlks : Nat) (isBad : Nat → Bool) (len : Nat) : List Nat :=
  (spinandMtdDownloadUboot geo ubootBlks isBad noFaults len (fun _ => 0) ⟨fun _ _ => 0, ∅⟩).2.2

/-- A chip of `blkCnt` blocks with the single physical layout, below 4 GiB, with the area of the
    boot package on it. Behind its end every block is bad. -/
structure Fits (geo : Geometry) (isBad : Nat → Bool) (blkCnt endblk : Nat) : Prop where
  single : geo.simulateMultiplane = false
  pow : ∃ k, geo.phyBlockSize = 2 ^ k
  small : blkCnt * geo.phyBlockSize ≤ 2 ^ 32
  beyond : ∀ b, blkCnt ≤ b → isBad b = true
  area : endblk ≤ blkCnt

/-- The package passes the test of the reader, whatever lies behind it. -/
def Passes (image : Mem) (len : Nat) : Prop :=
  ∀ buf, Set.EqOn buf image (Set.Ico 0 (len : Int)) → toc1Good buf = true

/-- The package fails the test of the reader, whatever lies behind it. -/
def Fails (image : Mem) (len : Nat) : Prop :=
  ∀ buf, Set.EqOn buf image (Set.Ico 0 (len : Int)) → toc1Good buf = false

/-- The blocks of the copy that starts at `c`. -/
def copyBlocks (geo : Geometry) (nand : Nand) (len c : Nat) : List Nat :=
  (goods nand.isBad c nand.blkCnt).take (blksPerUboot geo len)

/-- Of the copies only number `j` is as it was burned. -/
structure Survives (geo : Geometry) (len : Nat) (copies : List Nat) (j : Nat) (dev : Dev)
    (nand : Nand) : Prop where
  intact : ∀ c, copies[j]? = some c → ∀ b ∈ copyBlocks geo nand len c,
    nand.readable b = true ∧ nand.content b = dev.content b
  damaged : ∀ i c, i ≠ j → copies[i]? = some c →
    (∃ b ∈ copyBlocks geo nand len c, nand.readable b = false) ∨
      Fails (copyMem geo nand.content (copyBlocks geo nand len c)) len

/-- After every burning that succeeds, copy `j` is found when it is the only one that survives. -/
def Found (geo : Geometry) (ubootBlks : Nat) (isBad : Nat → Bool) (blkCnt len j : Nat) : Prop :=
  ∀ (image : Mem) (faults : Faults) (d : Dev), Passes image len →
    (spinandMtdDownloadUboot geo ubootBlks isBad faults len image d).1 = 0 →
    ∀ nand : Nand, nand.isBad = isBad → nand.blkCnt = blkCnt →
      Survives geo len (spinandMtdDownloadUboot geo ubootBlks isBad faults len image d).2.2 j
        (spinandMtdDownloadUboot geo ubootBlks isBad faults len image d).2.1 nand →
      ∀ buf, ∃ buf', spinandMtdUploadUboot geo ubootBlks nand buf len = some (0, buf') ∧
        Set.EqOn buf' image (Set.Ico 0 (len : Int))

/-- Some place of the reader has the good blocks of `j` copies in front of it, and every place
    before it those of some copies. -/
def Reached (isBad : Nat → Bool) (start endblk n j : Nat) : Prop :=
  ∃ i, start + i * n + n ≤ endblk ∧ (goods isBad start (start + i * n)).length = j * n ∧
    ∀ l < i, n ∣ (goods isBad start (start + l * n)).length

/-- A package, and the area it is burned to: there is room for a copy, and the number of its blocks
    has not wrapped. -/
structure Placed (geo : Geometry) (ubootBlks : Nat) (isBad : Nat → Bool)
    (blkCnt len start endblk : Nat) : Prop where
  area : spinandUbootBlknum geo ubootBlks = (start, endblk)
  fits : Fits geo isBad blkCnt endblk
  lenPos : 0 < len
  lenLt : len < 2 ^ 32
  aligned : len % geo.pageSize = 0
  room : start + blksPerUboot geo len ≤ endblk
  blksPos : 0 < blksPerUboot geo len

section

variable {geo : Geometry} {ubootBlks : Nat} {isBad : Nat → Bool} {blkCnt len start endblk : Nat}

variable {j c : Nat}

theorem accepted_of_copy (harea : spinandUbootBlknum geo ubootBlks = (start, endblk))
    (hj : (copiesOf geo ubootBlks isBad len)[j]? = some c) :
    start + blksPerUboot geo len ≤ endblk ∧ len % geo.pageSize = 0 := by
  have hlt := spinandUbootBlknum_lt geo ubootBlks
  unfold copiesOf spinandMtdDownloadUboot at hj
  rw [harea] at hj hlt
  dsimp only at hj hlt
  by_cases hroom : endblk - start < blksPerUboot geo len
  · rw [if_pos hroom] at hj
    cases hj
  rw [if_neg hroom] at hj
  refine ⟨by omega, ?_⟩
  by_contra halign
  rw [if_pos halign] at hj
  cases hj

theorem download_accepted {faults : Faults} {image : Mem} {d : Dev}
    (harea : spinandUbootBlknum geo ubootBlks = (start, endblk))
    (hroom : start + blksPerUboot geo len ≤ endblk) (halign : len % geo.pageSize = 0) :
    spinandMtdDownloadUboot geo ubootBlks isBad faults len image d =
      downloadUbootLoop geo isBad faults endblk image len start d [] := by
  unfold spinandMtdDownloadUboot
  rw [harea]
  dsimp only
  rw [if_neg (by omega), if_neg (not_not.mpr halign)]

theorem Placed.holds (h : Placed geo ubootBlks isBad blkCnt len start endblk) {image : Mem}
    {faults : Faults} {d : Dev}
    (hret : (spinandMtdDownloadUboot geo ubootBlks isBad faults len image d).1 = 0) :
    (spinandMtdDownloadUboot geo ubootBlks isBad faults len image d).2.2 =
        copiesOf geo ubootBlks isBad len ∧
      ∀ c ∈ copiesOf geo ubootBlks isBad len, Holds geo isBad endblk len image
        (spinandMtdDownloadUboot geo ubootBlks isBad faults len image d).2.1 c := by
  unfold copiesOf
  rw [download_accepted h.area h.room h.aligned] at hret ⊢
  rw [download_accepted h.area h.room h.aligned]
  rcases (downloadUbootLoop_follows faults len start d []).2 with hsame | ⟨hfailed, -⟩
  · rw [hsame]
    rcases downloadUbootLoop_laid h.lenPos d [] with
      ⟨cs, -, hcs, -, hheld⟩
    have hcopies := downloadUbootLoop_copies geo isBad endblk h.lenPos start image (fun _ => 0) d
      ⟨fun _ _ => 0, ∅⟩ []
    rw [nil_append] at hcs hcopies
    refine ⟨hcopies, fun c hc => ?_⟩
    rw [← hcopies, hcs] at hc
    exact (hheld c hc).2.2
  · rw [hfailed] at hret
    cases hret

theorem spinandUbootBlknum_pos (geo : Geometry) (ubootBlks : Nat) :
    0 < (spinandUbootBlknum geo ubootBlks).1 := by
  unfold spinandUbootBlknum ubootStartBlockSmallnand ubootStartBlockBignand
  dsimp only
  split_ifs <;> simp only <;> omega

/-- What is known of copy `j`: how many good blocks are before it, and that the chip has all of its
    blocks. -/
structure Copy (geo : Geometry) (isBad : Nat → Bool) (start endblk blkCnt len j c : Nat) :
    Prop where
  le : start ≤ c
  before : (goods isBad start c).length = j * blksPerUboot geo len
  ends : ∃ x, Ends geo isBad endblk c len x ∧ x < blkCnt

theorem copy_of_getElem (harea : spinandUbootBlknum geo ubootBlks = (start, endblk))
    (hfits : Fits geo isBad blkCnt endblk) (hlen : 0 < len) (hlt : len < 2 ^ 32)
    (hj : (copiesOf geo ubootBlks isBad len)[j]? = some c) :
    Placed geo ubootBlks isBad blkCnt len start endblk ∧
      Copy geo isBad start endblk blkCnt len j c := by
  rcases accepted_of_copy harea hj with ⟨hroom, halign⟩
  have hpos := geo.phyBlockSize_pos
  have hstart := spinandUbootBlknum_pos geo ubootBlks
  rw [harea] at hstart
  unfold copiesOf at hj
  rw [download_accepted harea hroom halign] at hj
  rcases downloadUbootLoop_laid hlen ⟨fun _ _ => 0, ∅⟩ [] with
    ⟨cs, -, hcs, hlaid, hheld⟩
  rw [hcs, nil_append] at hj
  rcases hheld c (mem_of_getElem? hj) with ⟨hle, ⟨x, hx⟩, -⟩
  have hxlt : x < blkCnt := by
    by_contra hge
    have hbad := hfits.beyond x (not_lt.mp hge)
    rw [hx.good] at hbad
    cases hbad
  -- the chip is too small for a length at which the number of blocks wraps
  have hN : 0 < blksPerUboot geo len := by
    have hxle := hx.le
    have hcount := length_goods_le isBad c x
    have hbytes : len ≤ (blkCnt - 1) * geo.phyBlockSize :=
      le_trans hx.after (Nat.mul_le_mul_right _ (by omega))
    have hsmall := hfits.small
    have hsplit : blkCnt * geo.phyBlockSize =
        (blkCnt - 1) * geo.phyBlockSize + geo.phyBlockSize := by
      rw [← Nat.succ_mul]
      congr 1
      omega
    unfold blksPerUboot
    rw [show (len : Int) + geo.phyBlockSize - 1 = ((len + geo.phyBlockSize - 1 : Nat) : Int) by
      omega, u32_natCast, Nat.mod_eq_of_lt (by omega)]
    exact Nat.div_pos (by omega) hpos
  rcases (hlaid hN).getElem hlt hN _ hj with ⟨-, hbefore, -⟩
  exact ⟨⟨harea, hfits, hlen, hlt, halign, hroom, hN⟩, hle, hbefore, x, hx, hxlt⟩

/-- As many blocks as a package needs, from good block number `q` on. -/
def window (geo : Geometry) (nand : Nand) (start len q : Nat) : List Nat :=
  ((goods nand.isBad start nand.blkCnt).drop q).take (blksPerUboot geo len)

theorem copyMem_take {content : Nat → Mem} {bs : List Nat} {n : Nat} (h : Needs geo len n) :
    Set.EqOn (copyMem geo content (bs.take n)) (copyMem geo content bs)
      (Set.Ico 0 (len : Int)) := by
  intro y hy
  lift y to Nat using hy.1 with t
  have ht : t < len := by exact_mod_cast hy.2
  have hk : t / geo.phyBlockSize < n :=
    (h _).mp (lt_of_le_of_lt (Nat.div_mul_le_self t geo.phyBlockSize) ht)
  unfold copyMem
  rw [Int.toNat_natCast, getD_eq_getElem?_getD, getD_eq_getElem?_getD,
    getElem?_take_of_lt hk]

theorem place_mono (geo : Geometry) (len start : Nat) {l m : Nat} (h : l ≤ m) :
    place geo len start l ≤ place geo len start m :=
  Nat.add_le_add_left (Nat.mul_le_mul_right _ h) start

theorem copy_eq_of_index {n i o p : Nat} (hp : p = i * n + o) (ho : o < n)
    (h : j * n ≤ p ∧ p < j * n + n) : i = j := by
  rw [← Nat.succ_mul] at h
  rw [← Nat.div_eq_of_lt_le h.1 h.2]
  refine (Nat.div_eq_of_lt_le (by omega) ?_).symm
  rw [Nat.succ_mul]
  omega

theorem Copy.window {nand : Nand} (h : Copy geo nand.isBad start endblk nand.blkCnt len j c) :
    copyBlocks geo nand len c =
      SpinandBoot.window geo nand start len (j * blksPerUboot geo len) := by
  rcases h.ends with ⟨x, hx, hlt⟩
  have hle := hx.le
  unfold copyBlocks SpinandBoot.window
  rw [← h.before, drop_goods h.le (by omega)]

section

variable {nand : Nand} (hb : Placed geo ubootBlks nand.isBad nand.blkCnt len start endblk)
include hb

theorem Placed.needs : Needs geo len (blksPerUboot geo len) :=
  fun _ => lt_blksPerUboot_iff hb.lenLt hb.blksPos

theorem Placed.copy (hj : (copiesOf geo ubootBlks nand.isBad len)[j]? = some c) :
    Copy geo nand.isBad start endblk nand.blkCnt len j c :=
  (copy_of_getElem hb.area hb.fits hb.lenPos hb.lenLt hj).2

theorem Placed.blocks {x : Nat} (h : Copy geo nand.isBad start endblk nand.blkCnt len j c)
    (hx : Ends geo nand.isBad endblk c len x) :
    copyBlocks geo nand len c = goods nand.isBad c (x + 1) := by
  rcases h.ends with ⟨x', hx', hxlt⟩
  have hsame := hx.unique hx'
  subst hsame
  have hle := hx.le
  unfold copyBlocks
  rw [goods_append (show c ≤ x + 1 by omega) (show x + 1 ≤ nand.blkCnt from hxlt),
    take_left' (hx.length_goods hb.lenLt hb.blksPos)]

theorem Placed.copy_room (h : Copy geo nand.isBad start endblk nand.blkCnt len j c) :
    j * blksPerUboot geo len + blksPerUboot geo len ≤
      (goods nand.isBad start nand.blkCnt).length := by
  rcases h.ends with ⟨x, hx, hxlt⟩
  have hle := hx.le
  have hlast := length_goods_mono nand.isBad c (show x + 1 ≤ nand.blkCnt from hxlt)
  rw [hx.length_goods hb.lenLt hb.blksPos] at hlast
  rw [goods_append h.le (show c ≤ nand.blkCnt by omega), length_append, h.before]
  omega

theorem Placed.place_lt {i : Nat} (hroom : place geo len start i + blksPerUboot geo len ≤ endblk) :
    start ≤ place geo len start i ∧ place geo len start i < nand.blkCnt ∧ i < endblk + 2 := by
  have harea := hb.fits.area
  have hN := hb.blksPos
  have hle : i ≤ i * blksPerUboot geo len := Nat.le_mul_of_pos_right i hN
  unfold place at hroom ⊢
  omega

variable {i : Nat} (hplace : place geo len start i + blksPerUboot geo len ≤ endblk)

include hplace in
theorem attempt_eq (buf : Mem) :
    attempt geo nand len (place geo len start i) buf =
      readList geo nand ((goods nand.isBad start nand.blkCnt).drop
        (goods nand.isBad start (place geo len start i)).length) len 0 buf := by
  rcases hb.fits.pow with ⟨k, hk⟩
  rcases hb.place_lt hplace with ⟨hstart, hr, -⟩
  have hsects : len % 512 = 0 := by
    refine Nat.mod_eq_zero_of_dvd (dvd_trans ?_ (Nat.dvd_of_mod_eq_zero hb.aligned))
    unfold Geometry.pageSize
    rw [hb.fits.single]
    exact Nat.dvd_mul_left 512 geo.sectCntPerPage
  unfold attempt
  rw [awSpinandMtdRead_eq hk hb.fits.small hr hb.lenPos hb.lenLt hsects,
    drop_goods hstart (le_of_lt hr)]

include hplace in
theorem attempt_spec {q : Nat} (hq : (goods nand.isBad start (place geo len start i)).length = q)
    (hroom : q + blksPerUboot geo len ≤ (goods nand.isBad start nand.blkCnt).length) (buf : Mem) :
    ∃ ret buf', attempt geo nand len (place geo len start i) buf = some (ret, buf') ∧
      (ret = 0 ↔ ∀ b ∈ window geo nand start len q, nand.readable b = true) ∧
      (ret = 0 → Set.EqOn buf' (copyMem geo nand.content (window geo nand start len q))
        (Set.Ico 0 (len : Int))) := by
  rw [attempt_eq hb hplace, hq]
  rcases readList_cases 0 buf hb.lenPos hb.needs with
    ⟨-, hall, buf', heq, hdata, -⟩ | ⟨⟨b, hmem, hbad⟩, buf', heq⟩ | ⟨hshort, -⟩
  · refine ⟨0, buf', heq, iff_of_true rfl hall, fun _ y hy => ?_⟩
    rw [window, copyMem_take hb.needs hy]
    lift y to Nat using hy.1 with t
    rw [← hdata t (by exact_mod_cast hy.2), zero_add]
  · refine ⟨-1, buf', heq, iff_of_false (by decide) fun hall => ?_, fun h => absurd h (by decide)⟩
    rw [hall b hmem] at hbad
    cases hbad
  · rw [length_drop] at hshort
    omega

include hplace in
theorem rejected_of_damaged (hcopy : Copy geo nand.isBad start endblk nand.blkCnt len j c)
    (hstep : (goods nand.isBad start (place geo len start i)).length = j * blksPerUboot geo len)
    (hdamaged : (∃ b ∈ copyBlocks geo nand len c, nand.readable b = false) ∨
      Fails (copyMem geo nand.content (copyBlocks geo nand len c)) len) :
    Rejected geo nand len (place geo len start i) := by
  intro buf
  rw [hcopy.window] at hdamaged
  rcases attempt_spec hb hplace hstep (hb.copy_room hcopy) buf with ⟨ret, buf', heq, hret, hdata⟩
  refine ⟨ret, buf', heq, ?_⟩
  by_cases hzero : ret = 0
  · rcases hdamaged with ⟨b, hmem, hbad⟩ | hfails
    · rw [hret.mp hzero b hmem] at hbad
      cases hbad
    · exact .inr (hfails buf' (hdata hzero))
  · exact .inl hzero

include hplace in
/-- A place in step with a copy before the one that survives. -/
theorem rejected_before {dev : Dev} (hj : (copiesOf geo ubootBlks nand.isBad len)[j]? = some c)
    (hsurvives : Survives geo len (copiesOf geo ubootBlks nand.isBad len) j dev nand)
    (hdvd : blksPerUboot geo len ∣ (goods nand.isBad start (place geo len start i)).length)
    (hbefore : (goods nand.isBad start (place geo len start i)).length < j * blksPerUboot geo len) :
    Rejected geo nand len (place geo len start i) := by
  rcases exists_eq_mul_left_of_dvd hdvd with ⟨a, ha⟩
  rw [ha] at hbefore
  have haj : a < j := Nat.lt_of_mul_lt_mul_right hbefore
  have hjlt := (List.getElem?_eq_some_iff.mp hj).1
  have hcopy_a := getElem?_eq_getElem
    (show a < (copiesOf geo ubootBlks nand.isBad len).length by omega)
  exact rejected_of_damaged hb hplace (hb.copy hcopy_a) ha
    (hsurvives.damaged a _ (by omega) hcopy_a)

theorem upload_eq (buf : Mem) :
    spinandMtdUploadUboot geo ubootBlks nand buf len =
      uploadLoop geo nand endblk len (endblk + 2) start buf := by
  rw [uploadLoop_turn hb.room]
  unfold spinandMtdUploadUboot
  rw [hb.area]
  rfl

end

theorem found_of_reached (h : Placed geo ubootBlks isBad blkCnt len start endblk)
    (hj : (copiesOf geo ubootBlks isBad len)[j]? = some c)
    (hreached : Reached isBad start endblk (blksPerUboot geo len) j) :
    Found geo ubootBlks isBad blkCnt len j := by
  classical
  rintro image faults d hpasses hret nand rfl rfl hsurvives buf
  have hcopy := h.copy hj
  rcases h.holds hret with ⟨hcopies, hholds⟩
  rw [hcopies] at hsurvives
  rw [upload_eq h]
  -- the first place with the good blocks of `j` copies in front of it
  rcases hreached with ⟨i, hroom, hcount, hstep⟩
  have hex : ∃ m, (goods nand.isBad start (place geo len start m)).length =
      j * blksPerUboot geo len := ⟨i, hcount⟩
  rcases Nat.findX hex with ⟨m, hspec, hmin⟩
  have hmi : m ≤ i := not_lt.mp fun hlt => hmin i hlt hcount
  have hplace : ∀ l ≤ i, place geo len start l + blksPerUboot geo len ≤ endblk := fun l hl =>
    le_trans (Nat.add_le_add_right (place_mono geo len start hl) _) hroom
  refine uploadLoop_first m _ buf (h.place_lt (hplace m hmi)).2.2 (hplace m hmi)
    (fun l hl => ?_) ?_
  · -- a place before delivers a copy before, which is damaged
    have hle := length_goods_mono nand.isBad start (place_mono geo len start (le_of_lt hl))
    rw [hspec] at hle
    exact rejected_before h (hplace l (by omega)) hj hsurvives (hstep l (by omega))
      (lt_of_le_of_ne hle (hmin l hl))
  · -- this place delivers the copy that survives
    intro buf
    have hwindow := hcopy.window
    rcases attempt_spec h (hplace m hmi) hspec (h.copy_room hcopy) buf with
      ⟨ret, buf', heq, hret, hdata⟩
    obtain rfl := hret.mpr fun b hb => (hsurvives.intact c hj b (hwindow ▸ hb)).1
    have himage : Set.EqOn buf' image (Set.Ico 0 (len : Int)) := by
      rcases hcopy.ends with ⟨x, hx, -⟩
      refine ((hdata rfl).trans ?_).trans (hholds c (mem_of_getElem? hj) x hx)
      rw [← hwindow, h.blocks hcopy hx]
      refine copyMem_congr (fun b hb => ?_) ?_
      · rw [← h.blocks hcopy hx] at hb
        exact (hsurvives.intact c hj b hb).2
      · rw [goods_succ_good hx.le hx.good, length_append]
        exact hx.after
    exact ⟨buf', heq, hpasses buf' himage, himage⟩

theorem toc1Good_congr {buf image : Mem} (h : Set.EqOn buf image (Set.Ico 0 40))
    (hvalid : word image 36 = 0) : toc1Good buf = toc1Good image := by
  have hword : ∀ a : Int, 0 ≤ a → a + 4 ≤ 40 → word buf a = word image a := by
    intro a hlo hhi
    unfold word
    rw [read_congr a fun x hx hx' => h ⟨by omega, by push_cast at hx'; omega⟩]
  unfold toc1Good
  rw [hword 36 (by decide) (by decide), hword 20 (by decide) (by decide), hvalid]
  -- with no words to add up, the loop still takes its first turn
  simp only [generateChecksum, sumQuads, sumRest, Nat.zero_div, Nat.cast_zero, zero_add,
    hword 0 (by decide) (by decide), hword 4 (by decide) (by decide),
    hword 8 (by decide) (by decide), hword 12 (by decide) (by decide)]
  rfl

/-- A smallest package: the word that makes up for the stamp, at an address. -/
def stampAt (a : Int) : Mem := store (fun _ => 0) a [0xC7, 0x93, 0xF5, 0xA0]

theorem toc1Good_stampAt {buf : Mem} {a : Int} (ha : a = 0 ∨ a = 4)
    (h : Set.EqOn buf (stampAt a) (Set.Ico 0 40)) : toc1Good buf = true := by
  rcases ha with rfl | rfl
  · rw [toc1Good_congr h (by decide +kernel)]
    decide +kernel
  · rw [toc1Good_congr h (by decide +kernel)]
    decide +kernel

theorem passes_stampAt (hlen : 40 ≤ len) : Passes (stampAt 0) len := by
  intro buf hbuf
  refine toc1Good_stampAt (.inl rfl) (hbuf.mono ?_)
  exact Set.Ico_subset_Ico_right (by exact_mod_cast hlen)

theorem not_passes_zero (image : Mem) : ¬ Passes image 0 := by
  intro h
  have hgood := h (fun _ => 0) fun y hy => absurd hy.2 (not_lt.mpr hy.1)
  exact absurd hgood (by decide +kernel)

/-- The burning of the smallest package. -/
def stamped (geo : Geometry) (ubootBlks : Nat) (isBad : Nat → Bool) (len : Nat) :
    Int × Dev × List Nat :=
  spinandMtdDownloadUboot geo ubootBlks isBad noFaults len (stampAt 0) ⟨fun _ _ => 0, ∅⟩

theorem Placed.stamped_ret (h : Placed geo ubootBlks isBad blkCnt len start endblk) :
    (stamped geo ubootBlks isBad len).1 = 0 := by
  unfold stamped
  rw [download_accepted h.area h.room h.aligned]
  rcases downloadUbootLoop_laid h.lenPos ⟨fun _ _ => 0, ∅⟩ [] with
    ⟨cs, hret, -⟩
  exact hret

theorem Placed.sector_le (h : Placed geo ubootBlks isBad blkCnt len start endblk) :
    512 ≤ len ∧ 512 ≤ geo.phyBlockSize := by
  have hpage : 512 ≤ geo.phyPageSize := Nat.le_mul_of_pos_left 512 geo.sectCntPerPage_pos
  constructor
  · refine le_trans hpage (Nat.le_of_dvd h.lenPos ?_)
    have hdvd := Nat.dvd_of_mod_eq_zero h.aligned
    unfold Geometry.pageSize at hdvd
    rwa [h.fits.single] at hdvd
  · exact le_trans hpage (Nat.le_mul_of_pos_left _ geo.pageCntPerBlk_pos)

section

variable {nand : Nand} (hb : Placed geo ubootBlks nand.isBad nand.blkCnt len start endblk)
include hb

/-- Copy `j` survives when its blocks are as they were burned and every other copy has a block that
    cannot be read. -/
theorem survives_of_numbers {P : Nat → Prop}
    (hP : ∀ p, (hp : p < (goods nand.isBad start nand.blkCnt).length) →
      (nand.readable (goods nand.isBad start nand.blkCnt)[p] = true ↔ P p))
    (hintact : ∀ p, (hp : p < (goods nand.isBad start nand.blkCnt).length) →
      j * blksPerUboot geo len ≤ p → p < j * blksPerUboot geo len + blksPerUboot geo len →
      P p ∧ nand.content (goods nand.isBad start nand.blkCnt)[p] =
        (stamped geo ubootBlks nand.isBad len).2.1.content (goods nand.isBad start nand.blkCnt)[p])
    (hdamaged : ∀ i, i ≠ j → ∃ o < blksPerUboot geo len, ¬ P (i * blksPerUboot geo len + o)) :
    Survives geo len (copiesOf geo ubootBlks nand.isBad len) j
      (stamped geo ubootBlks nand.isBad len).2.1 nand := by
  constructor
  · intro c' hc' b hmem
    rw [(hb.copy hc').window] at hmem
    rcases exists_of_mem_window hmem with ⟨p, hp, hlo, hhi, rfl⟩
    rw [hP p hp]
    exact hintact p hp hlo hhi
  · intro i c' hi hc'
    rw [(hb.copy hc').window]
    rcases hdamaged i hi with ⟨o, ho, hbad⟩
    have hroom := hb.copy_room (hb.copy hc')
    refine .inl ⟨(goods nand.isBad start nand.blkCnt).get ⟨i * blksPerUboot geo len + o, by omega⟩,
      (getElem_mem_window (nodup_goods _ _ _) _).mpr (by omega), ?_⟩
    exact Bool.eq_false_iff.mpr fun htrue => hbad ((hP _ _).mp htrue)

/-- When copy `j` is found and survives, the reader gives the smallest package that was burned. -/
theorem upload_of_found (hfound : Found geo ubootBlks nand.isBad nand.blkCnt len j)
    (hsurvives : Survives geo len (copiesOf geo ubootBlks nand.isBad len) j
      (stamped geo ubootBlks nand.isBad len).2.1 nand) (buf : Mem) :
    ∃ buf', uploadLoop geo nand endblk len (endblk + 2) start buf = some (0, buf') ∧
      buf' 0 = 0xC7 := by
  have hsector := hb.sector_le.1
  have hret := hb.stamped_ret
  rw [← (hb.holds hret).1] at hsurvives
  rcases hfound (stampAt 0) noFaults ⟨fun _ _ => 0, ∅⟩ (passes_stampAt (by omega)) hret nand rfl rfl
    hsurvives buf with ⟨buf', heq, himage⟩
  rw [upload_eq hb] at heq
  refine ⟨buf', heq, ?_⟩
  rw [himage ⟨le_rfl, by exact_mod_cast hb.lenPos⟩]
  rfl

end

/-- A chip with the given contents on which the good blocks with the given numbers can be read. -/
theorem exists_chip (isBad : Nat → Bool) (start blkCnt : Nat) (P : Nat → Prop)
    (content : Nat → Mem) :
    ∃ nand : Nand, nand.isBad = isBad ∧ nand.blkCnt = blkCnt ∧ nand.content = content ∧
      ∀ p, (hp : p < (goods isBad start blkCnt).length) →
        (nand.readable (goods isBad start blkCnt)[p] = true ↔ P p) := by
  classical
  refine ⟨⟨isBad, fun b => decide (P ((goods isBad start blkCnt).idxOf b)), content, blkCnt⟩, rfl,
    rfl, rfl, fun p hp => ?_⟩
  rw [decide_eq_true_iff, (nodup_goods _ _ _).idxOf_getElem]

theorem not_found_of_no_place (h : Placed geo ubootBlks isBad blkCnt len start endblk)
    (hnone : ∀ i, place geo len start i + blksPerUboot geo len ≤ endblk →
      (goods isBad start (place geo len start i)).length ≠ j * blksPerUboot geo len) :
    ¬ Found geo ubootBlks isBad blkCnt len j := by
  intro hfound
  have hN := h.blksPos
  -- only the blocks of the copy can be read
  rcases exists_chip isBad start blkCnt (fun p => j * blksPerUboot geo len ≤ p ∧
    p < j * blksPerUboot geo len + blksPerUboot geo len)
    (stamped geo ubootBlks isBad len).2.1.content
    with ⟨nand, rfl, rfl, hcontent, hreadable⟩
  have hsurvives := survives_of_numbers h hreadable
    (fun p hp hlo hhi => ⟨⟨hlo, hhi⟩, by rw [hcontent]⟩)
    fun i hi => ⟨0, hN, fun hin => hi (copy_eq_of_index rfl hN hin)⟩
  rcases upload_of_found h hfound hsurvives (fun _ => 0) with ⟨buf', heq, -⟩
  rcases uploadLoop_sound _ heq with ⟨i, buf₀, hroom, hread⟩
  rw [attempt_eq h hroom] at hread
  refine hnone i hroom ?_
  generalize (goods nand.isBad start (place geo len start i)).length = g at hread ⊢
  rcases readList_cases 0 buf₀ h.lenPos h.needs with
    ⟨hlength, hall, -⟩ | ⟨-, buf₁, hfail⟩ | ⟨-, hend⟩
  · rw [length_drop] at hlength
    -- the first and the last block that was read are blocks of the copy
    have hends : ∀ p, (hp : p < (goods nand.isBad start nand.blkCnt).length) → g ≤ p →
        p < g + blksPerUboot geo len →
        j * blksPerUboot geo len ≤ p ∧ p < j * blksPerUboot geo len + blksPerUboot geo len :=
      fun p hp hlo hhi => (hreadable p hp).mp
        (hall _ ((getElem_mem_window (nodup_goods _ _ _) hp).mpr ⟨hlo, hhi⟩))
    have hfirst := hends g (by omega) (by omega) (by omega)
    have hlast := hends (g + blksPerUboot geo len - 1) (by omega) (by omega) (by omega)
    omega
  · rw [hread] at hfail
    cases hfail
  · rw [hread] at hend
    cases hend

theorem not_found_of_out_of_step (h : Placed geo ubootBlks isBad blkCnt len start endblk) {i : Nat}
    (hj : (copiesOf geo ubootBlks isBad len)[j]? = some c)
    (hroom : place geo len start i + blksPerUboot geo len ≤ endblk)
    (hcount : (goods isBad start (place geo len start i)).length = j * blksPerUboot geo len)
    (hout : ∃ l < i, ¬ blksPerUboot geo len ∣ (goods isBad start (place geo len start l)).length) :
    ¬ Found geo ubootBlks isBad blkCnt len j := by
  classical
  intro hfound
  have hN := h.blksPos
  have hsector := h.sector_le
  -- the first place out of step
  rcases Nat.findX hout with ⟨l, ⟨hli, hdvd⟩, hmin⟩
  have hplace : ∀ l' ≤ l, place geo len start l' + blksPerUboot geo len ≤ endblk := fun l' hl' =>
    le_trans (Nat.add_le_add_right (place_mono geo len start (by omega)) _) hroom
  have hle := length_goods_mono isBad start (place_mono geo len start (le_of_lt hli))
  rw [hcount] at hle
  generalize hg : (goods isBad start (place geo len start l)).length = g at hdvd hle
  have hgj : g < j * blksPerUboot geo len := by
    refine lt_of_le_of_ne hle ?_
    rintro rfl
    exact hdvd (Nat.dvd_mul_left _ _)
  have ho : 0 < g % blksPerUboot geo len :=
    Nat.pos_of_ne_zero fun h => hdvd (Nat.dvd_of_mod_eq_zero h)
  have hon : g % blksPerUboot geo len < blksPerUboot geo len := Nat.mod_lt _ hN
  have hsplit : g = g / blksPerUboot geo len * blksPerUboot geo len + g % blksPerUboot geo len := by
    rw [mul_comm]
    exact (Nat.div_add_mod _ _).symm
  generalize g / blksPerUboot geo len = a at hsplit
  generalize g % blksPerUboot geo len = o at hsplit ho hon
  have hg_lt : g < (goods isBad start blkCnt).length := by
    rw [← hg]
    rcases (copy_of_getElem h.area h.fits h.lenPos h.lenLt hj).2 with ⟨hjle, hbefore, x, hx, hxlt⟩
    have hxle := hx.le
    rw [goods_append hjle (show c ≤ blkCnt by omega), length_append]
    omega
  -- the first block of copy `a` and the last blocks of all other copies but `j` cannot be read, and
  -- good block `g` holds a smallest package
  rcases exists_chip isBad start blkCnt (fun p => ¬ (p = a * blksPerUboot geo len + 0 ∨
    ∃ i, i ≠ j ∧ i ≠ a ∧ p = i * blksPerUboot geo len + (blksPerUboot geo len - 1)))
    (update (stamped geo ubootBlks isBad len).2.1.content (goods isBad start blkCnt)[g]
      (stampAt 4)) with ⟨nand, rfl, rfl, hcontent, hreadable⟩
  have hroom_j := h.copy_room (h.copy hj)
  have hsurvives : Survives geo len (copiesOf geo ubootBlks nand.isBad len) j
      (stamped geo ubootBlks nand.isBad len).2.1 nand := by
    refine survives_of_numbers h hreadable (fun p hp hlo hhi => ⟨?_, ?_⟩) fun i hi => ?_
    · rintro (hfirst | ⟨i', hi', -, hlast⟩)
      · exact absurd (copy_eq_of_index hfirst hN ⟨hlo, hhi⟩) (by omega)
      · exact hi' (copy_eq_of_index hlast (Nat.sub_lt hN one_pos) ⟨hlo, hhi⟩)
    · rw [hcontent]
      refine update_of_ne (fun heq => ?_) _ _
      have hsame := (nodup_goods _ _ _).getElem_inj_iff.mp heq
      omega
    · by_cases hia : i = a
      · exact ⟨0, hN, not_not.mpr (.inl (by rw [hia]))⟩
      · exact ⟨_, Nat.sub_lt hN one_pos, not_not.mpr (.inr ⟨i, hi, hia, rfl⟩)⟩
  rcases upload_of_found h hfound hsurvives (fun _ => 0) with ⟨buf', heq, hbyte⟩
  have hwrong : ∃ buf', uploadLoop geo nand endblk len (endblk + 2) start (fun _ => 0) =
      some (0, buf') ∧ buf' 0 = 0 := by
    refine uploadLoop_first l _ _ (h.place_lt (hplace l le_rfl)).2.2 (hplace l le_rfl)
      (fun l' hl' => ?_) ?_
    · -- the places before are in step with copies before, which are damaged
      have hle' := length_goods_mono nand.isBad start (place_mono geo len start (le_of_lt hl'))
      exact rejected_before h (hplace l' (le_of_lt hl')) hj hsurvives
        (not_not.mp fun hnot => hmin l' hl' ⟨by omega, hnot⟩) (by omega)
    · intro buf
      -- the window has neither the first block of copy `a` nor the last one of the next
      have hwindow : ∀ b ∈ window geo nand start len g, nand.readable b = true := by
        intro b hb
        rcases exists_of_mem_window hb with ⟨p, hp, hlo, hhi, rfl⟩
        refine (hreadable p hp).mpr ?_
        rintro (hfirst | ⟨i', hi', hia, hlast⟩)
        · omega
        · rcases lt_or_gt_of_ne hia with hne | hne
          all_goals
            have hmul := Nat.mul_le_mul_right (blksPerUboot geo len) (Nat.succ_le_of_lt hne)
            rw [Nat.succ_mul] at hmul
            omega
      rcases attempt_spec h (hplace l le_rfl) hg (by omega) buf with ⟨ret, buf', hread, hret, hdata⟩
      obtain rfl := hret.mpr hwindow
      have hhead : Set.EqOn buf' (stampAt 4) (Set.Ico 0 40) := by
        intro y hy
        rw [hdata rfl ⟨hy.1, lt_of_lt_of_le hy.2 (by omega)⟩]
        lift y to Nat using hy.1 with t
        have ht : t < 40 := by exact_mod_cast hy.2
        have hblock : t < geo.phyBlockSize := by omega
        unfold window copyMem
        rw [Int.toNat_natCast, Nat.div_eq_of_lt hblock, Nat.mod_eq_of_lt hblock,
          getD_eq_getElem?_getD, getElem?_take_of_lt hN,
          getElem?_drop, add_zero, getElem?_eq_getElem hg_lt, getD_some,
          hcontent, update_self]
      exact ⟨buf', hread, toc1Good_stampAt (.inr rfl) hhead, (hhead ⟨le_rfl, by decide⟩).trans rfl⟩
  rcases hwrong with ⟨buf₂, heq₂, hbyte₂⟩
  rw [heq, some.injEq, Prod.mk.injEq] at heq₂
  rw [← heq₂.2, hbyte] at hbyte₂
  exact absurd hbyte₂ (by decide)

/-- A copy is found after every burning that succeeds, whatever has happened to the other copies,
    exactly when a place of the reader is in step with it. -/
theorem found_iff_reached (hfits : Fits geo isBad blkCnt (spinandUbootBlknum geo ubootBlks).2)
    (hlt : len < 2 ^ 32) {j : Nat} (hj : j < (copiesOf geo ubootBlks isBad len).length) :
    Found geo ubootBlks isBad blkCnt len j ↔
      Reached isBad (spinandUbootBlknum geo ubootBlks).1 (spinandUbootBlknum geo ubootBlks).2
        (blksPerUboot geo len) j := by
  have hcopy := getElem?_eq_getElem hj
  rcases Nat.eq_zero_or_pos len with rfl | hlen
  · -- no package of no bytes passes, and the first place is in step with anything
    have hN : blksPerUboot geo 0 = 0 := Nat.le_zero.mp (blksPerUboot_le (Nat.zero_le _))
    have harea := spinandUbootBlknum_lt geo ubootBlks
    constructor
    · intro _
      refine ⟨0, by omega, ?_, fun l hl => absurd hl (Nat.not_lt_zero l)⟩
      rw [hN, mul_zero, mul_zero, add_zero, goods_of_le le_rfl]
      rfl
    · intro _ image faults d hpasses
      exact absurd hpasses (not_passes_zero image)
  · have hplaced := (copy_of_getElem rfl hfits hlen hlt hcopy).1
    constructor
    · intro hfound
      by_contra hnot
      refine not_found_of_no_place hplaced (fun i hroom hcount => ?_) hfound
      refine not_found_of_out_of_step hplaced hcopy hroom hcount ?_ hfound
      by_contra hstep
      refine hnot ⟨i, hroom, hcount, fun l hl => ?_⟩
      exact not_not.mp fun hdvd => hstep ⟨l, hl, hdvd⟩
    · exact found_of_reached hplaced hcopy

theorem Placed.second (h : Placed geo ubootBlks isBad blkCnt len start endblk) {x y : Nat}
    (hx : Ends geo isBad endblk start len x) (hnext : x + 1 + blksPerUboot geo len ≤ endblk)
    (hy : Ends geo isBad endblk (x + 1) len y) :
    (copiesOf geo ubootBlks isBad len)[1]? = some (x + 1) := by
  unfold copiesOf
  rw [download_accepted h.area h.room h.aligned, downloadUbootLoop_ends h.room hx,
    downloadUbootLoop_ends hnext hy, downloadUbootLoop_copies geo isBad _ h.lenPos _ (fun _ => 0)
      (fun _ => 0) _ ⟨fun _ _ => 0, ∅⟩]
  rfl

/-- The bad blocks of a chip of 1024 blocks with one bad block at `b`. -/
def oneBad (b : Nat) : Nat → Bool := fun x => x == b || decide (1024 ≤ x)

theorem fits_smallNand {b : Nat} :
    Fits smallNand (oneBad b) 1024 (spinandUbootBlknum smallNand 24).2 where
  single := rfl
  pow := ⟨17, by decide⟩
  small := by decide
  beyond x hx := by
    unfold oneBad
    rw [decide_eq_true hx, Bool.or_true]
  area := by decide

theorem blksPerUboot_smallNand : blksPerUboot smallNand 393216 = 3 := by decide +kernel

theorem placed_smallNand {b : Nat} : Placed smallNand 24 (oneBad b) 1024 393216 8 32 where
  area := by decide
  fits := fits_smallNand
  lenPos := by decide
  lenLt := by decide
  aligned := by decide
  room := by
    rw [blksPerUboot_smallNand]
    decide
  blksPos := by
    rw [blksPerUboot_smallNand]
    decide

/-- Block 100 is behind the area: the second copy of three blocks is found. -/
theorem found_smallNand : Found smallNand 24 (oneBad 100) 1024 393216 1 := by
  have hN := blksPerUboot_smallNand
  have harea : spinandUbootBlknum smallNand 24 = (8, 32) := by decide
  have hsecond : (copiesOf smallNand 24 (oneBad 100) 393216)[1]? = some 11 := by
    refine (placed_smallNand).second (x := 10) (y := 13) ?_ (by rw [hN]; decide) ?_
    all_goals exact ⟨by decide, by decide, by decide, by decide, fun y _ h _ => by omega⟩
  refine (found_iff_reached fits_smallNand (by decide)
    (List.getElem?_eq_some_iff.mp hsecond).1).mpr ⟨1, ?_, ?_, fun l hl => ?_⟩
  · rw [hN, harea]
    decide
  · rw [hN, harea]
    decide
  · rw [show l = 0 by omega, zero_mul, add_zero, goods_of_le le_rfl]
    exact dvd_zero _

/-- Block 9 is in the first copy: the second one starts at block 12, no place of the reader is in
    step with it, and it is lost when it is the only one left. -/
theorem not_found_smallNand :
    Fits smallNand (oneBad 9) 1024 (spinandUbootBlknum smallNand 24).2 ∧
    (copiesOf smallNand 24 (oneBad 9) 393216)[1]? = some 12 ∧
    ¬ Found smallNand 24 (oneBad 9) 1024 393216 1 := by
  have hN := blksPerUboot_smallNand
  have hsecond : (copiesOf smallNand 24 (oneBad 9) 393216)[1]? = some 12 := by
    refine (placed_smallNand).second (x := 11) (y := 14) ?_ (by rw [hN]; decide) ?_
    all_goals exact ⟨by decide, by decide, by decide, by decide, fun y _ h _ => by omega⟩
  refine ⟨fits_smallNand, hsecond, not_found_of_no_place placed_smallNand ?_⟩
  intro i hroom
  unfold place at hroom ⊢
  rw [hN] at hroom ⊢
  -- the places are 8, 11, 14 and so on to 29
  have hi : i < 8 := by
    omega
  interval_cases i <;> decide

end

end Brandy.SpinandBoot
