import Brandy.Library.Goods
import Brandy.Theory.SpinandSec.Items

/-!
# Crash Consistency of the Secure Storage

When power is lost in the middle of a write, the next boot decides at the first page where not both
blocks pass their checks. An item that was never written looks like a damaged page, so the decision
depends on which items have been written at all.

## Main definitions

* `Reached`: The states that complete writes reach.
* `CrashConsistent`: The next boot finds all items, and so does a reader after one more write.
* `LostInCompose`, `LostInCopyBack`: The two ways to lose an item.

## Theorems

* `crashConsistent_compose_iff`, `crashConsistent_copyBack_iff`: The two halves of a write.
* `crashConsistent_iff`: When a loss of power keeps every item.
-/

namespace Brandy.SpinandSec

open Word Crash Goods List Option

/-- The storage between two writes: both blocks are the same whole block. -/
structure Clean (info : Info) (s : SecSto) : Prop where
  inited : s.initEnd = true
  blocks : getBlocksForSecureStorage s = some (s.blk0, s.blk1)
  same : s.page s.blk1 = s.page s.blk0
  whole : Whole info (s.page s.blk0)

/-- The states that complete writes reach from a storage whose two blocks are erased, with boots
    between them. -/
inductive Reached (info : Info) : SecSto → Prop
  | start {s s' : SecSto} {a b : Nat} (hblk : getBlocksForSecureStorage s = some (a, b))
      (ha : s.page a = fun _ => info.erased) (hb : s.page b = fun _ => info.erased)
      (hrun : initSecureStorage info s none = .done 0 s' none) : Reached info s'
  | write {s s' : SecSto} {item : Nat} {buf : List UInt8} (hs : Reached info s)
      (hitem : info.Fits item) (hbuf : buf.length = 4096)
      (hrun : awSpinandSecureStorageWrite info item buf 4096 s none = .done 0 s' none) :
      Reached info s'
  | reboot {s s' : SecSto} (hs : Reached info s)
      (hrun : initSecureStorage info { s with initEnd := false } none = .done 0 s' none) :
      Reached info s'

/-- The items of `s'` against those of `s`: `x` is the old or the new one, and the others are the
    same, but for the one written since. -/
def Intact (info : Info) (s s' : SecSto) (x : Nat) (buf : List UInt8) (t : Option Nat) : Prop :=
  (∀ j, info.Fits j → j ≠ x → t ≠ some j →
    awSpinandSecureStorageRead info s' j 4096 = awSpinandSecureStorageRead info s j 4096) ∧
  (awSpinandSecureStorageRead info s' x 4096 = awSpinandSecureStorageRead info s x 4096 ∨
    awSpinandSecureStorageRead info s' x 4096 = .ok buf)

/-- Power is lost after `c` operations of a write of item `x`. The next boot finds all items, and so
    does a reader after one more write. -/
def CrashConsistent (info : Info) (s : SecSto) (x : Nat) (buf : List UInt8) (c : Nat) : Prop :=
  ∃ s', initSecureStorage info
      { (awSpinandSecureStorageWrite info x buf 4096 s (some c)).state with
        initEnd := false } none = .done 0 s' none ∧
    Intact info s s' x buf none ∧
    ∀ t tbuf, info.Fits t → t ≠ x → tbuf.length = 4096 →
      ∃ s'', awSpinandSecureStorageWrite info t tbuf 4096 s' none = .done 0 s'' none ∧
        Intact info s s'' x buf (some t)

/-- The page is written. -/
def Written (s : SecSto) (p : Nat) : Prop := pageCheck (s.page s.blk0 p) = 0

/-- The second block is cut off at page `m`, in a first write of item `x` with all items before it
    written, and lacks a page. -/
def LostInCompose (info : Info) (s : SecSto) (x m : Nat) : Prop :=
  x * info.pagesCntPerItem 4096 < m ∧
  (∀ p, p < x * info.pagesCntPerItem 4096 → Written s p) ∧
  ¬ Written s (x * info.pagesCntPerItem 4096) ∧ ∃ q, m ≤ q ∧ Written s q

/-- The first block is cut off at page `m`, behind a page never written, and it lacks a page. -/
def LostInCopyBack (info : Info) (s : SecSto) (x m : Nat) : Prop :=
  (∃ u, u ≤ m ∧ ¬ Written s u ∧ info.itemOf u ≠ x) ∧ ∃ q, m ≤ q ∧ Written s q

/-- The item is the first one that the block lacks, and its first page is in front of page `m`. -/
def Misleads (info : Info) (w : Nat → Page) (x m : Nat) : Prop :=
  x * info.pagesCntPerItem 4096 < m ∧
  (∀ p, p < x * info.pagesCntPerItem 4096 → pageCheck (w p) = 0) ∧
  ¬ pageCheck (w (x * info.pagesCntPerItem 4096)) = 0

section

variable {info : Info} {s : SecSto} {a b w : Nat → Page} {buf : List UInt8} {x m q : Nat}

theorem goodBlocks_eq (isBad : Nat → Bool) (count start need : Nat) :
    goodBlocks isBad count start need = (goods isBad start (start + count)).take need := by
  induction count generalizing start need with
  | zero => rw [goodBlocks, add_zero, goods_of_le le_rfl, take_nil]
  | succ count ih =>
    cases need with
    | zero => rfl
    | succ need =>
      rw [goodBlocks, add_comm count 1, ← add_assoc]
      split_ifs with hbad
      · rw [ih, goods_cons_bad (by omega) hbad]
      · rw [ih, goods_cons_good (a := start) (by omega) (Bool.eq_false_iff.mpr hbad),
          take_succ_cons]

theorem getBlocks_ne {a b : Nat} (h : getBlocksForSecureStorage s = some (a, b)) : a ≠ b := by
  have hnodup := (nodup_goods s.isBad s.startblk (s.startblk + (s.endblk - s.startblk))).sublist
    (take_sublist 2 _)
  rw [← goodBlocks_eq] at hnodup
  unfold getBlocksForSecureStorage at h
  split at h
  · rename_i hl
    rw [hl] at hnodup
    cases h
    intro hab
    simp [hab] at hnodup
  · cases h

theorem read_eq (info : Info) (s : SecSto) (item : Nat) :
    awSpinandSecureStorageRead info s item 4096 =
      readItem info (s.page s.blk0) (s.page s.blk1) item := rfl

theorem verdictOf_eq (p q : Page) :
    (verdictOf (pageCheck p, pageCheck q) = 1 → pageCheck p = 0 ∧ ¬ pageCheck q = 0) ∧
      (verdictOf (pageCheck p, pageCheck q) = 2 → ¬ pageCheck p = 0 ∧ pageCheck q = 0) := by
  rcases pageCheck_eq p with hp | hp <;> rcases pageCheck_eq q with hq | hq <;>
    simp [verdictOf, hp, hq]

/-- The first block is only overwritten at a page that it lacks, and the second one likewise. -/
theorem booted_cases {info : Info} {a b : Nat → Page} :
    booted info a b = (a, b) ∨
      (booted info a b = (a, cut info a info.pageCnt) ∧
        ∃ f, pageCheck (a f) = 0 ∧ ¬ pageCheck (b f) = 0 ∧ ∀ i, i < f → BothGood a b i) ∨
      booted info a b = (cut info b info.pageCnt, b) ∧
        ∃ f, ¬ pageCheck (a f) = 0 ∧ pageCheck (b f) = 0 ∧ ∀ i, i < f → BothGood a b i := by
  unfold booted
  split
  · exact .inl rfl
  rcases verdict_cases info a b with ⟨-, hv⟩ | ⟨f, -, -, hbelow, hv⟩
  · rw [hv]
    exact .inl rfl
  rcases verdict_range info with h0 | h1 | h2
  · rw [h0]
    exact .inl rfl
  · rw [h1]
    rcases (verdictOf_eq _ _).1 (hv ▸ h1) with ⟨ha, hb⟩
    exact .inr (.inl ⟨rfl, f, ha, hb, hbelow⟩)
  · rw [h2]
    rcases (verdictOf_eq _ _).2 (hv ▸ h2) with ⟨ha, hb⟩
    exact .inr (.inr ⟨rfl, f, ha, hb, hbelow⟩)

/-- The first page that only the first block lacks makes the boot take the second block. -/
theorem booted_second {f : Nat} (hf : f < info.pageCnt)
    (hmagic : (a 0).magic = secStoMagic ∨ (b 0).magic = secStoMagic)
    (ha : ¬ pageCheck (a f) = 0) (hb : pageCheck (b f) = 0) (hbelow : ∀ i, i < f → BothGood a b i) :
    booted info a b = (cut info b info.pageCnt, b) := by
  have hused : ¬ ((a 0).magic ≠ secStoMagic ∧ (b 0).magic ≠ secStoMagic) := by
    rintro ⟨h0, h1⟩
    exact hmagic.elim h0 h1
  have ha1 : pageCheck (a f) = 1 := (pageCheck_eq (a f)).resolve_left ha
  rcases verdict_cases info a b with ⟨hall, -⟩ | ⟨g, -, hbad, hgood, hv⟩
  · exact absurd (hall f hf).1 ha
  have hgf : g = f :=
    le_antisymm (not_lt.mp fun h => ha (hgood f h).1) (not_lt.mp fun h => hbad (hbelow g h))
  rw [booted, if_neg hused, hv, hgf, ha1, hb]
  rfl

theorem booted_same (info : Info) (a : Nat → Page) : booted info a a = (a, a) := by
  rcases booted_cases with h | ⟨-, f, hgood, hbad, -⟩ | ⟨-, f, hbad, hgood, -⟩
  · exact h
  · exact absurd hgood hbad
  · exact absurd hgood hbad

theorem cut_of_lt (h : q < m) (a : Nat → Page) : cut info a m q = a q := if_pos h

theorem cut_of_le (h : m ≤ q) {a : Nat → Page} : cut info a m q = info.erased :=
  if_neg (not_lt.mpr h)

theorem lt_of_cut_good (h : pageCheck (cut info a m q) = 0) : q < m := by
  by_contra hle
  rw [cut_of_le (not_lt.mp hle)] at h
  exact not_good_erased h

theorem booted_compose_second (hw : Whole info w) (hm : m ≤ info.pageCnt)
    (h : Misleads info w x m) :
    booted info w (cut info (updated info w x buf) m) =
      (cut info (updated info w x buf) m, cut info (updated info w x buf) m) := by
  rcases h with ⟨hfirst, hbelow, hnew⟩
  have hself : cut info (updated info w x buf) m (x * info.pagesCntPerItem 4096) =
      itemPage info buf 4096 (x * info.pagesCntPerItem 4096) := by
    rw [cut_of_lt hfirst, updated_self (itemOf_first x)]
  -- below the item both blocks are the old block
  have hsame : ∀ p, p < x * info.pagesCntPerItem 4096 →
      cut info (updated info w x buf) m p = w p := by
    intro p hp
    have hne : info.itemOf p ≠ x := by
      intro h
      have hle : info.itemOf p * info.pagesCntPerItem 4096 ≤ p := first_le p
      rw [h] at hle
      omega
    rw [cut_of_lt (by omega), updated_other hne]
  rw [booted_second (f := x * info.pagesCntPerItem 4096) (by omega) ?_ hnew ?_ ?_, cut_cut hm]
  · -- the first page has the magic number: it is a page of the item or written
    by_cases h0 : 0 < x * info.pagesCntPerItem 4096
    · exact .inl (hw.magic (hbelow 0 h0))
    · rw [Nat.eq_zero_of_not_pos h0] at hself
      rw [hself]
      exact .inr rfl
  · rw [hself]
    exact pageCheck_itemPage
  · intro i hi
    refine ⟨hbelow i hi, ?_⟩
    rw [hsame i hi]
    exact hbelow i hi

theorem booted_compose_first (hw : Whole info w) (h : ¬ Misleads info w x m) :
    booted info w (cut info (updated info w x buf) m) = (w, cut info (updated info w x buf) m) ∨
      booted info w (cut info (updated info w x buf) m) = (w, w) := by
  rcases booted_cases with
    hb | ⟨hb, -⟩ | ⟨-, f, hbad, hgood, hbelow⟩
  · exact .inl hb
  · rw [hw.cut_eq le_rfl] at hb
    exact .inr hb
  · -- the deciding page is a new page of the item, and then it is its first one
    exfalso
    have hfm := lt_of_cut_good hgood
    rw [cut_of_lt hfm] at hgood
    have hx : info.itemOf f = x := by
      by_contra hne
      rw [updated_other hne] at hgood
      exact hbad hgood
    have hle : x * info.pagesCntPerItem 4096 ≤ f := hx ▸ first_le f
    have hnew : ¬ pageCheck (w (x * info.pagesCntPerItem 4096)) = 0 := fun hg =>
      hbad (hw.uniform _ f (by rw [itemOf_first, hx]) hg)
    exact h ⟨by omega, fun p hp => (hbelow p (by omega)).1, hnew⟩

theorem booted_copyBack_kept {u : Nat} (hu : u ≤ m) (hbad : ¬ pageCheck (w u) = 0) :
    booted info (cut info w m) w = (cut info w m, w) := by
  rcases booted_cases with
    h | ⟨-, f, hgood, hfail, -⟩ | ⟨-, f, hfail, hgood, hbelow⟩
  · exact h
  · rw [cut_of_lt (lt_of_cut_good hgood)] at hgood
    exact absurd hgood hfail
  · exfalso
    have hmf : m ≤ f := by
      by_contra hlt
      rw [cut_of_lt (by omega)] at hfail
      exact hfail hgood
    by_cases huf : u = f
    · rw [huf] at hbad
      exact hbad hgood
    · exact hbad (hbelow u (by omega)).2

theorem booted_copyBack_repaired (hw : Whole info w) (hgood : ∀ u, u ≤ m → pageCheck (w u) = 0) :
    booted info (cut info w m) w = (w, w) := by
  have hm := lt_pageCnt_of_fits (hw.fits m (hgood m le_rfl))
  have hmagic := hw.magic (hgood 0 (Nat.zero_le m))
  have hcut : ¬ pageCheck (cut info w m m) = 0 := by
    rw [cut_of_le le_rfl]
    exact not_good_erased
  rw [booted_second hm (.inr hmagic) hcut (hgood m le_rfl) ?_, hw.cut_eq le_rfl]
  intro i hi
  refine ⟨?_, hgood i (le_of_lt hi)⟩
  rw [cut_of_lt hi]
  exact hgood i (le_of_lt hi)

/-- Two blocks from which the items of the block `w` are read, with the item `x` old, or new, or
    still missing. -/
structure Keeps (info : Info) (w : Nat → Page) (x : Nat) (buf : List UInt8) (a b : Nat → Page) :
    Prop where
  others : ∀ p, info.itemOf p ≠ x → fetch a b p = fetch w w p
  torn : (∀ p, info.itemOf p = x → fetch a b p = fetch w w p) ∨
    (∀ p, info.itemOf p = x → fetch a b p = some (itemPage info buf 4096 p).data) ∨
    ¬ pageCheck (w (x * info.pagesCntPerItem 4096)) = 0 ∧
      ∃ p, info.itemOf p = x ∧ fetch a b p = none

theorem Keeps.readItem_other (h : Keeps info w x buf a b) {j : Nat} (hj : j ≠ x) :
    readItem info a b j = readItem info w w j :=
  readItem_congr (fun p hp => h.others p (hp ▸ hj))

theorem Keeps.readItem_torn (hw : Whole info w) (hbuf : buf.length = 4096)
    (h : Keeps info w x buf a b) :
    readItem info a b x = readItem info w w x ∨ readItem info a b x = .ok buf := by
  rcases h.torn with hold | hnew | ⟨hfirst, p, hp, hnone⟩
  · exact .inl (readItem_congr hold)
  · exact .inr (readItem_new hbuf hnew)
  · -- the item was not written, and is not written now
    have he := hw.erased hfirst
    exact .inl ((readItem_none hp hnone).trans
      (readItem_none (itemOf_first x) (fetch_erased he he)).symm)

theorem keeps_left (hw : Whole info w) (hb : ∀ p, b p = w p ∨ b p = info.erased ∨
      info.itemOf p = x ∧ b p = itemPage info buf 4096 p) : Keeps info w x buf w b := by
  refine ⟨fun p hp => ?_, ?_⟩
  · by_cases hgood : pageCheck (w p) = 0
    · rw [fetch_left hgood, fetch_left hgood]
    · have he := hw.erased hgood
      rcases hb p with h | h | ⟨h, -⟩
      · rw [fetch_right he, fetch_self_congr h]
      · rw [fetch_erased he h, fetch_erased he he]
      · exact absurd h hp
  · by_cases hfirst : pageCheck (w (x * info.pagesCntPerItem 4096)) = 0
    · refine .inl fun p hp => ?_
      have hgood := hw.uniform _ p (by rw [itemOf_first, hp]) hfirst
      rw [fetch_left hgood, fetch_left hgood]
    · -- the item is not in the old block: it is as the second block has it
      have he : ∀ p, info.itemOf p = x → w p = info.erased := fun p hp =>
        hw.erased fun hg => hfirst (hw.uniform p _ (by rw [itemOf_first, hp]) hg)
      by_cases hall : ∀ p, info.itemOf p = x → b p = itemPage info buf 4096 p
      · refine .inr (.inl fun p hp => ?_)
        rw [fetch_right (he p hp), fetch_item (hall p hp)]
      rw [not_forall] at hall
      rcases hall with ⟨p, hp⟩
      rw [Classical.not_imp] at hp
      have hbp : b p = info.erased := by
        rcases hb p with h | h | ⟨-, h⟩
        · rw [h, he p hp.1]
        · exact h
        · exact absurd h hp.2
      exact .inr (.inr ⟨hfirst, p, hp.1, fetch_erased (he p hp.1) hbp⟩)

theorem keeps_self (hw : Whole info w) : Keeps info w x buf w w :=
  keeps_left hw fun _ => .inl rfl

theorem keeps_cut (hw : Whole info w) (h : ∀ q, m ≤ q → ¬ pageCheck (w q) = 0) :
    Keeps info w x buf (cut info (updated info w x buf) m)
      (cut info (updated info w x buf) m) := by
  refine ⟨fun p hp => fetch_self_congr ?_, ?_⟩
  · by_cases hpm : p < m
    · rw [cut_of_lt hpm, updated_other hp]
    · rw [cut_of_le (not_lt.mp hpm), hw.erased (h p (not_lt.mp hpm))]
  · by_cases hall : ∀ p, info.itemOf p = x → p < m
    · refine .inr (.inl fun p hp => ?_)
      rw [fetch_item (by rw [cut_of_lt (hall p hp), updated_self hp])]
    · rw [not_forall] at hall
      rcases hall with ⟨p, hp⟩
      rw [Classical.not_imp, not_lt] at hp
      have hcut : cut info (updated info w x buf) m p = info.erased := cut_of_le hp.2
      refine .inr (.inr ⟨fun hg => ?_, p, hp.1, fetch_erased hcut hcut⟩)
      exact h p hp.2 (hw.uniform _ p (by rw [itemOf_first, hp.1]) hg)

theorem keeps_new (h : ∀ p, fetch a b p = fetch (updated info w x buf) (updated info w x buf) p) :
    Keeps info w x buf a b := by
  refine ⟨fun p hp => ?_, .inr (.inl fun p hp => ?_)⟩
  · rw [h p, fetch_self_congr (updated_other hp w)]
  · rw [h p, fetch_item (updated_self hp)]

theorem Clean.write (h : Clean info s) (hx : info.Fits x) (buf : List UInt8) :
    ∃ s', awSpinandSecureStorageWrite info x buf 4096 s none = .done 0 s' none ∧ Clean info s' ∧
      s'.page s'.blk0 = updated info (s.page s.blk0) x buf := by
  have hne := getBlocks_ne h.blocks
  have hwrite := write_done info hne h.inited x buf
  rw [composed_eq h.whole hx] at hwrite
  refine ⟨_, hwrite, ⟨h.inited, h.blocks, ?_, ?_⟩, ?_⟩
  · rw [setBlock_blk1, setBlock_blk1, setBlock_blk0, setBlock_blk0, setBlock_same,
      setBlock_other hne.symm, setBlock_same]
  · rw [setBlock_blk0, setBlock_blk0, setBlock_same]
    exact h.whole.updated hx buf
  · rw [setBlock_blk0, setBlock_blk0, setBlock_same]

theorem init_clean {a b : Nat} (hblk : getBlocksForSecureStorage s = some (a, b))
    (hsame : s.page b = s.page a) (hw : Whole info (s.page a)) :
    ∃ s', initSecureStorage info s none = .done 0 s' none ∧ Clean info s' ∧
      s'.page s'.blk0 = s.page a := by
  rcases init_done info hblk (getBlocks_ne hblk) with
    ⟨s', hinit, hend, h0, h1, hget, hpages⟩
  rw [hsame, booted_same] at hpages
  rcases Prod.mk.inj hpages with ⟨hp0, hp1⟩
  refine ⟨s', hinit, ⟨hend, ?_, ?_, ?_⟩, ?_⟩
  · rw [hget, h0, h1]
  · rw [h0, h1, hp0, hp1]
  · rw [h0, hp0]
    exact hw
  · rw [h0, hp0]

theorem Reached.clean (h : Reached info s) : Clean info s := by
  induction h with
  | start hblk ha hb hrun =>
    rcases init_clean hblk (hb.trans ha.symm) (ha ▸ whole_erased) with
      ⟨s', hinit, hclean, -⟩
    rw [hinit] at hrun
    cases hrun
    exact hclean
  | @write _ _ item buf _ hitem _ hrun ih =>
    rcases ih.write hitem buf with ⟨s', hwrite, hclean, -⟩
    rw [hwrite] at hrun
    cases hrun
    exact hclean
  | @reboot s _ _ hrun ih =>
    rcases init_clean (s := { s with initEnd := false }) ih.blocks ih.same ih.whole with
      ⟨s', hinit, hclean, -⟩
    rw [hinit] at hrun
    cases hrun
    exact hclean

/-- The two blocks when power is lost after `c` operations. -/
def lossBlocks (info : Info) (w : Nat → Page) (x : Nat) (buf : List UInt8) (c : Nat) :
    (Nat → Page) × (Nat → Page) :=
  if c = 0 then (w, w)
  else if c ≤ info.pageCnt + 1 then (w, cut info (updated info w x buf) (c - 1))
  else (cut info (updated info w x buf) (c - (info.pageCnt + 2)), updated info w x buf)

variable (info) in
theorem write_third (hend : s.initEnd = true) (hne : s.blk0 ≠ s.blk1) (t : Nat)
    {tbuf : List UInt8} :
    ∃ s', awSpinandSecureStorageWrite info t tbuf 4096 s none = .done 0 s' none ∧
      ∀ j, info.Fits j → j ≠ t → awSpinandSecureStorageRead info s' j 4096 =
        readItem info (s.page s.blk0) (s.page s.blk0) j := by
  refine ⟨_, write_done info hne hend t tbuf, fun j hj hjt => ?_⟩
  rw [read_eq, setBlock_blk1, setBlock_blk1, setBlock_blk0, setBlock_blk0, setBlock_same,
    setBlock_other hne.symm, setBlock_same]
  refine readItem_congr fun p hp => fetch_self_congr ?_
  have hlt : p < info.pageCnt := lt_pageCnt_of_fits (hp ▸ hj)
  rw [composed, cut_of_lt hlt, newPage_eq, updated_other (hp ▸ hjt)]

theorem lossBlocks_compose (w : Nat → Page) (x : Nat) (buf : List UInt8) (hm : m ≤ info.pageCnt) :
    lossBlocks info w x buf (m + 1) = (w, cut info (updated info w x buf) m) := by
  rw [lossBlocks, if_neg (Nat.succ_ne_zero m), if_pos (by omega), Nat.add_sub_cancel]

section

variable (h : Clean info s) (hx : info.Fits x)
include h hx

theorem lossState_blocks (buf : List UInt8) (c : Nat) :
    ((lossState info x buf s c).page s.blk0, (lossState info x buf s c).page s.blk1) =
      lossBlocks info (s.page s.blk0) x buf c := by
  have hne := getBlocks_ne h.blocks
  unfold lossState lossBlocks
  by_cases hc : c = 0
  · rw [if_pos hc, if_pos hc, h.same]
  rw [if_neg hc, if_neg hc]
  by_cases hlate : c ≤ info.pageCnt + 1
  · rw [if_pos hlate, if_pos hlate, setBlock_same, setBlock_other hne, newPage_eq]
  · rw [if_neg hlate, if_neg hlate, setBlock_same, setBlock_other hne.symm, setBlock_same,
      composed_eq h.whole hx]

section

variable {l : (Nat → Page) × (Nat → Page)} {c : Nat}
  (hloss : lossBlocks info (s.page s.blk0) x buf c = l) (hboot : booted info l.1 l.2 = (a, b))
include hloss hboot

theorem boot_after_loss :
    ∃ s', initSecureStorage info
        { (awSpinandSecureStorageWrite info x buf 4096 s (some c)).state with initEnd := false }
          none = .done 0 s' none ∧ s'.initEnd = true ∧ s'.blk0 ≠ s'.blk1 ∧
      s'.page s'.blk0 = a ∧ s'.page s'.blk1 = b := by
  have hne := getBlocks_ne h.blocks
  have hget : getBlocksForSecureStorage { lossState info x buf s c with initEnd := false } =
      some (s.blk0, s.blk1) := by
    rw [← h.blocks]
    unfold lossState
    split
    · rfl
    · split <;> rfl
  rw [write_state hne h.inited]
  rcases init_done info hget hne with ⟨s', hinit, hend, h0, h1, -, hpages⟩
  refine ⟨s', hinit, hend, by rw [h0, h1]; exact hne, Prod.mk.inj ?_⟩
  rw [h0, h1, hpages, ← hboot, ← hloss, ← lossState_blocks h hx]

/-- Two blocks that keep the items, with the second one and without it, are enough. -/
theorem crashConsistent_of_keeps (hbuf : buf.length = 4096)
    (hab : Keeps info (s.page s.blk0) x buf a b) (haa : Keeps info (s.page s.blk0) x buf a a) :
    CrashConsistent info s x buf c := by
  rcases boot_after_loss h hx hloss hboot with ⟨s', hinit, hend, hne, hp0, hp1⟩
  have hread : ∀ j, awSpinandSecureStorageRead info s j 4096 =
      readItem info (s.page s.blk0) (s.page s.blk0) j := by
    intro j
    rw [read_eq, h.same]
  refine ⟨s', hinit, ⟨fun j _ hj _ => ?_, ?_⟩, fun t tbuf ht htx _ => ?_⟩
  · rw [hread, read_eq, hp0, hp1]
    exact hab.readItem_other hj
  · rw [hread, read_eq, hp0, hp1]
    exact hab.readItem_torn h.whole hbuf
  · rcases write_third info hend hne t with ⟨s'', hwrite, hthird⟩
    rw [hp0] at hthird
    refine ⟨s'', hwrite, fun j hfits hj hjt => ?_, ?_⟩
    · rw [hread, hthird j hfits (fun hc => hjt (hc ▸ rfl))]
      exact haa.readItem_other hj
    · rw [hread, hthird x hx htx.symm]
      exact haa.readItem_torn h.whole hbuf

/-- A page that was written and that the first block lacks is lost in the next write. -/
theorem not_crashConsistent_of_lost (hq : Written s q) (hlost : a q = info.erased) :
    ¬ CrashConsistent info s x buf c := by
  rintro ⟨s1, hrun, -, hthird⟩
  rcases boot_after_loss h hx hloss hboot with ⟨s', hinit, hend, hne, hp0, -⟩
  rw [hinit] at hrun
  cases hrun
  rcases exists_third info x with ⟨t, ht, htx, htq⟩
  rcases hthird t (replicate 4096 0) ht htx length_replicate with ⟨s2, hwrite, hkept⟩
  rcases write_third info hend hne t with ⟨s'', hdone, hread⟩
  rw [hdone] at hwrite
  cases hwrite
  have hfits := h.whole.fits q hq
  -- the item of the page was there, and is not any more
  have hold : ∃ d, awSpinandSecureStorageRead info s (info.itemOf q) 4096 = .ok d := by
    rw [read_eq, h.same]
    refine readItem_some fun p hp => ?_
    rw [fetch_left (h.whole.uniform q p hp.symm hq)]
    exact some_ne_none _
  have hnew : awSpinandSecureStorageRead info s2 (info.itemOf q) 4096 = .error 1 := by
    rw [hread _ hfits htq.symm, hp0]
    exact readItem_none rfl (fetch_erased hlost hlost)
  rcases hold with ⟨d, hd⟩
  by_cases hqx : info.itemOf q = x
  · rcases hkept.2 with hk | hk
    · rw [← hqx, hnew, hd] at hk
      cases hk
    · rw [← hqx, hnew] at hk
      cases hk
  · have hk := hkept.1 _ hfits hqx (fun hc => htq (some.inj hc))
    rw [hnew, hd] at hk
    cases hk

end

/-- Once the boot has taken the unfinished second block, no item behind the cut can be read. -/
theorem read_lost_in_compose (hm : m ≤ info.pageCnt) (hsecond : Misleads info (s.page s.blk0) x m)
    (hmq : m ≤ q) {buf : List UInt8} :
    awSpinandSecureStorageRead info (initSecureStorage info
      { (awSpinandSecureStorageWrite info x buf 4096 s (some (m + 1))).state with
        initEnd := false } none).state (info.itemOf q) 4096 = .error 1 := by
  rcases boot_after_loss h hx (lossBlocks_compose _ _ buf hm)
    (booted_compose_second h.whole hm hsecond) with ⟨s', hrun, -, -, hp0, hp1⟩
  rw [hrun, state_done, read_eq, hp0, hp1]
  exact readItem_none rfl (fetch_erased (cut_of_le hmq) (cut_of_le hmq))

theorem crashConsistent_compose_iff (hbuf : buf.length = 4096) (hm : m ≤ info.pageCnt) :
    CrashConsistent info s x buf (m + 1) ↔ ¬ LostInCompose info s x m := by
  have hloss := lossBlocks_compose (s.page s.blk0) x buf hm
  by_cases hsecond : Misleads info (s.page s.blk0) x m
  · constructor
    · -- a written page behind the cut is gone
      rintro hcons ⟨-, -, -, q, hmq, hq⟩
      exact not_crashConsistent_of_lost h hx hloss (booted_compose_second h.whole hm hsecond) hq
        (cut_of_le hmq) hcons
    · intro hkept
      have hnone : ∀ q, m ≤ q → ¬ pageCheck (s.page s.blk0 q) = 0 := fun q hmq hq =>
        hkept ⟨hsecond.1, hsecond.2.1, hsecond.2.2, q, hmq, hq⟩
      exact crashConsistent_of_keeps h hx hloss (booted_compose_second h.whole hm hsecond) hbuf
        (keeps_cut h.whole hnone) (keeps_cut h.whole hnone)
  · -- the first block is kept, and it has everything
    refine iff_of_true ?_ (fun hlost => hsecond ⟨hlost.1, hlost.2.1, hlost.2.2.1⟩)
    have hcut : Keeps info (s.page s.blk0) x buf (s.page s.blk0)
        (cut info (updated info (s.page s.blk0) x buf) m) := by
      refine keeps_left h.whole fun p => ?_
      by_cases hp : p < m
      · rw [cut_of_lt hp]
        by_cases hpx : info.itemOf p = x
        · exact .inr (.inr ⟨hpx, updated_self hpx⟩)
        · exact .inl (updated_other hpx _)
      · exact .inr (.inl (cut_of_le (not_lt.mp hp)))
    rcases booted_compose_first h.whole hsecond with hboot | hboot
    · exact crashConsistent_of_keeps h hx hloss hboot hbuf hcut (keeps_self h.whole)
    · exact crashConsistent_of_keeps h hx hloss hboot hbuf (keeps_self h.whole)
        (keeps_self h.whole)

theorem crashConsistent_copyBack_iff (hbuf : buf.length = 4096) (m : Nat) :
    CrashConsistent info s x buf (info.pageCnt + 2 + m) ↔ ¬ LostInCopyBack info s x m := by
  have hloss : lossBlocks info (s.page s.blk0) x buf (info.pageCnt + 2 + m) =
      (cut info (updated info (s.page s.blk0) x buf) m, updated info (s.page s.blk0) x buf) := by
    have hlate : ¬ info.pageCnt + 2 + m ≤ info.pageCnt + 1 := by omega
    rw [lossBlocks, if_neg (by omega), if_neg hlate, Nat.add_sub_cancel_left]
  by_cases hhole : ∃ u, u ≤ m ∧ ¬ Written s u ∧ info.itemOf u ≠ x
  · rcases hhole with ⟨u, hum, hbad, hux⟩
    have hbad' : ¬ pageCheck (updated info (s.page s.blk0) x buf u) = 0 := by
      rw [updated_other hux]
      exact hbad
    have hboot : booted info (cut info (updated info (s.page s.blk0) x buf) m) _ = _ :=
      booted_copyBack_kept hum hbad'
    constructor
    · rintro hcons ⟨-, q, hmq, hq⟩
      exact not_crashConsistent_of_lost h hx hloss hboot hq (cut_of_le hmq) hcons
    · intro hkept
      have hnone : ∀ q, m ≤ q → ¬ pageCheck (s.page s.blk0 q) = 0 := fun q hmq hq =>
        hkept ⟨⟨u, hum, hbad, hux⟩, q, hmq, hq⟩
      refine crashConsistent_of_keeps h hx hloss hboot hbuf (keeps_new fun p => ?_)
        (keeps_cut h.whole hnone)
      -- what the cut block lacks is in the second one
      by_cases hp : p < m
      · by_cases hgood : pageCheck (updated info (s.page s.blk0) x buf p) = 0
        · rw [fetch_left (by rw [cut_of_lt hp]; exact hgood), fetch_left hgood, cut_of_lt hp]
        · have he := (h.whole.updated hx buf).erased hgood
          rw [fetch_right (by rw [cut_of_lt hp]; exact he)]
      · rw [fetch_right (cut_of_le (not_lt.mp hp))]
  · -- no page in front of the cut is missing: the boot repairs the first block
    refine iff_of_true ?_ (fun hlost => hhole hlost.1)
    have hboot := booted_copyBack_repaired (m := m) (h.whole.updated hx buf) (fun u hu => ?_)
    · exact crashConsistent_of_keeps h hx hloss hboot hbuf (keeps_new fun _ => rfl)
        (keeps_new fun _ => rfl)
    · by_cases hux : info.itemOf u = x
      · exact good_updated hux
      · rw [updated_other hux]
        by_contra hbad
        exact hhole ⟨u, hu, hbad, hux⟩

end

/-- A loss of power keeps every item unless it destroys one while the second block is composed or
    while it is copied back. -/
theorem crashConsistent_iff (hs : Reached info s) (hx : info.Fits x) (hbuf : buf.length = 4096)
    (c : Nat) :
    CrashConsistent info s x buf c ↔
      (∀ m, c = m + 1 → m ≤ info.pageCnt → ¬ LostInCompose info s x m) ∧
      ∀ m, c = info.pageCnt + 2 + m → ¬ LostInCopyBack info s x m := by
  have h := hs.clean
  by_cases hc : c ≤ info.pageCnt + 1
  · cases c with
    | zero =>
      -- nothing has happened yet
      refine iff_of_true ?_ ⟨fun m hm => absurd hm (by omega), fun m hm => absurd hm (by omega)⟩
      exact crashConsistent_of_keeps h hx rfl (booted_same info _) hbuf (keeps_self h.whole)
        (keeps_self h.whole)
    | succ m =>
      rw [crashConsistent_compose_iff h hx hbuf (by omega)]
      constructor
      · intro hkept
        refine ⟨fun m' hm' _ => ?_, fun m' hm' => absurd hm' (by omega)⟩
        rw [← Nat.succ.inj hm']
        exact hkept
      · intro hkept
        exact hkept.1 m rfl (by omega)
  · rcases (show ∃ m, c = info.pageCnt + 2 + m from ⟨c - (info.pageCnt + 2), by omega⟩) with
      ⟨m, rfl⟩
    rw [crashConsistent_copyBack_iff h hx hbuf]
    constructor
    · intro hkept
      refine ⟨fun m' hm' hle => absurd hm' (by omega), fun m' hm' => ?_⟩
      rw [← Nat.add_left_cancel hm']
      exact hkept
    · intro hkept
      exact hkept.2 m rfl

end

/-- A chip with 64 pages of 2 KiB in a block. -/
def sampleInfo : Info where
  pageSize := 2048
  pageCnt := 64
  pageSize_pos := Nat.two_pow_pos 11
  pageSize_le := by decide
  pageCnt_ge := by decide

/-- A chip that comes from the factory, with the storage in blocks 32 to 39. -/
def freshState : SecSto where
  page := fun _ _ => sampleInfo.erased
  isBad := fun _ => false
  startblk := 32
  endblk := 40
  blk0 := 0
  blk1 := 0
  initEnd := false

/-- An item of one repeated byte. -/
def sampleItem (byte : UInt8) : List UInt8 := replicate 4096 byte

/-- The chip after a boot. -/
def bootedState : SecSto := (initSecureStorage sampleInfo freshState none).state

/-- The chip after a write of item 0. -/
def oneItem : SecSto :=
  (awSpinandSecureStorageWrite sampleInfo 0 (sampleItem 0x11) 4096 bootedState none).state

/-- The chip after writes of items 0 and 2. -/
def twoItems : SecSto :=
  (awSpinandSecureStorageWrite sampleInfo 2 (sampleItem 0x22) 4096 oneItem none).state

theorem twoItems_spec : Reached sampleInfo twoItems ∧
    twoItems.page twoItems.blk0 = updated sampleInfo
      (updated sampleInfo (fun _ => sampleInfo.erased) 0 (sampleItem 0x11)) 2
      (sampleItem 0x22) := by
  have hblk : getBlocksForSecureStorage freshState = some (32, 33) := by decide
  rcases init_clean hblk rfl whole_erased with ⟨s0, hrun0, h0, hpage0⟩
  rcases h0.write (x := 0) (by unfold Info.Fits; decide) (sampleItem 0x11) with
    ⟨s1, hrun1, h1, hpage1⟩
  rcases h1.write (x := 2) (by unfold Info.Fits; decide) (sampleItem 0x22) with
    ⟨s2, hrun2, h2, hpage2⟩
  have hs0 : bootedState = s0 := by rw [bootedState, hrun0, state_done]
  have hs1 : oneItem = s1 := by rw [oneItem, hs0, hrun1, state_done]
  have hs2 : twoItems = s2 := by rw [twoItems, hs1, hrun2, state_done]
  have hr0 : Reached sampleInfo s0 := .start hblk rfl rfl hrun0
  have hr1 : Reached sampleInfo s1 :=
    hr0.write (by unfold Info.Fits; decide) length_replicate hrun1
  rw [hs2]
  refine ⟨hr1.write (by unfold Info.Fits; decide) length_replicate hrun2, ?_⟩
  rw [hpage2, hpage1, hpage0]
  rfl

theorem written_twoItems {p : Nat} (h : sampleInfo.itemOf p = 0 ∨ sampleInfo.itemOf p = 2) :
    Written twoItems p := by
  unfold Written
  rw [twoItems_spec.2]
  by_cases h2 : sampleInfo.itemOf p = 2
  · exact good_updated h2
  · rw [updated_other h2]
    exact good_updated (h.resolve_right h2)

theorem not_written_twoItems {p : Nat} (h0 : sampleInfo.itemOf p ≠ 0)
    (h2 : sampleInfo.itemOf p ≠ 2) : ¬ Written twoItems p := by
  unfold Written
  rw [twoItems_spec.2, updated_other h2, updated_other h0]
  exact not_good_erased

/-- Items 0 and 2 are written, and power is lost in a first write of item 1 after the erase and
    three pages. The boot takes the unfinished block for the good one, and item 2 is gone. -/
theorem loss_destroys_item : Reached sampleInfo twoItems ∧
    awSpinandSecureStorageRead sampleInfo twoItems 2 4096 = .ok (sampleItem 0x22) ∧
    awSpinandSecureStorageRead sampleInfo
      (initSecureStorage sampleInfo
        { (awSpinandSecureStorageWrite sampleInfo 1 (sampleItem 0x33) 4096 twoItems (some 4)).state
          with initEnd := false } none).state 2 4096 = .error 1 := by
  have hclean := twoItems_spec.1.clean
  have hfits : sampleInfo.Fits 1 := by unfold Info.Fits; decide
  refine ⟨twoItems_spec.1, ?_, ?_⟩
  · rw [read_eq, hclean.same, twoItems_spec.2]
    refine readItem_new length_replicate fun p hp => ?_
    exact fetch_item (updated_self hp) _
  · have hbelow : ∀ p, p < 1 * sampleInfo.pagesCntPerItem 4096 → Written twoItems p := by
      intro p hp
      refine written_twoItems (.inl (Nat.div_eq_of_lt ?_))
      rwa [one_mul] at hp
    -- the first page of item 2 is behind the cut
    exact read_lost_in_compose (m := 3) (q := 4) hclean hfits (by decide)
      ⟨by decide, hbelow, not_written_twoItems (by decide) (by decide)⟩ (by omega)

/-- Power lost right after the erase loses nothing. -/
theorem crashConsistent_twoItems :
    CrashConsistent sampleInfo twoItems 1 (sampleItem 0x33) 1 := by
  refine (crashConsistent_iff twoItems_spec.1 (by unfold Info.Fits; decide)
    length_replicate 1).mpr ⟨fun m hm _ hlost => ?_, fun m hm => absurd hm (by omega)⟩
  have hlt := hlost.1
  omega

end Brandy.SpinandSec
