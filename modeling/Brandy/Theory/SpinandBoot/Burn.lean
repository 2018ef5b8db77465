import Brandy.Core.SpinandBoot
import Brandy.Library.Goods

/-!
# Burning One Copy of the Boot Package

`download_boot` goes page by page, and every block it comes to is skipped or filled. Seen block by
block it walks the good blocks from its start on. It ends when the data is used up in some good
block, or when a bad block is met that is the last one of the area or lies behind it.

## Main definitions

* `burnList`: Blocks filled one after the other.
* `Ends`, `Stops`: The two ways a copy ends.

## Theorems

* `burnLoop_ends`, `burnLoop_stops`: What the loop leaves.
* `downloadLoop_follows`: A chip with faults.
-/

namespace Brandy.SpinandBoot

open Memory Word Goods List Function

theorem Geometry.phyPageSize_pos (geo : Geometry) : 0 < geo.phyPageSize :=
  mul_pos geo.sectCntPerPage_pos (by decide)

theorem Geometry.phyBlockSize_pos (geo : Geometry) : 0 < geo.phyBlockSize :=
  mul_pos geo.pageCntPerBlk_pos geo.phyPageSize_pos

/-- A block erased and filled with the `n` bytes of `buf` from `off` on. -/
def burn (buf : Mem) (d : Dev) (b off n : Nat) : Dev :=
  ⟨update d.content b (overlay (fun _ => 0xff) (fun x => buf (x + off)) 0 n),
    insert b d.touched⟩

/-- Blocks filled one after the other. -/
def burnList (geo : Geometry) (buf : Mem) : List Nat → Nat → Dev → Dev
  | [], _, d => d
  | b :: bs, off, d =>
    burnList geo buf bs (off + geo.phyBlockSize) (burn buf d b off geo.phyBlockSize)

section

variable {geo : Geometry} {isBad : Nat → Bool} {endblk : Nat} {buf : Mem}

/-- The loop of `download_boot` over whole pages, when nothing fails. -/
def burnLoop (geo : Geometry) (isBad : Nat → Bool) (endblk : Nat) (buf : Mem)
    (block page len pgindex writtenBlks : Nat) (d : Dev) : Burned × Dev :=
  downloadLoop geo isBad noFaults endblk geo.phyPageSize geo.phyPageSize_pos buf block page len
    pgindex writtenBlks d

theorem downloadBoot_eq (startblk len : Nat) (d : Dev) :
    downloadBoot geo isBad noFaults startblk endblk 0 buf len d =
      burnLoop geo isBad endblk buf startblk 0 len 0 0 d := by
  have hsize : bootPagesize geo 0 = geo.phyPageSize := by
    unfold bootPagesize
    simp only [if_true, lt_irrefl, if_false]
  unfold downloadBoot burnLoop
  simp only [hsize]

/-- A block with pages from `p` on filled with the `n` bytes of `buf` from page `pg` on. -/
def fillPages (geo : Geometry) (buf : Mem) (d : Dev) (b p pg n : Nat) : Dev :=
  ⟨update d.content b
    (overlay (d.content b)
      (fun x => buf (x - (p * geo.phyPageSize : Nat) + (pg * geo.phyPageSize : Nat)))
      (p * geo.phyPageSize : Nat) n),
    insert b d.touched⟩

variable (d : Dev)

theorem phyWritePage_eq (b p pg n : Nat) :
    phyWritePage geo noFaults d b p buf (pg * geo.phyPageSize) n =
      (0, fillPages geo buf d b p pg n) := by
  unfold phyWritePage fillPages noFaults
  simp only [Bool.false_eq_true, if_false]
  rfl

theorem fillPages_fillPages (b p pg n : Nat) :
    fillPages geo buf (fillPages geo buf d b p pg geo.phyPageSize) b (p + 1) (pg + 1) n =
      fillPages geo buf d b p pg (geo.phyPageSize + n) := by
  unfold fillPages
  simp only [update_self, update_idem, Finset.insert_idem]
  congr 2
  funext x
  unfold overlay
  have hp : ((p + 1) * geo.phyPageSize : Nat) = p * geo.phyPageSize + geo.phyPageSize := by ring
  have hpg : ((pg + 1) * geo.phyPageSize : Nat) = pg * geo.phyPageSize + geo.phyPageSize := by ring
  simp only [hp, hpg]
  generalize p * geo.phyPageSize = A
  generalize pg * geo.phyPageSize = B
  generalize geo.phyPageSize = C
  push_cast
  by_cases h1 : (A : Int) + C ≤ x ∧ x < A + C + n
  · rw [if_pos h1, if_pos ⟨by omega, by omega⟩]
    congr 1
    ring
  · rw [if_neg h1]
    by_cases h2 : (A : Int) ≤ x ∧ x < A + C
    · rw [if_pos h2, if_pos ⟨by omega, by omega⟩]
    · rw [if_neg h2, if_neg (by omega)]

/-- One page: the erase of a new block, and the program. -/
def pageTurn (geo : Geometry) (faults : Faults) (buf : Mem) (d : Dev) (b p off n : Nat) :
    Int × Dev :=
  let erase := if p = 0 then phyEraseBlock faults d b else (0, d)
  if erase.1 ≠ 0 then erase else phyWritePage geo faults erase.2 b p buf off n

/-- Where the loop goes on behind a page. -/
def Geometry.next (geo : Geometry) (b p : Nat) : Nat × Nat :=
  if geo.pageCntPerBlk ≤ p + 1 then (b + 1, 0) else (b, p + 1)

theorem downloadLoop_bad {b p pagesize : Nat} {hsize : 0 < pagesize}
    (hskip : p = 0 ∧ isBad b = true) (faults : Faults) (l pg w : Nat) (d : Dev) :
    downloadLoop geo isBad faults endblk pagesize hsize buf b p l pg w d =
      if endblk ≤ b + 1 then (.achievedMaximum (w + 1), d)
      else if 0 < l then
        downloadLoop geo isBad faults endblk pagesize hsize buf (b + 1) p l pg (w + 1) d
      else (.complete (w + 1), d) := by
  rw [downloadLoop, if_pos hskip]

theorem downloadLoop_page {b p : Nat} (hskip : ¬ (p = 0 ∧ isBad b = true)) (faults : Faults)
    (pagesize : Nat) (hsize : 0 < pagesize) (l pg w : Nat) (d : Dev) :
    downloadLoop geo isBad faults endblk pagesize hsize buf b p l pg w d =
      let turn := pageTurn geo faults buf d b p (pg * pagesize) (min l pagesize)
      if turn.1 ≠ 0 then (.failed turn.1, turn.2)
      else if 0 < l - min l pagesize then
        downloadLoop geo isBad faults endblk pagesize hsize buf (geo.next b p).1 (geo.next b p).2
          (l - min l pagesize) (pg + 1) (if p = 0 then w + 1 else w) turn.2
      else (.complete (if p = 0 then w + 1 else w), turn.2) := by
  rw [downloadLoop, if_neg hskip]
  unfold pageTurn Geometry.next
  by_cases herase : (if p = 0 then phyEraseBlock faults d b else (0, d)).1 ≠ 0
  · simp only [if_pos herase]
  · simp only [if_neg herase]
    by_cases hpage : geo.pageCntPerBlk ≤ p + 1
    · simp only [if_pos hpage]
    · simp only [if_neg hpage]

theorem page_step {b p : Nat} (hskip : ¬ (p = 0 ∧ isBad b = true)) (l pg w : Nat) (d : Dev) :
    burnLoop geo isBad endblk buf b p l pg w d =
      let filled := fillPages geo buf (if p = 0 then (phyEraseBlock noFaults d b).2 else d) b p pg
        (min l geo.phyPageSize)
      if 0 < l - min l geo.phyPageSize then
        burnLoop geo isBad endblk buf (geo.next b p).1 (geo.next b p).2
          (l - min l geo.phyPageSize) (pg + 1) (if p = 0 then w + 1 else w) filled
      else (.complete (if p = 0 then w + 1 else w), filled) := by
  have herase : (phyEraseBlock noFaults d b).1 = 0 := rfl
  unfold burnLoop
  rw [downloadLoop_page hskip]
  by_cases hp : p = 0
  · simp only [pageTurn, hp, if_true, herase, ne_eq, not_true_eq_false, if_false, phyWritePage_eq]
  · simp only [pageTurn, hp, if_false, ne_eq, not_true_eq_false, phyWritePage_eq]

/-- The pages of a block from `p` on: the data ends in them, or they are filled. -/
theorem pages_loop (b k p l pg w : Nat) (d : Dev) (hp : ¬ (p = 0 ∧ isBad b = true))
    (hk : p + (k + 1) = geo.pageCntPerBlk) :
    burnLoop geo isBad endblk buf b p l pg w d =
      let filled := fillPages geo buf (if p = 0 then (phyEraseBlock noFaults d b).2 else d) b p pg
      if l ≤ (k + 1) * geo.phyPageSize then (.complete (if p = 0 then w + 1 else w), filled l)
      else
        burnLoop geo isBad endblk buf (b + 1) 0
          (l - (k + 1) * geo.phyPageSize) (pg + (k + 1)) (if p = 0 then w + 1 else w)
          (filled ((k + 1) * geo.phyPageSize)) := by
  have hmul := Nat.succ_mul k geo.phyPageSize
  rw [page_step hp, hmul]
  dsimp only
  generalize (if p = 0 then w + 1 else w) = w'
  generalize (if p = 0 then (phyEraseBlock noFaults d b).2 else d) = d'
  by_cases hl : l ≤ geo.phyPageSize
  · rw [min_eq_left hl, if_neg (by omega), if_pos (by omega)]
  rw [min_eq_right (by omega), if_pos (by omega)]
  cases k with
  | zero =>
    have hnext : geo.next b p = (b + 1, 0) := if_pos (by omega)
    rw [hnext, zero_mul, zero_add, if_neg hl]
  | succ k =>
    have hnext : geo.next b p = (b, p + 1) := if_neg (by omega)
    rw [hnext, pages_loop b k (p + 1) _ _ _ _ (by omega) (by omega)]
    simp only [Nat.succ_ne_zero, if_false, fillPages_fillPages, add_comm _ geo.phyPageSize]
    by_cases hlast : l - geo.phyPageSize ≤ (k + 1) * geo.phyPageSize
    · rw [if_pos hlast, if_pos (by omega),
        show geo.phyPageSize + (l - geo.phyPageSize) = l by omega]
    · rw [if_neg hlast, if_neg (by omega), Nat.sub_sub,
        show pg + 1 + (k + 1) = pg + (k + 1 + 1) by omega]

variable {b : Nat}

theorem burn_eq (b pg n : Nat) :
    fillPages geo buf (phyEraseBlock noFaults d b).2 b 0 pg n =
      burn buf d b (pg * geo.phyPageSize) n := by
  unfold fillPages burn phyEraseBlock noFaults
  simp only [Bool.false_eq_true, if_false, update_self, update_idem,
    Finset.insert_idem, zero_mul, Nat.cast_zero, sub_zero]

theorem burnLoop_bad (hbad : isBad b = true) (l pg w : Nat) (d : Dev) :
    burnLoop geo isBad endblk buf b 0 l pg w d =
      if endblk ≤ b + 1 then (.achievedMaximum (w + 1), d)
      else if 0 < l then burnLoop geo isBad endblk buf (b + 1) 0 l pg (w + 1) d
      else (.complete (w + 1), d) :=
  downloadLoop_bad ⟨rfl, hbad⟩ noFaults l pg w d

theorem burnLoop_good (hgood : isBad b = false) (l pg w : Nat) (d : Dev) :
    burnLoop geo isBad endblk buf b 0 l pg w d =
      if l ≤ geo.phyBlockSize then (.complete (w + 1), burn buf d b (pg * geo.phyPageSize) l)
      else
        burnLoop geo isBad endblk buf (b + 1) 0
          (l - geo.phyBlockSize) (pg + geo.pageCntPerBlk) (w + 1)
          (burn buf d b (pg * geo.phyPageSize) geo.phyBlockSize) := by
  have hpages := geo.pageCntPerBlk_pos
  obtain ⟨k, hk⟩ : ∃ k, geo.pageCntPerBlk = k + 1 := ⟨geo.pageCntPerBlk - 1, by omega⟩
  rw [pages_loop b k 0 _ _ _ _ (fun h => Bool.false_ne_true (hgood ▸ h.2)) (by omega),
    Geometry.phyBlockSize, hk]
  simp only [if_true, burn_eq]

theorem walk (c : Nat) (n : Nat) :
    ∀ {b l : Nat} (pg w : Nat) (d : Dev), b + n = c →
      (∀ x, b ≤ x → x < c → isBad x = true → x + 1 < endblk) →
      (goods isBad b c).length * geo.phyBlockSize < l →
      burnLoop geo isBad endblk buf b 0 l pg w d =
        burnLoop geo isBad endblk buf c 0
          (l - (goods isBad b c).length * geo.phyBlockSize)
          (pg + (goods isBad b c).length * geo.pageCntPerBlk) (w + n)
          (burnList geo buf (goods isBad b c) (pg * geo.phyPageSize) d) := by
  induction n with
  | zero =>
    intro b l pg w d hbc _ _
    rw [add_zero] at hbc
    subst hbc
    rw [goods_of_le le_rfl]
    simp only [length_nil, zero_mul, Nat.sub_zero, add_zero, burnList]
  | succ n ih =>
    intro b l pg w d hbc hcut hleft
    have hlt : b < c := by omega
    by_cases hbad : isBad b = true
    · have hgo : ¬ endblk ≤ b + 1 := by
        have h := hcut b le_rfl hlt hbad
        omega
      rw [goods_cons_bad hlt hbad] at hleft ⊢
      rw [burnLoop_bad hbad, if_neg hgo, if_pos (by omega),
        ih pg (w + 1) d (by omega) (fun x hx => hcut x (by omega)) hleft,
        show w + 1 + n = w + (n + 1) by omega]
    · have hgood : isBad b = false := Bool.eq_false_iff.mpr hbad
      rw [goods_cons_good hlt hgood] at hleft ⊢
      rw [length_cons, Nat.succ_mul] at hleft ⊢
      have hoff : (pg + geo.pageCntPerBlk) * geo.phyPageSize =
          pg * geo.phyPageSize + geo.phyBlockSize := by
        rw [add_mul]
        rfl
      rw [burnLoop_good hgood, if_neg (by omega),
        ih (pg + geo.pageCntPerBlk) (w + 1) _ (by omega) (fun x hx => hcut x (by omega)) (by omega),
        burnList, hoff, Nat.succ_mul]
      congr 1 <;> omega

/-- A copy of `l` bytes from block `b` on uses up its data in block `x`. -/
structure Ends (geo : Geometry) (isBad : Nat → Bool) (endblk b l x : Nat) : Prop where
  le : b ≤ x
  good : isBad x = false
  before : (goods isBad b x).length * geo.phyBlockSize < l
  after : l ≤ ((goods isBad b x).length + 1) * geo.phyBlockSize
  free : ∀ y, b ≤ y → y < x → isBad y = true → y + 1 < endblk

/-- A copy of `l` bytes from block `b` on is stopped by the bad block `c`. -/
structure Stops (geo : Geometry) (isBad : Nat → Bool) (endblk b l c : Nat) : Prop where
  le : b ≤ c
  bad : isBad c = true
  last : endblk ≤ c + 1
  before : (goods isBad b c).length * geo.phyBlockSize < l
  free : ∀ y, b ≤ y → y < c → isBad y = true → y + 1 < endblk

theorem burnLoop_ends {l x : Nat} (h : Ends geo isBad endblk b l x) (pg w : Nat) (d : Dev) :
    burnLoop geo isBad endblk buf b 0 l pg w d =
      (.complete (w + (x - b) + 1),
        burn buf (burnList geo buf (goods isBad b x) (pg * geo.phyPageSize) d) x
          ((pg + (goods isBad b x).length * geo.pageCntPerBlk) * geo.phyPageSize)
          (l - (goods isBad b x).length * geo.phyBlockSize)) := by
  have hle := h.le
  have hafter := h.after
  rw [Nat.succ_mul] at hafter
  rw [walk x (x - b) pg w d (by omega) h.free h.before, burnLoop_good h.good,
    if_pos (by omega)]

theorem burnLoop_stops {l c : Nat} (h : Stops geo isBad endblk b l c) (pg w : Nat) (d : Dev) :
    burnLoop geo isBad endblk buf b 0 l pg w d =
      (.achievedMaximum (w + (c - b) + 1),
        burnList geo buf (goods isBad b c) (pg * geo.phyPageSize) d) := by
  have hle := h.le
  rw [walk c (c - b) pg w d (by omega) h.free h.before, burnLoop_bad h.bad, if_pos h.last]

/-- A copy of `l` bytes from block `b` on is over, and the next one starts at `t`. -/
structure Turn (geo : Geometry) (isBad : Nat → Bool) (endblk b l t : Nat) : Prop where
  lt : b < t
  before : (goods isBad b (t - 1)).length * geo.phyBlockSize < l
  free : ∀ y, b ≤ y → y + 1 < t → isBad y = true → y + 1 < endblk
  done : l ≤ (goods isBad b t).length * geo.phyBlockSize ∨ isBad (t - 1) = true ∧ endblk ≤ t

theorem exists_turn (geo : Geometry) (isBad : Nat → Bool) (endblk b : Nat) {l : Nat} (hl : 0 < l) :
    ∃ t, Turn geo isBad endblk b l t := by
  classical
  have hex : ∃ t, b < t ∧
      (l ≤ (goods isBad b t).length * geo.phyBlockSize ∨ isBad (t - 1) = true ∧ endblk ≤ t) := by
    by_cases hc : ∃ c, b + endblk ≤ c ∧ isBad c = true
    · rcases hc with ⟨c, hle, hbad⟩
      exact ⟨c + 1, by omega, .inr ⟨hbad, by omega⟩⟩
    -- behind the area all blocks are good
    refine ⟨b + endblk + l, by omega, .inl ?_⟩
    rw [length_goods_add (Nat.le_add_right b endblk) fun x hx _ => Bool.eq_false_iff.mpr
      fun hbad => hc ⟨x, hx, hbad⟩]
    calc l ≤ l * geo.phyBlockSize := Nat.le_mul_of_pos_right l geo.phyBlockSize_pos
      _ ≤ _ := Nat.mul_le_mul_right _ (by omega)
  rcases Nat.findX hex with ⟨t, ⟨hlt, hdone⟩, hmin⟩
  refine ⟨t, hlt, ?_, fun y hby hy hbad => ?_, hdone⟩
  · by_cases hb : t - 1 = b
    · rwa [hb, goods_of_le le_rfl, length_nil, zero_mul]
    · by_contra hge
      exact hmin (t - 1) (by omega) ⟨by omega, .inl (not_lt.mp hge)⟩
  · by_contra hend
    exact hmin (y + 1) hy ⟨by omega, .inr ⟨hbad, by omega⟩⟩

theorem Ends.turn {l x : Nat} (h : Ends geo isBad endblk b l x) :
    Turn geo isBad endblk b l (x + 1) := by
  refine ⟨Nat.lt_succ_of_le h.le, h.before, fun y hby hy => h.free y hby (by omega), .inl ?_⟩
  rw [goods_succ_good h.le h.good, length_append]
  exact h.after

/-- The last block of a copy is good and uses up the data, or it is bad and stops it. -/
theorem Turn.cases {l t : Nat} (h : Turn geo isBad endblk b l t) :
    (∃ x, t = x + 1 ∧ Ends geo isBad endblk b l x) ∨
      ∃ c, t = c + 1 ∧ Stops geo isBad endblk b l c := by
  have hlt := h.lt
  rcases h with ⟨-, hbefore, hfree, hdone⟩
  obtain ⟨x, rfl⟩ : ∃ x, t = x + 1 := ⟨t - 1, by omega⟩
  have hle : b ≤ x := by omega
  rw [Nat.add_sub_cancel] at hbefore hdone
  by_cases hbad : isBad x = true
  · rw [goods_succ_bad hle hbad] at hdone
    exact .inr ⟨x, rfl, hle, hbad, by omega, hbefore, fun y hby hy => hfree y hby (by omega)⟩
  · rw [goods_succ_good hle (Bool.eq_false_iff.mpr hbad), length_append] at hdone
    exact .inl ⟨x, rfl, hle, Bool.eq_false_iff.mpr hbad, hbefore,
      hdone.resolve_right fun h => hbad h.1, fun y hby hy => hfree y hby (by omega)⟩

theorem mem_burn_touched {d : Dev} {off n x : Nat} :
    x ∈ (burn buf d b off n).touched ↔ x = b ∨ x ∈ d.touched := Finset.mem_insert

theorem mem_burnList_touched (bs : List Nat) {off : Nat} {d : Dev} {x : Nat} :
    x ∈ (burnList geo buf bs off d).touched ↔ x ∈ bs ∨ x ∈ d.touched := by
  induction bs generalizing off d with
  | nil =>
    rw [burnList]
    simp only [not_mem_nil, false_or]
  | cons b bs ih =>
    rw [burnList, ih, mem_burn_touched, mem_cons]
    tauto

theorem pageTurn_touched (faults : Faults) (d : Dev) (b p off n : Nat) :
    (pageTurn geo faults buf d b p off n).2.touched = insert b d.touched := by
  unfold pageTurn phyEraseBlock phyWritePage
  split_ifs <;> simp_all

theorem pageTurn_noFaults (b p off n : Nat) :
    (pageTurn geo noFaults buf d b p off n).1 = 0 := by
  unfold pageTurn phyEraseBlock phyWritePage noFaults
  split_ifs <;> simp_all

variable (geo buf) in
theorem pageTurn_cases (faults : Faults) (d : Dev) (b p off n : Nat) :
    pageTurn geo faults buf d b p off n = pageTurn geo noFaults buf d b p off n ∨
      (pageTurn geo faults buf d b p off n).1 = -5 := by
  unfold pageTurn phyEraseBlock phyWritePage noFaults
  split_ifs <;> simp_all

/-- A chip with faults ends a copy as one without does, or earlier with an error. What has been
    touched is not forgotten. -/
def Follows (geo : Geometry) (isBad : Nat → Bool) (faults : Faults) (endblk pagesize : Nat)
    (hsize : 0 < pagesize) (buf : Mem) (b p l pg w : Nat) (d : Dev) : Prop :=
  d.touched ⊆
      (downloadLoop geo isBad noFaults endblk pagesize hsize buf b p l pg w d).2.touched ∧
    (downloadLoop geo isBad faults endblk pagesize hsize buf b p l pg w d =
        downloadLoop geo isBad noFaults endblk pagesize hsize buf b p l pg w d ∨
      (downloadLoop geo isBad faults endblk pagesize hsize buf b p l pg w d).1 = .failed (-5) ∧
        (downloadLoop geo isBad faults endblk pagesize hsize buf b p l pg w d).2.touched ⊆
          (downloadLoop geo isBad noFaults endblk pagesize hsize buf b p l pg w d).2.touched)

theorem follows_page {faults : Faults} {pagesize : Nat} {hsize : 0 < pagesize} {p l pg w : Nat}
    {d : Dev} (hskip : ¬ (p = 0 ∧ isBad b = true))
    (h : 0 < l - min l pagesize → Follows geo isBad faults endblk pagesize hsize buf
      (geo.next b p).1 (geo.next b p).2 (l - min l pagesize) (pg + 1) (if p = 0 then w + 1 else w)
      (pageTurn geo noFaults buf d b p (pg * pagesize) (min l pagesize)).2) :
    Follows geo isBad faults endblk pagesize hsize buf b p l pg w d := by
  unfold Follows at h ⊢
  have hsub : ∀ {R : Finset Nat}, insert b d.touched ⊆ R → d.touched ⊆ R :=
    (Finset.subset_insert b d.touched).trans
  rw [downloadLoop_page hskip noFaults, downloadLoop_page hskip faults]
  simp only [pageTurn_noFaults, ne_eq, not_true_eq_false, if_false]
  rw [pageTurn_touched] at h
  rcases pageTurn_cases geo buf faults d b p (pg * pagesize) (min l pagesize) with hsame | hret
  · rw [hsame, pageTurn_noFaults]
    by_cases hl : 0 < l - min l pagesize
    · simp only [not_true_eq_false, if_false, if_pos hl]
      exact ⟨hsub (h hl).1, (h hl).2⟩
    · simp only [not_true_eq_false, if_false, if_neg hl, pageTurn_touched]
      exact ⟨hsub subset_rfl, .inl trivial⟩
  · -- the error ends the copy, with the block touched all the same
    have hne : ¬ (-5 : Int) = 0 := by decide
    simp only [hret, if_pos hne, pageTurn_touched]
    by_cases hl : 0 < l - min l pagesize
    · rw [if_pos hl]
      exact ⟨hsub (h hl).1, .inr ⟨trivial, (h hl).1⟩⟩
    · rw [if_neg hl]
      simp only [pageTurn_touched]
      exact ⟨hsub subset_rfl, .inr ⟨trivial, subset_rfl⟩⟩

theorem downloadLoop_follows (faults : Faults) (pagesize : Nat) (hsize : 0 < pagesize)
    (b p l pg w : Nat) (d : Dev) :
    Follows geo isBad faults endblk pagesize hsize buf b p l pg w d := by
  by_cases hskip : p = 0 ∧ isBad b = true
  · unfold Follows
    rw [downloadLoop_bad hskip, downloadLoop_bad hskip]
    split_ifs
    · exact ⟨subset_rfl, .inl rfl⟩
    · exact downloadLoop_follows faults pagesize hsize (b + 1) p l pg (w + 1) d
    · exact ⟨subset_rfl, .inl rfl⟩
  · exact follows_page hskip fun _ => downloadLoop_follows faults pagesize hsize _ _ _ _ _ _
termination_by (l, endblk - b)

end

end Brandy.SpinandBoot
