import Brandy.Theory.SpinandBoot.Burn

/-!
# The Area of the Boot Package

Which blocks `spinand_mtd_download_uboot` erases and programs. The end of the area is only looked at
behind a bad block. A copy that runs out of good blocks at the end of the area, with a good block as
the last one, goes on into the secure storage.

## Main definitions

* `Leaves`: A copy leaves the area.
* `Overruns`: The burning does, by the numbers of the good blocks.

## Theorems

* `run_inside`, `run_leaves`: The copies of a run stay inside, or one of them leaves.
* `download_inside_iff`: When the burning keeps to the area.
-/

namespace Brandy.SpinandBoot

open Memory Word Goods List

section

variable {geo : Geometry} {isBad : Nat → Bool} {endblk : Nat} {buf : Mem}

/-- A copy of `len` bytes from `b` on leaves the area: the good blocks do not hold it, and the walk
    passes from the last block to a good one behind it. -/
def Leaves (geo : Geometry) (isBad : Nat → Bool) (endblk b len : Nat) : Prop :=
  (goods isBad b endblk).length * geo.phyBlockSize < len ∧ isBad endblk = false ∧
    (b = endblk ∨ isBad (endblk - 1) = false)

variable {b len x t : Nat}

/-- A copy leaves the area exactly when it passes the first block behind it. -/
theorem leaves_iff (hb : b ≤ endblk) (h : Turn geo isBad endblk b len t) :
    Leaves geo isBad endblk b len ↔ isBad endblk = false ∧ endblk < t := by
  constructor
  · rintro ⟨hfew, hend, hlast⟩
    refine ⟨hend, not_le.mp fun hle => ?_⟩
    rcases h.done with henough | ⟨hbad, hge⟩
    · -- a copy that ends in the area fits into it
      have hmono := Nat.mul_le_mul_right geo.phyBlockSize (length_goods_mono isBad b hle)
      omega
    have hlt := h.lt
    rw [show t = endblk by omega] at hbad hlt
    rcases hlast with rfl | hgood
    · omega
    · rw [hgood] at hbad
      cases hbad
  · rintro ⟨hend, hlt⟩
    have hmono := length_goods_mono isBad b (show endblk ≤ t - 1 by omega)
    refine ⟨lt_of_le_of_lt (Nat.mul_le_mul_right _ hmono) h.before, hend, ?_⟩
    by_cases hbe : b = endblk
    · exact .inl hbe
    · refine .inr (Bool.eq_false_iff.mpr fun hbad => ?_)
      have := h.free (endblk - 1) (by omega) (by omega) hbad
      omega

theorem Turn.mem_touched (h : Turn geo isBad endblk b len t) (d : Dev) (y : Nat) :
    y ∈ (downloadBoot geo isBad noFaults b endblk 0 buf len d).2.touched ↔
      y ∈ goods isBad b t ∨ y ∈ d.touched := by
  rw [downloadBoot_eq]
  rcases h.cases with ⟨x, rfl, hx⟩ | ⟨c, rfl, hc⟩
  · rw [burnLoop_ends hx, mem_burn_touched, mem_burnList_touched,
      goods_succ_good hx.le hx.good, mem_append, mem_singleton]
    tauto
  · rw [burnLoop_stops hc, mem_burnList_touched, goods_succ_bad hc.le hc.bad]

theorem downloadBoot_inside (hb : b ≤ endblk) (h : Turn geo isBad endblk b len t)
    (hin : ¬ Leaves geo isBad endblk b len) (d : Dev) {y : Nat}
    (hy : y ∈ (downloadBoot geo isBad noFaults b endblk 0 buf len d).2.touched) :
    b ≤ y ∧ y < endblk ∨ y ∈ d.touched := by
  rw [h.mem_touched, mem_goods] at hy
  rcases hy with ⟨hlo, hhi, hgood⟩ | hy
  · refine .inl ⟨hlo, not_le.mp fun hge => hin ((leaves_iff hb h).mpr ⟨?_, by omega⟩)⟩
    rcases hge.eq_or_lt with rfl | hlt
    · exact hgood
    · -- the walk passes no bad block there
      refine Bool.eq_false_iff.mpr fun hbad => ?_
      have := h.free endblk hb (by omega) hbad
      omega
  · exact .inr hy

theorem blksPerUboot_le {n : Nat} (h : len ≤ n * geo.phyBlockSize) : blksPerUboot geo len ≤ n := by
  have hpos := geo.phyBlockSize_pos
  have hwrap : u32 ((len : Int) + geo.phyBlockSize - 1) ≤ len + geo.phyBlockSize - 1 := by
    rw [show (len : Int) + geo.phyBlockSize - 1 =
      ((len + geo.phyBlockSize - 1 : Nat) : Int) by omega, u32_natCast]
    exact Nat.mod_le _ _
  refine Nat.lt_succ_iff.mp ((Nat.div_lt_iff_lt_mul hpos).mpr ?_)
  rw [Nat.succ_mul]
  omega

variable {s : Nat}

/-- The loop goes on behind the last block of a copy, which is noted when it is complete. -/
theorem Turn.loop (hs : s + blksPerUboot geo len ≤ endblk) (h : Turn geo isBad endblk s len t)
    (d : Dev) (copies : List Nat) :
    downloadUbootLoop geo isBad noFaults endblk buf len s d copies =
      downloadUbootLoop geo isBad noFaults endblk buf len t
        (downloadBoot geo isBad noFaults s endblk 0 buf len d).2
        (copies ++ if isBad (t - 1) then [] else [s]) := by
  rw [downloadUbootLoop, if_pos hs]
  rcases h.cases with ⟨x, rfl, hx⟩ | ⟨c, rfl, hc⟩
  · have hle := hx.le
    have hcount := blksPerUboot_le hx.after
    have hgoods := length_goods_le isBad s x
    have hret : (downloadBoot geo isBad noFaults s endblk 0 buf len d).1 =
      .complete (x + 1 - s) := by
      rw [downloadBoot_eq, burnLoop_ends hx, show x + 1 - s = 0 + (x - s) + 1 by omega]
    simp only [hret, Burned.ret]
    rw [if_neg (by omega), if_neg (by omega), Int.toNat_natCast,
      show s + (x + 1 - s) = x + 1 by omega, Nat.add_sub_cancel, hx.good]
    rfl
  · have hle := hc.le
    have hlast := hc.last
    have hret : (downloadBoot geo isBad noFaults s endblk 0 buf len d).1 =
        .achievedMaximum (c + 1 - s) := by
      rw [downloadBoot_eq, burnLoop_stops hc, show c + 1 - s = 0 + (c - s) + 1 by omega]
    simp only [hret, Burned.ret]
    rw [if_neg (by omega), if_neg (by omega), Int.toNat_natCast,
      show s + (c + 1 - s) = c + 1 by omega, Nat.add_sub_cancel, hc.bad, if_pos rfl, append_nil]

theorem downloadUbootLoop_ends (hs : s + blksPerUboot geo len ≤ endblk)
    (h : Ends geo isBad endblk s len x) (d : Dev) (copies : List Nat) :
    downloadUbootLoop geo isBad noFaults endblk buf len s d copies =
      downloadUbootLoop geo isBad noFaults endblk buf len (x + 1)
        (downloadBoot geo isBad noFaults s endblk 0 buf len d).2 (copies ++ [s]) := by
  rw [h.turn.loop hs, Nat.add_sub_cancel, h.good]
  rfl

theorem downloadUbootLoop_end (hs : ¬ s + blksPerUboot geo len ≤ endblk) (faults : Faults) (d : Dev)
    (copies : List Nat) :
    downloadUbootLoop geo isBad faults endblk buf len s d copies = (0, d, copies) := by
  rw [downloadUbootLoop, if_neg hs]

/-- Induction over the copies, from the last one to the first. -/
theorem copies_induction (geo : Geometry) (isBad : Nat → Bool) (endblk : Nat) (hlen : 0 < len)
    {motive : Nat → Prop} (done : ∀ s, ¬ s + blksPerUboot geo len ≤ endblk → motive s)
    (turn : ∀ s t, s + blksPerUboot geo len ≤ endblk → Turn geo isBad endblk s len t → motive t →
      motive s) (s : Nat) : motive s := by
  induction hn : endblk + 1 - s using Nat.strong_induction_on generalizing s with
  | _ n ih =>
    by_cases hs : s + blksPerUboot geo len ≤ endblk
    · rcases exists_turn geo isBad endblk s hlen with ⟨t, h⟩
      have hlt := h.lt
      exact turn s t hs h (ih _ (by omega) t rfl)
    · exact done s hs

/-- When no copy leaves the area, nothing outside is touched. The copies start at blocks with a
    property that is handed on. -/
theorem run_inside {P : Nat → Prop} (hlen : 0 < len)
    (hP : ∀ s, P s → s + blksPerUboot geo len ≤ endblk → ¬ Leaves geo isBad endblk s len)
    (hnext : ∀ s t, P s → Turn geo isBad endblk s len t → t + blksPerUboot geo len ≤ endblk → P t)
    {s : Nat} :
    ∀ (d : Dev) (copies : List Nat) (y : Nat), P s →
      y ∈ (downloadUbootLoop geo isBad noFaults endblk buf len s d copies).2.1.touched →
      s ≤ y ∧ y < endblk ∨ y ∈ d.touched := by
  induction s using copies_induction geo isBad endblk hlen with
  | done s hs =>
    intro d copies y _ hy
    rw [downloadUbootLoop_end hs] at hy
    exact .inr hy
  | turn s t hs h ih =>
    intro d copies y hPs hy
    rw [h.loop hs] at hy
    have hlt := h.lt
    by_cases hmore : t + blksPerUboot geo len ≤ endblk
    · rcases ih _ _ y (hnext s t hPs h hmore) hy with hy | hy
      · exact .inl ⟨by omega, hy.2⟩
      · exact downloadBoot_inside (by omega) h (hP s hPs hs) d hy
    · rw [downloadUbootLoop_end hmore] at hy
      exact downloadBoot_inside (by omega) h (hP s hPs hs) d hy

/-- A copy on a chip with faults is the one on a chip without, or its error ends the burning. -/
theorem downloadBoot_follows (faults : Faults) {d d' : Dev} {r : Burned}
    (hs : s + blksPerUboot geo len ≤ endblk)
    (h : downloadBoot geo isBad noFaults s endblk 0 buf len d = (r, d')) :
    d.touched ⊆ d'.touched ∧
      (downloadBoot geo isBad faults s endblk 0 buf len d = (r, d') ∨
        ∃ d'', d''.touched ⊆ d'.touched ∧ ∀ copies,
          downloadUbootLoop geo isBad faults endblk buf len s d copies = (-5, d'', copies)) := by
  have hboot : Follows geo isBad faults endblk _ _ buf s 0 len 0 0 d :=
    downloadLoop_follows faults _ (bootPagesize_pos geo 0) s 0 len 0 0 d
  unfold Follows at hboot
  unfold downloadBoot at h ⊢
  rw [h] at hboot
  refine ⟨hboot.1, hboot.2.imp_right fun ⟨hret, hsub⟩ => ⟨_, hsub, fun copies => ?_⟩⟩
  rw [downloadUbootLoop, if_pos hs, downloadBoot]
  simp only [hret]
  rfl

/-- The burning on a chip with faults ends as on one without, or earlier with an error. What has
    been touched is not forgotten. -/
theorem downloadUbootLoop_follows (faults : Faults) (len s : Nat) (d : Dev) (copies : List Nat) :
    d.touched ⊆ (downloadUbootLoop geo isBad noFaults endblk buf len s d copies).2.1.touched ∧
      (downloadUbootLoop geo isBad faults endblk buf len s d copies =
          downloadUbootLoop geo isBad noFaults endblk buf len s d copies ∨
        (downloadUbootLoop geo isBad faults endblk buf len s d copies).1 = -5 ∧
          (downloadUbootLoop geo isBad faults endblk buf len s d copies).2.1.touched ⊆
            (downloadUbootLoop geo isBad noFaults endblk buf len s d copies).2.1.touched) := by
  by_cases hs : s + blksPerUboot geo len ≤ endblk
  · rcases hboot : downloadBoot geo isBad noFaults s endblk 0 buf len d with ⟨r, d'⟩
    rcases downloadBoot_follows faults hs hboot with ⟨hsub, hnext⟩
    have ih := fun (_ : ¬ r.ret ≤ 0) =>
      downloadUbootLoop_follows faults len (s + r.ret.toNat) d'
    rw [downloadUbootLoop.eq_def geo isBad noFaults, if_pos hs, hboot]
    rcases hnext with hsame | ⟨d'', hless, hfail⟩
    · rw [downloadUbootLoop.eq_def geo isBad faults, if_pos hs, hsame]
      dsimp only
      split_ifs with hret
      · exact ⟨hsub, .inl rfl⟩
      · exact ⟨hsub, .inl rfl⟩
      · exact ⟨hsub.trans (ih hret _).1, (ih hret _).2⟩
    · rw [hfail]
      dsimp only
      split_ifs with hret
      · exact ⟨hsub, .inr ⟨rfl, hless⟩⟩
      · exact ⟨hsub, .inr ⟨rfl, hless⟩⟩
      · exact ⟨hsub.trans (ih hret _).1, .inr ⟨rfl, hless.trans (ih hret _).1⟩⟩
  · rw [downloadUbootLoop_end hs, downloadUbootLoop_end hs]
    exact ⟨subset_rfl, .inl rfl⟩
termination_by endblk + 1 - s

/-- When some copy leaves the area, the block behind it is touched. Every copy before hands on a
    property to the next. -/
theorem run_leaves {P : Nat → Prop} (hlen : 0 < len)
    (hP : ∀ s, P s → s + blksPerUboot geo len ≤ endblk ∧
      (Leaves geo isBad endblk s len ∨ ∀ t, Turn geo isBad endblk s len t → P t)) {s : Nat} :
    ∀ (d : Dev) (copies : List Nat), P s →
      endblk ∈ (downloadUbootLoop geo isBad noFaults endblk buf len s d copies).2.1.touched := by
  induction s using copies_induction geo isBad endblk hlen with
  | done s hs =>
    intro d copies hPs
    exact absurd (hP s hPs).1 hs
  | turn s t hs h ih =>
    intro d copies hPs
    rw [h.loop hs]
    rcases (hP s hPs).2 with hleaves | hnext
    · rcases (leaves_iff (by omega) h).mp hleaves with ⟨hend, hlt⟩
      refine (downloadUbootLoop_follows noFaults len t _ _).1 ((h.mem_touched d endblk).mpr ?_)
      exact .inl (mem_goods.mpr ⟨by omega, hlt, hend⟩)
    · exact ih _ _ (hnext t h)

theorem touched_faults_subset (faults : Faults) (len s : Nat) (d : Dev) (copies : List Nat) :
    (downloadUbootLoop geo isBad faults endblk buf len s d copies).2.1.touched ⊆
      (downloadUbootLoop geo isBad noFaults endblk buf len s d copies).2.1.touched := by
  rcases (downloadUbootLoop_follows faults len s d copies).2 with h | ⟨-, h⟩
  · rw [h]
  · exact h

theorem downloadUbootLoop_zero (hs : s ≤ endblk) (d : Dev) {copies : List Nat} :
    ∃ d' copies', downloadUbootLoop geo isBad noFaults endblk buf 0 s d copies =
        downloadUbootLoop geo isBad noFaults endblk buf 0 (s + 1) d' copies' ∧
      ∀ y, y ∈ d'.touched ↔ y = s ∧ isBad s = false ∨ y ∈ d.touched := by
  have hN : blksPerUboot geo 0 = 0 := Nat.le_zero.mp (blksPerUboot_le (Nat.zero_le _))
  rw [downloadUbootLoop.eq_def geo isBad noFaults endblk buf 0 s, hN, if_pos (by omega),
    downloadBoot_eq]
  by_cases hbad : isBad s = true
  · rw [burnLoop_bad hbad]
    have hmem : ∀ y, y ∈ d.touched ↔ y = s ∧ isBad s = false ∨ y ∈ d.touched := by
      intro y
      rw [hbad]
      simp only [Bool.true_eq_false, and_false, false_or]
    by_cases hend : endblk ≤ s + 1
    · rw [if_pos hend]
      exact ⟨d, copies, rfl, hmem⟩
    · rw [if_neg hend, if_neg (lt_irrefl 0)]
      exact ⟨d, copies ++ [s], rfl, hmem⟩
  · have hgood : isBad s = false := Bool.eq_false_iff.mpr hbad
    rw [burnLoop_good hgood, if_pos (Nat.zero_le _)]
    refine ⟨_, copies ++ [s], rfl, fun y => ?_⟩
    rw [mem_burn_touched, hgood]
    simp only [and_true]

/-- A package of no bytes goes to every good block up to the end of the area, the first one behind
    it included. -/
theorem mem_touched_zero (n s : Nat) (d : Dev) (copies : List Nat) (y : Nat)
    (hn : endblk + 1 - s = n) :
    y ∈ (downloadUbootLoop geo isBad noFaults endblk buf 0 s d copies).2.1.touched ↔
      y ∈ goods isBad s (endblk + 1) ∨ y ∈ d.touched := by
  induction n generalizing s d copies with
  | zero =>
    rw [downloadUbootLoop_end (by omega), goods_of_le (by omega)]
    simp only [not_mem_nil, false_or]
  | succ n ih =>
    have hs : s ≤ endblk := by omega
    rcases downloadUbootLoop_zero hs d with ⟨d', copies', hstep, hmem⟩
    rw [hstep, ih (s + 1) d' copies' (by omega), hmem, mem_goods, mem_goods]
    constructor
    · rintro (⟨hlo, hhi, hgood⟩ | ⟨rfl, hgood⟩ | hy)
      · exact .inl ⟨by omega, hhi, hgood⟩
      · exact .inl ⟨le_rfl, by omega, hgood⟩
      · exact .inr hy
    · rintro (⟨hlo, hhi, hgood⟩ | hy)
      · by_cases hys : y = s
        · exact .inr (.inl ⟨hys, hys ▸ hgood⟩)
        · exact .inl ⟨by omega, hhi, hgood⟩
      · exact .inr (.inr hy)

/-- The blocks from `s` on are left over when the good blocks before are used for complete copies of
    `n` blocks. -/
structure Leftover (isBad : Nat → Bool) (start endblk n s : Nat) : Prop where
  le : start ≤ s
  after : s = start ∨ isBad (s - 1) = false
  copies : n ∣ (goods isBad start s).length
  few : (goods isBad s endblk).length < n

/-- The burning leaves the area: the block behind it is good, and the size of a copy is miscounted
    as 0, or at least `n` blocks are left over, the last of them good. -/
def Overruns (isBad : Nat → Bool) (start endblk n : Nat) : Prop :=
  isBad endblk = false ∧
    (n = 0 ∨ isBad (endblk - 1) = false ∧ ∃ s, Leftover isBad start endblk n s ∧ s + n ≤ endblk)

theorem lt_blksPerUboot_iff (hlen : len < 2 ^ 32) (hN : 0 < blksPerUboot geo len) {g : Nat} :
    g * geo.phyBlockSize < len ↔ g < blksPerUboot geo len := by
  have hpos := geo.phyBlockSize_pos
  have hcast : (len : Int) + geo.phyBlockSize - 1 = ((len + geo.phyBlockSize - 1 : Nat) : Int) := by
    omega
  unfold blksPerUboot at hN ⊢
  rw [hcast, u32_natCast] at hN ⊢
  have hlarge : geo.phyBlockSize ≤ (len + geo.phyBlockSize - 1) % 2 ^ 32 := by
    by_contra hlt
    rw [Nat.div_eq_of_lt (by omega)] at hN
    exact absurd hN (lt_irrefl 0)
  have hmod : (len + geo.phyBlockSize - 1) % 2 ^ 32 = len + geo.phyBlockSize - 1 := by omega
  rw [hmod, Nat.lt_iff_add_one_le, Nat.lt_iff_add_one_le, Nat.le_div_iff_mul_le hpos, Nat.succ_mul]
  omega

theorem spinandUbootBlknum_lt (geo : Geometry) (ubootBlks : Nat) :
    (spinandUbootBlknum geo ubootBlks).1 < (spinandUbootBlknum geo ubootBlks).2 := by
  unfold spinandUbootBlknum ubootStartBlockSmallnand ubootStartBlockBignand maxUbootEndBlk
  dsimp only
  split_ifs <;> simp only <;> omega

section

variable (hlen : len < 2 ^ 32) (hN : 0 < blksPerUboot geo len)
include hlen hN

/-- A copy that ends takes as many good blocks as the loop of the copies thinks. -/
theorem Ends.length_goods (h : Ends geo isBad endblk s len x) :
    (goods isBad s (x + 1)).length = blksPerUboot geo len := by
  have hbefore := (lt_blksPerUboot_iff hlen hN).mp h.before
  have hafter := mt (lt_blksPerUboot_iff hlen hN).mpr (not_lt.mpr h.after)
  rw [goods_succ_good h.le h.good, length_append, length_singleton]
  omega

/-- Where a copy may start: behind complete copies. -/
def CopyStart (isBad : Nat → Bool) (start n s : Nat) : Prop :=
  start ≤ s ∧ (s = start ∨ isBad (s - 1) = false) ∧ n ∣ (goods isBad start s).length

theorem CopyStart.next {start s : Nat} (hs : CopyStart isBad start (blksPerUboot geo len) s)
    (h : Ends geo isBad endblk s len x) :
    CopyStart isBad start (blksPerUboot geo len) (x + 1) := by
  have hle := h.le
  refine ⟨by have := hs.1; omega, .inr h.good, ?_⟩
  rw [goods_append hs.1 (show s ≤ x + 1 by omega), length_append, h.length_goods hlen hN]
  exact Nat.dvd_add hs.2.2 (dvd_refl _)

/-- With the right number of blocks, a run that overruns no end stays inside. -/
theorem inside_of_not_overruns {start : Nat}
    (h : ¬ Overruns isBad start endblk (blksPerUboot geo len)) (d : Dev) {y : Nat}
    (hy : y ∈ (downloadUbootLoop geo isBad noFaults endblk buf len start d []).2.1.touched) :
    start ≤ y ∧ y < endblk ∨ y ∈ d.touched := by
  have hpos : 0 < len := by
    have := (lt_blksPerUboot_iff hlen hN).mpr hN
    omega
  refine run_inside hpos (P := CopyStart isBad start (blksPerUboot geo len)) ?_ ?_ d [] y
    ⟨le_rfl, .inl rfl, ?_⟩ hy
  · rintro s ⟨hle, hafter, hdvd⟩ hs ⟨hfew, hend, hlast⟩
    have hlast : isBad (endblk - 1) = false := by
      rcases hlast with rfl | hlast
      · omega
      · exact hlast
    exact h ⟨hend, .inr ⟨hlast, s, ⟨hle, hafter, hdvd, (lt_blksPerUboot_iff hlen hN).mp hfew⟩, hs⟩⟩
  · intro s t hs ht hmore
    rcases ht.cases with ⟨x, rfl, hx⟩ | ⟨c, rfl, hc⟩
    · exact hs.next hlen hN hx
    · have hlast := hc.last
      omega
  · rw [goods_of_le le_rfl]
    exact dvd_zero _

/-- With the right number of blocks, a run with blocks left over as the condition has them leaves
    the area. -/
theorem leaves_of_leftover {start s₀ : Nat} (hend : isBad endblk = false)
    (hlast : isBad (endblk - 1) = false)
    (hleft : Leftover isBad start endblk (blksPerUboot geo len) s₀)
    (hroom : s₀ + blksPerUboot geo len ≤ endblk) (d : Dev) :
    endblk ∈ (downloadUbootLoop geo isBad noFaults endblk buf len start d []).2.1.touched := by
  have hpos : 0 < len := by
    have := (lt_blksPerUboot_iff hlen hN).mpr hN
    omega
  refine run_leaves hpos (P := fun s => CopyStart isBad start (blksPerUboot geo len) s ∧ s ≤ s₀)
    ?_ d [] ⟨⟨le_rfl, .inl rfl, ?_⟩, hleft.le⟩
  · rintro s ⟨hs, hle⟩
    refine ⟨by omega, ?_⟩
    by_cases heq : s = s₀
    · subst heq
      exact .inl ⟨(lt_blksPerUboot_iff hlen hN).mpr hleft.few, hend, .inr hlast⟩
    -- before the leftover blocks there is room for a whole copy
    have hfull : blksPerUboot geo len ≤ (goods isBad s s₀).length := by
      have hdvd := hleft.copies
      rw [goods_append hs.1 hle, length_append, Nat.dvd_add_right hs.2.2] at hdvd
      refine Nat.le_of_dvd (length_pos_of_mem (a := s₀ - 1) (mem_goods.mpr ?_)) hdvd
      rcases hleft.after with hstart | hgood
      · have := hs.1
        omega
      · exact ⟨by omega, by omega, hgood⟩
    have hlt : ∀ x, (goods isBad s x).length * geo.phyBlockSize < len → x < s₀ := by
      intro x hx
      by_contra hge
      have hmono := length_goods_mono isBad s (not_lt.mp hge)
      have := (lt_blksPerUboot_iff hlen hN).mp hx
      omega
    refine .inr fun t ht => ?_
    rcases ht.cases with ⟨x, rfl, hx⟩ | ⟨c, rfl, hc⟩
    · exact ⟨hs.next hlen hN hx, hlt x hx.before⟩
    · have := hlt c hc.before
      have := hc.last
      omega
  · rw [goods_of_le le_rfl]
    exact dvd_zero _

end

theorem touched_end_iff {start : Nat} (hle : start ≤ endblk) (hN : blksPerUboot geo len = 0)
    (d : Dev) (hd : d.touched = ∅) :
    (∀ y ∈ (downloadUbootLoop geo isBad noFaults endblk buf len start d []).2.1.touched,
      start ≤ y ∧ y < endblk) ↔ ¬ isBad endblk = false := by
  constructor
  · intro hin hend
    suffices hmem : endblk ∈
        (downloadUbootLoop geo isBad noFaults endblk buf len start d []).2.1.touched from
      absurd (hin endblk hmem).2 (lt_irrefl _)
    by_cases hlen : len = 0
    · subst hlen
      rw [mem_touched_zero _ start d [] endblk rfl, mem_goods]
      exact .inl ⟨hle, Nat.lt_succ_self _, hend⟩
    refine run_leaves (Nat.pos_of_ne_zero hlen) (P := fun s => s ≤ endblk) ?_ d [] hle
    intro s hs
    refine ⟨by omega, ?_⟩
    by_cases hleaves : Leaves geo isBad endblk s len
    · exact .inl hleaves
    · refine .inr fun t ht => not_lt.mp fun hlt => hleaves ?_
      exact (leaves_iff hs ht).mpr ⟨hend, hlt⟩
  · intro hend y hy
    by_cases hlen : len = 0
    · subst hlen
      rw [mem_touched_zero _ start d [] y rfl, hd, mem_goods] at hy
      rcases hy with ⟨hlo, hhi, hgood⟩ | hy
      · refine ⟨hlo, lt_of_le_of_ne (Nat.le_of_lt_succ hhi) ?_⟩
        rintro rfl
        exact hend hgood
      · cases hy
    · have hy := run_inside (Nat.pos_of_ne_zero hlen) (P := fun _ => True)
        (fun _ _ _ hleaves => hend hleaves.2.1) (fun _ _ _ _ _ => trivial) d [] y trivial hy
      rw [hd] at hy
      rcases hy with hy | hy
      · exact hy
      · cases hy

/-- The burning of an accepted package erases and programs its area only, whatever fails on the way,
    exactly when it does not overrun the area. -/
theorem download_inside_iff (geo : Geometry) (ubootBlks : Nat) (isBad : Nat → Bool) {len : Nat}
    (hlen : len < 2 ^ 32)
    (hroom : blksPerUboot geo len ≤
      (spinandUbootBlknum geo ubootBlks).2 - (spinandUbootBlknum geo ubootBlks).1)
    (halign : len % geo.pageSize = 0) :
    (∀ (faults : Faults) (buf : Mem) (content : Nat → Mem),
      ∀ y ∈ (spinandMtdDownloadUboot geo ubootBlks isBad faults len buf ⟨content, ∅⟩).2.1.touched,
        (spinandUbootBlknum geo ubootBlks).1 ≤ y ∧ y < (spinandUbootBlknum geo ubootBlks).2) ↔
    ¬ Overruns isBad (spinandUbootBlknum geo ubootBlks).1 (spinandUbootBlknum geo ubootBlks).2
      (blksPerUboot geo len) := by
  have hlt := spinandUbootBlknum_lt geo ubootBlks
  simp only [spinandMtdDownloadUboot, if_neg (not_lt.mpr hroom), halign, ne_eq, not_true_eq_false,
    if_false]
  generalize (spinandUbootBlknum geo ubootBlks).1 = start at hlt ⊢
  generalize (spinandUbootBlknum geo ubootBlks).2 = endblk at hlt ⊢
  rcases Nat.eq_zero_or_pos (blksPerUboot geo len) with hN | hN
  · have hover : Overruns isBad start endblk (blksPerUboot geo len) ↔ isBad endblk = false :=
      ⟨fun h => h.1, fun h => ⟨h, .inl hN⟩⟩
    rw [hover]
    constructor
    · intro h
      exact (touched_end_iff (le_of_lt hlt) hN _ rfl).mp (h noFaults (fun _ => 0) (fun _ _ => 0))
    · intro h faults buf content y hy
      exact (touched_end_iff (le_of_lt hlt) hN _ rfl).mpr h y
        (touched_faults_subset faults len start _ [] hy)
  · constructor
    · rintro h ⟨hend, hzero | ⟨hlast, s, hleft, hs⟩⟩
      · omega
      · have hmem := h noFaults (fun _ => 0) (fun _ _ => 0) endblk
          (leaves_of_leftover hlen hN hend hlast hleft hs _)
        exact absurd hmem.2 (lt_irrefl _)
    · intro h faults buf content y hy
      have hy := inside_of_not_overruns hlen hN h _
        (touched_faults_subset faults len start _ [] hy)
      rcases hy with hy | hy
      · exact hy
      · cases hy

/-- A chip with pages of 2 KiB and blocks of 128 KiB. -/
def smallNand : Geometry := ⟨4, 64, false, by decide, Nat.two_pow_pos 6⟩

/-- On a chip without bad blocks a package of three blocks stays in the area. -/
theorem download_inside_smallNand :
    spinandUbootBlknum smallNand 24 = (8, 32) ∧
      ∀ (faults : Faults) (buf : Mem) (content : Nat → Mem),
        ∀ y ∈ (spinandMtdDownloadUboot smallNand 24 (fun _ => false) faults 393216 buf
          ⟨content, ∅⟩).2.1.touched, 8 ≤ y ∧ y < 32 := by
  refine ⟨by decide, ?_⟩
  refine (download_inside_iff smallNand 24 (fun _ => false) (by decide) (by decide +kernel)
    (by decide)).mpr ?_
  rintro ⟨-, hzero | ⟨-, s, hleft, hs⟩⟩
  · exact absurd hzero (by decide +kernel)
  · have hfew := hleft.few
    rw [length_goods_eq (fun _ _ _ => rfl)] at hfew
    omega

/-- With block 30 bad, the last copy of a package of three blocks takes blocks 29, 31 and 32, where
    the secure storage begins. -/
theorem download_outside_smallNand :
    (spinandUbootBlknum smallNand 24).2 = 32 ∧
    32 ∈ (spinandMtdDownloadUboot smallNand 24 (fun b => b == 30) noFaults 393216 (fun _ => 0)
      ⟨fun _ _ => 0, ∅⟩).2.1.touched := by
  refine ⟨by decide, ?_⟩
  have hN : blksPerUboot smallNand 393216 = 3 := by decide +kernel
  have harea : spinandUbootBlknum smallNand 24 = (8, 32) := by decide
  unfold spinandMtdDownloadUboot
  rw [harea]
  dsimp only
  rw [hN, if_neg (by decide), if_neg (by decide)]
  have hleft : Leftover (fun b => b == 30) 8 32 (blksPerUboot smallNand 393216) 29 := by
    rw [hN]
    exact ⟨by decide, .inr (by decide), by decide, by decide⟩
  exact leaves_of_leftover (by decide) (by rw [hN]; decide) (by decide) (by decide) hleft
    (by rw [hN]) _

end

end Brandy.SpinandBoot
