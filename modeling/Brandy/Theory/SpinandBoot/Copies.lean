import Brandy.Theory.SpinandBoot.Area
import Mathlib.Data.List.GetD

/-!
# The Copies of the Boot Package

What `spinand_mtd_download_uboot` leaves on the chip. The complete copies follow each other without
a gap in the list of the good blocks.

## Main definitions

* `Laid`: Copies that follow each other.
* `Bootable`: The area holds a complete copy.

## Theorems

* `downloadUbootLoop_copies`: Where the copies are.
* `download_bootable_iff`: When a success means a complete copy.
-/

namespace Brandy.SpinandBoot

open Memory Word Goods List Function

/-- The bytes of a list of blocks, one block after the other. -/
def copyMem (geo : Geometry) (content : Nat → Mem) (bs : List Nat) : Mem :=
  fun x => content (bs.getD (x.toNat / geo.phyBlockSize) 0) (x.toNat % geo.phyBlockSize : Nat)

section

variable {geo : Geometry} {isBad : Nat → Bool} {endblk : Nat} {buf : Mem}

theorem burn_content_self (d : Dev) (b off n : Nat) {x : Int} (hx : x ∈ Set.Ico 0 (n : Int)) :
    (burn buf d b off n).content b x = buf (x + off) := by
  unfold burn
  dsimp only
  rw [update_self, overlay_of_mem (by rwa [zero_add])]

theorem burn_content_other {d : Dev} {b c : Nat} {off n : Nat} (h : c ≠ b) :
    (burn buf d b off n).content c = d.content c :=
  update_of_ne h _ _

theorem burnList_content_other {bs : List Nat} {c : Nat} (h : c ∉ bs) (off : Nat) (d : Dev) :
    (burnList geo buf bs off d).content c = d.content c := by
  induction bs generalizing off d with
  | nil => rfl
  | cons b bs ih =>
    rw [mem_cons, not_or] at h
    rw [burnList, ih h.2, burn_content_other h.1]

theorem burnList_content (bs : List Nat) (hnodup : bs.Nodup) (off : Nat) (d : Dev) {k : Nat}
    (hk : k < bs.length) {x : Int} (hx : x ∈ Set.Ico 0 (geo.phyBlockSize : Int)) :
    (burnList geo buf bs off d).content (bs.getD k 0) x =
      buf (x + (off + k * geo.phyBlockSize : Nat)) := by
  induction bs generalizing off d k with
  | nil => cases hk
  | cons b bs ih =>
    rw [nodup_cons] at hnodup
    cases k with
    | zero =>
      -- the blocks that follow leave this one alone
      rw [burnList, getD_cons_zero, burnList_content_other hnodup.1,
        burn_content_self _ _ _ _ hx, zero_mul, add_zero]
    | succ k =>
      rw [length_cons, Nat.succ_lt_succ_iff] at hk
      rw [burnList, getD_cons_succ, ih hnodup.2 _ _ hk, Nat.succ_mul]
      congr 3
      omega

variable {len : Nat}

theorem downloadBoot_content {s x : Nat} (h : Ends geo isBad endblk s len x) (d : Dev) :
    Set.EqOn
      (copyMem geo (downloadBoot geo isBad noFaults s endblk 0 buf len d).2.content
        (goods isBad s (x + 1))) buf (Set.Ico 0 (len : Int)) := by
  have hpos := geo.phyBlockSize_pos
  have hafter := h.after
  rw [downloadBoot_eq, burnLoop_ends h, goods_succ_good h.le h.good]
  generalize hg : (goods isBad s x).length = g at hafter ⊢
  intro y hy
  lift y to Nat using hy.1 with t
  have hlt : t < len := by exact_mod_cast hy.2
  have hk : t / geo.phyBlockSize ≤ g := by
    refine Nat.lt_succ_iff.mp ((Nat.div_lt_iff_lt_mul hpos).mpr ?_)
    exact lt_of_lt_of_le hlt hafter
  have hsum := Nat.div_add_mod t geo.phyBlockSize
  have hmod := Nat.mod_lt t hpos
  have hcoff : (0 + g * geo.pageCntPerBlk) * geo.phyPageSize = g * geo.phyBlockSize := by
    rw [zero_add, mul_assoc]
    rfl
  unfold copyMem
  rw [Int.toNat_natCast, hcoff]
  rcases Nat.lt_or_eq_of_le hk with hlast | hlast
  · -- a block before the last one
    have hmem : (goods isBad s x).getD (t / geo.phyBlockSize) 0 ∈ goods isBad s x := by
      rw [getD_eq_getElem _ _ (hg ▸ hlast)]
      exact getElem_mem _
    have hne := ne_of_lt (mem_goods.mp hmem).2.1
    rw [getD_append _ _ _ _ (hg ▸ hlast), burn_content_other hne,
      burnList_content _ (nodup_goods isBad s x) _ _ (hg ▸ hlast)
        ⟨Int.natCast_nonneg _, by exact_mod_cast hmod⟩, zero_mul, zero_add, ← Nat.cast_add,
      mul_comm, add_comm, hsum]
  · rw [getD_append_right _ _ _ _ (by omega), hlast, hg, Nat.sub_self, getD_cons_zero]
    rw [hlast] at hsum
    have hpart : t % geo.phyBlockSize < len - g * geo.phyBlockSize := by
      rw [mul_comm] at hsum
      omega
    rw [burn_content_self _ _ _ _ ⟨Int.natCast_nonneg _, by exact_mod_cast hpart⟩, ← Nat.cast_add,
      mul_comm, add_comm, hsum]

theorem Turn.content_before {s t : Nat} (h : Turn geo isBad endblk s len t) (d : Dev) {b : Nat}
    (hb : b < s) : (downloadBoot geo isBad noFaults s endblk 0 buf len d).2.content b =
      d.content b := by
  have hnot : ∀ x, b ∉ goods isBad s x := by
    intro x hmem
    have := (mem_goods.mp hmem).1
    omega
  rw [downloadBoot_eq]
  rcases h.cases with ⟨x, -, hx⟩ | ⟨c, -, hc⟩
  · have hle := hx.le
    rw [burnLoop_ends hx, burn_content_other (by omega), burnList_content_other (hnot x)]
  · rw [burnLoop_stops hc, burnList_content_other (hnot c)]

theorem downloadUbootLoop_before (hlen : 0 < len) (s : Nat) :
    ∀ (d : Dev) (copies : List Nat) {b : Nat}, b < s →
      (downloadUbootLoop geo isBad noFaults endblk buf len s d copies).2.1.content b =
        d.content b := by
  induction s using copies_induction geo isBad endblk hlen with
  | done s hs =>
    intro d copies b hb
    rw [downloadUbootLoop_end hs]
  | turn s t hs h ih =>
    intro d copies b hb
    rw [h.loop hs, ih _ _ (hb.trans h.lt), h.content_before d hb]

/-- Copies that start at `s` and follow each other. -/
def Laid (geo : Geometry) (isBad : Nat → Bool) (endblk len : Nat) : Nat → List Nat → Prop
  | _, [] => True
  | s, c :: cs => c = s ∧ ∃ x, Ends geo isBad endblk s len x ∧ Laid geo isBad endblk len (x + 1) cs

/-- A chip on which a copy from `c` on holds a package. -/
def Holds (geo : Geometry) (isBad : Nat → Bool) (endblk len : Nat) (image : Mem) (d : Dev)
    (c : Nat) : Prop :=
  ∀ x, Ends geo isBad endblk c len x →
    Set.EqOn (copyMem geo d.content (goods isBad c (x + 1))) image (Set.Ico 0 (len : Int))

theorem Ends.unique {s x x' : Nat} (h : Ends geo isBad endblk s len x)
    (h' : Ends geo isBad endblk s len x') : x = x' := by
  have key : ∀ {x x' : Nat}, Ends geo isBad endblk s len x → Ends geo isBad endblk s len x' →
      ¬ x < x' := by
    intro x x' h h' hlt
    -- the good block `x` would come before the last block of the longer walk
    have hmono := length_goods_mono isBad s (show x + 1 ≤ x' from hlt)
    rw [goods_succ_good h.le h.good, length_append, length_singleton] at hmono
    have hle := le_trans h.after (Nat.mul_le_mul_right geo.phyBlockSize hmono)
    have hbefore := h'.before
    omega
  have h₁ := key h h'
  have h₂ := key h' h
  omega

theorem copyMem_congr {content content' : Nat → Mem} {bs : List Nat}
    (h : ∀ b ∈ bs, content b = content' b) (hlen : len ≤ bs.length * geo.phyBlockSize) :
    Set.EqOn (copyMem geo content bs) (copyMem geo content' bs) (Set.Ico 0 (len : Int)) := by
  intro y hy
  lift y to Nat using hy.1 with t
  have hlt : t < len := by exact_mod_cast hy.2
  have hk : t / geo.phyBlockSize < bs.length :=
    (Nat.div_lt_iff_lt_mul geo.phyBlockSize_pos).mpr (lt_of_lt_of_le hlt hlen)
  unfold copyMem
  rw [Int.toNat_natCast, getD_eq_getElem _ _ hk, h _ (getElem_mem hk)]

/-- The copy that is written first stays, as the copies that follow start behind it. -/
theorem downloadUbootLoop_first (buf : Mem) (hlen : 0 < len) {s x : Nat}
    (hs : s + blksPerUboot geo len ≤ endblk) (hx : Ends geo isBad endblk s len x) (d : Dev)
    (copies : List Nat) :
    Set.EqOn (copyMem geo
      (downloadUbootLoop geo isBad noFaults endblk buf len s d copies).2.1.content
        (goods isBad s (x + 1))) buf (Set.Ico 0 (len : Int)) := by
  rw [downloadUbootLoop_ends hs hx]
  refine Set.EqOn.trans (copyMem_congr (fun b hb => ?_) ?_) (downloadBoot_content hx d)
  · exact downloadUbootLoop_before hlen _ _ _ (mem_goods.mp hb).2.1
  · rw [goods_succ_good hx.le hx.good, length_append]
    exact hx.after

theorem downloadUbootLoop_laid {geo : Geometry} {isBad : Nat → Bool} {endblk : Nat} {buf : Mem}
    (hlen : 0 < len) {s : Nat} :
    ∀ (d : Dev) (copies : List Nat), ∃ cs,
      (downloadUbootLoop geo isBad noFaults endblk buf len s d copies).1 = 0 ∧
      (downloadUbootLoop geo isBad noFaults endblk buf len s d copies).2.2 = copies ++ cs ∧
      (0 < blksPerUboot geo len → Laid geo isBad endblk len s cs) ∧
      ∀ c ∈ cs, s ≤ c ∧ (∃ x, Ends geo isBad endblk c len x) ∧ Holds geo isBad endblk len buf
        (downloadUbootLoop geo isBad noFaults endblk buf len s d copies).2.1 c := by
  induction s using copies_induction geo isBad endblk hlen with
  | done s hs =>
    intro d copies
    rw [downloadUbootLoop_end hs]
    exact ⟨[], rfl, (append_nil _).symm, fun _ => trivial, fun c hc => absurd hc not_mem_nil⟩
  | turn s t hs h ih =>
    intro d copies
    have hlt := h.lt
    rcases ih (downloadBoot geo isBad noFaults s endblk 0 buf len d).2
      (copies ++ if isBad (t - 1) then [] else [s]) with ⟨cs, hret, hcs, hlaid, hheld⟩
    have hlater : ∀ c ∈ cs, s ≤ c := fun c hc => hlt.le.trans (hheld c hc).1
    rw [← h.loop hs] at hret hcs hheld
    rcases h.cases with ⟨x, rfl, hx⟩ | ⟨c, rfl, hc⟩
    · rw [Nat.add_sub_cancel, hx.good, append_assoc] at hcs
      refine ⟨s :: cs, hret, hcs, fun hN => ⟨rfl, x, hx, hlaid hN⟩, ?_⟩
      intro c hc
      rcases mem_cons.mp hc with rfl | hc
      · refine ⟨le_rfl, ⟨x, hx⟩, fun x' hx' => ?_⟩
        rw [← hx.unique hx']
        exact downloadUbootLoop_first buf hlen hs hx d copies
      · exact ⟨hlater c hc, (hheld c hc).2⟩
    · rw [Nat.add_sub_cancel, hc.bad, if_pos rfl, append_nil] at hcs
      refine ⟨cs, hret, hcs, fun hN => ?_, fun c' hc' => ⟨hlater c' hc', (hheld c' hc').2⟩⟩
      -- behind the end of the area there is no further copy
      have hlast := hc.last
      rw [h.loop hs, downloadUbootLoop_end (by omega), Nat.add_sub_cancel, hc.bad, if_pos rfl,
        append_nil] at hcs
      rw [self_eq_append_right.mp hcs]
      trivial

theorem Laid.getElem (hlen : len < 2 ^ 32) (hN : 0 < blksPerUboot geo len) (cs : List Nat) {s : Nat}
    (h : Laid geo isBad endblk len s cs) {j c : Nat} (hj : cs[j]? = some c) :
    s ≤ c ∧ (goods isBad s c).length = j * blksPerUboot geo len ∧
      ∃ x, Ends geo isBad endblk c len x := by
  induction cs generalizing s j with
  | nil => cases hj
  | cons c₀ cs ih =>
    rcases h with ⟨rfl, x, hx, hlaid⟩
    cases j with
    | zero =>
      rw [getElem?_cons_zero, Option.some.injEq] at hj
      subst hj
      rw [goods_of_le le_rfl, zero_mul]
      exact ⟨le_rfl, rfl, x, hx⟩
    | succ j =>
      rw [getElem?_cons_succ] at hj
      rcases ih hlaid hj with ⟨hle, hcount, hends⟩
      have hxle := hx.le
      refine ⟨by omega, ?_, hends⟩
      rw [goods_append (show c₀ ≤ x + 1 by omega) hle, length_append, hx.length_goods hlen hN,
        hcount, Nat.succ_mul, add_comm]

theorem downloadUbootLoop_copies (geo : Geometry) (isBad : Nat → Bool) (endblk : Nat)
    (hlen : 0 < len) (s : Nat) :
    ∀ (buf buf' : Mem) (d d' : Dev) (copies : List Nat),
      (downloadUbootLoop geo isBad noFaults endblk buf len s d copies).2.2 =
        copies ++ (downloadUbootLoop geo isBad noFaults endblk buf' len s d' []).2.2 := by
  induction s using copies_induction geo isBad endblk hlen with
  | done s hs =>
    intro buf buf' d d' copies
    rw [downloadUbootLoop_end hs, downloadUbootLoop_end hs, append_nil]
  | turn s t hs h ih =>
    intro buf buf' d d' copies
    rw [h.loop hs, h.loop hs]
    generalize (downloadBoot geo isBad noFaults s endblk 0 buf len d).2 = e
    generalize (downloadBoot geo isBad noFaults s endblk 0 buf' len d').2 = e'
    rw [ih buf buf' e e', ih buf' buf' e' e' ([] ++ _), nil_append, append_assoc]

/-- A run of blocks of the area whose good blocks, in order, hold the package. -/
def Bootable (geo : Geometry) (isBad : Nat → Bool) (start endblk len : Nat)
    (image : Mem) (d : Dev) : Prop :=
  ∃ a b, start ≤ a ∧ b ≤ endblk ∧ len ≤ (goods isBad a b).length * geo.phyBlockSize ∧
    Set.EqOn (copyMem geo d.content (goods isBad a b)) image (Set.Ico 0 (len : Int))

/-- With good blocks enough in the area, the first copy ends in it. -/
theorem ends_inside {start : Nat} (hlen : 0 < len)
    (h : len ≤ (goods isBad start endblk).length * geo.phyBlockSize) :
    ∃ x < endblk, Ends geo isBad endblk start len x := by
  have hlt : ∀ {c}, (goods isBad start c).length * geo.phyBlockSize < len → c < endblk := by
    intro c hc
    by_contra hge
    have hmono := length_goods_mono isBad start (not_lt.mp hge)
    have := Nat.mul_le_mul_right geo.phyBlockSize hmono
    omega
  rcases exists_turn geo isBad endblk start hlen with ⟨t, ht⟩
  rcases ht.cases with ⟨x, -, hx⟩ | ⟨c, -, hc⟩
  · exact ⟨x, hlt hx.before, hx⟩
  -- behind the last block of the area there is no good one of it
  have hcend := hlt hc.before
  have hlast := hc.last
  have hbefore := hc.before
  rw [← goods_succ_bad hc.le hc.bad, show c + 1 = endblk by omega] at hbefore
  omega

/-- The burning reports success only with a complete copy in the area, unless the area has too few
    good blocks for one. -/
theorem download_bootable_iff (geo : Geometry) (ubootBlks : Nat) (isBad : Nat → Bool)
    (faults : Faults) (len : Nat) (buf : Mem) (d : Dev) :
    ((spinandMtdDownloadUboot geo ubootBlks isBad faults len buf d).1 = 0 →
      Bootable geo isBad (spinandUbootBlknum geo ubootBlks).1
        (spinandUbootBlknum geo ubootBlks).2 len
        buf (spinandMtdDownloadUboot geo ubootBlks isBad faults len buf d).2.1) ↔
    ((spinandMtdDownloadUboot geo ubootBlks isBad faults len buf d).1 = 0 →
      len ≤ (goods isBad (spinandUbootBlknum geo ubootBlks).1
        (spinandUbootBlknum geo ubootBlks).2).length * geo.phyBlockSize) := by
  have harea := spinandUbootBlknum_lt geo ubootBlks
  simp only [spinandMtdDownloadUboot]
  generalize (spinandUbootBlknum geo ubootBlks).1 = start at harea ⊢
  generalize (spinandUbootBlknum geo ubootBlks).2 = endblk at harea ⊢
  refine imp_congr_right fun hret => ⟨?_, fun henough => ?_⟩
  · rintro ⟨a, b, ha, hb, hlen, -⟩
    refine hlen.trans (Nat.mul_le_mul_right _ ?_)
    refine (length_goods_mono isBad a hb).trans ?_
    by_cases hend : a ≤ endblk
    · rw [goods_append ha hend, length_append]
      exact Nat.le_add_left _ _
    · rw [goods_of_le (Nat.le_of_not_le hend)]
      exact Nat.zero_le _
  · rcases Nat.eq_zero_or_pos len with rfl | hlen
    · exact ⟨start, start, le_rfl, harea.le, Nat.zero_le _, by simp⟩
    split at hret
    · cases hret
    split at hret
    · cases hret
    rename_i hroom halign
    rw [if_neg hroom, if_neg halign]
    obtain ⟨x, hlt, hx⟩ := ends_inside hlen henough
    refine ⟨start, x + 1, le_rfl, hlt, ?_, ?_⟩
    · rw [goods_succ_good hx.le hx.good, length_append]
      exact hx.after
    · rcases (downloadUbootLoop_follows faults len start d []).2 with heq | ⟨hfail, -⟩
      · rw [heq]
        exact downloadUbootLoop_first buf hlen (by omega) hx d []
      · rw [hfail] at hret
        cases hret

/-- With every block bad, nothing is written and the burning reports success. -/
theorem download_nothing_smallNand :
    (spinandMtdDownloadUboot smallNand 24 (fun _ => true) noFaults 393216 (fun _ => 0)
      ⟨fun _ _ => 0, ∅⟩).1 = 0 ∧
    ¬ Bootable smallNand (fun _ => true) 8 32 393216 (fun _ => 0)
      (spinandMtdDownloadUboot smallNand 24 (fun _ => true) noFaults 393216 (fun _ => 0)
        ⟨fun _ _ => 0, ∅⟩).2.1 := by
  constructor
  · unfold spinandMtdDownloadUboot
    rw [show spinandUbootBlknum smallNand 24 = (8, 32) by decide]
    simp only
    rw [if_neg (by decide +kernel), if_neg (by decide)]
    obtain ⟨-, hret, -⟩ := downloadUbootLoop_laid
      (show 0 < 393216 by decide) ⟨fun _ _ => 0, ∅⟩ []
    exact hret
  · rintro ⟨a, b, -, -, hlen, -⟩
    rw [goods, filter_eq_nil_iff.mpr (by simp), length_nil, zero_mul] at hlen
    omega

end

end Brandy.SpinandBoot
