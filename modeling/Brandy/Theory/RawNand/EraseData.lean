import Brandy.Core.RawNand.Erase

/-!
# What Erasing the Data Area Erases

`rawnand_mtd_erase_data` walks over the blocks of all chips behind the boot area, but it selects one
chip only, the one its first block is on, and it numbers the blocks of a chip by a mask. When the
walk leaves the chip, or the part of it that the mask covers, it starts again at block 0 of the same
chip and erases the boot area.

## Main definitions

* `DataErased`: Every block of the area was erased once, and no other.
* `OneChip`: The masks cover a chip, and the area lies on the last one.

## Theorems

* `dataErased_single`, `dataErased_multi`: Without and with simulated planes.
* `dataErased_iff`: When the area is erased as it should be.
-/

namespace Brandy.RawNand

open List

/-- An erase was issued once for every block of the device behind the boot and secure storage
    blocks, over all chips, and for no other. -/
def DataErased (g : Geometry) (log : Log) : Prop :=
  ∀ chip block, log.count (chip, block) =
    if chip < g.chips ∧ block < g.blocks ∧ dataStart g ≤ chip * g.blocks + block then 1 else 0

/-- The masks cover a whole chip, and the data area lies on the last one. -/
def OneChip (g : Geometry) : Prop :=
  g.chipBlocks = g.blocks ∧ (g.chips - 1) * g.blocks ≤ dataStart g ∧
    dataStart g < g.chips * g.blocks

theorem dataStart_bounds (g : Geometry) : dataStart g % 2 = 0 ∧ 20 ≤ dataStart g := by
  unfold dataStart ubootBlknum
  simp only
  split_ifs <;> decide

theorem eraseData_eq (w : World) :
    eraseData w = eraseBlock w (dataStart w.geometry) (w.geometry.chips * w.geometry.blocks) := by
  have htotal : (w.geometry.chips * w.geometry.chipsize) >>> w.geometry.eraseShift =
      w.geometry.chips * w.geometry.blocks := by
    rw [Nat.shiftRight_eq_div_pow, Geometry.chipsize_eq, ← mul_assoc,
      Nat.mul_div_cancel _ (by positivity)]
  unfold eraseData
  simp only [htotal]

section

variable (w : World)

theorem rowBlock_mul {b : Nat} (hb : b < w.geometry.blocks) :
    rowBlock w (b * 2 ^ w.geometry.pagesPerBlkShift) = b := by
  have hlt : b * 2 ^ w.geometry.pagesPerBlkShift < 2 ^ 24 :=
    (Nat.mul_lt_mul_of_pos_right hb (by positivity)).trans_le w.geometry.rows_le
  unfold rowBlock
  rw [show 0xffffff = 2 ^ 24 - 1 from rfl, Nat.and_two_pow_sub_one_eq_mod, Nat.mod_eq_of_lt hlt,
    Nat.shiftRight_eq_div_pow, Nat.mul_div_cancel _ (by positivity)]

theorem shiftLeft_and_mask (blk k m : Nat) :
    blk <<< k &&& (1 <<< (m + k) - 1) = blk % 2 ^ m * 2 ^ k := by
  rw [Nat.shiftLeft_eq, Nat.shiftLeft_eq, one_mul, Nat.and_two_pow_sub_one_eq_mod, pow_add,
    Nat.mul_mod_mul_right]

theorem eraseOne_single (h : w.simulateMultiplane = false) (chipnr blk : Nat) :
    (eraseOne w chipnr blk).2 = [(chipnr, blk % w.geometry.chipBlocks)] := by
  have hshift := w.geometry.chipShift_spec.1
  have hlt : blk % w.geometry.chipBlocks < w.geometry.blocks :=
    (Nat.mod_lt _ w.geometry.chipBlocks_pos).trans_le w.geometry.chipBlocks_le
  unfold eraseOne
  simp only [h, Bool.false_eq_true, if_false]
  unfold Geometry.chipPagesMask chipErase
  rw [show w.geometry.chipShift - w.geometry.pagesizeShift =
      w.geometry.chipShift - w.geometry.eraseShift + w.geometry.pagesPerBlkShift by
        unfold Geometry.eraseShift at hshift ⊢; omega,
    shiftLeft_and_mask]
  exact congrArg (fun b => [(chipnr, b)]) (rowBlock_mul w hlt)

/-- The number of simulated blocks that `chip_shift` stands for. -/
def World.simuBlocks : Nat := 2 ^ (w.geometry.chipShift - w.geometry.simuEraseShift)

variable (hshift : w.geometry.simuEraseShift ≤ w.geometry.chipShift)
include hshift

theorem chipBlocks_eq_two_mul : w.geometry.chipBlocks = 2 * w.simuBlocks := by
  unfold Geometry.chipBlocks World.simuBlocks
  rw [← pow_succ']
  congr 1
  unfold Geometry.simuEraseShift Geometry.simuPagesizeShift at hshift ⊢
  unfold Geometry.eraseShift
  omega

/-- With simulated planes two blocks are erased, the second one unless the first fails. -/
theorem eraseOne_multi (h : w.simulateMultiplane = true) (chipnr blk : Nat) :
    (eraseOne w chipnr blk).2 = (chipnr, 2 * (blk % w.simuBlocks)) ::
      if w.hasMultiErase = true ∨ w.eraseOk chipnr (2 * (blk % w.simuBlocks)) = true then
        [(chipnr, 2 * (blk % w.simuBlocks) + 1)] else [] := by
  have hpos : 0 < w.simuBlocks := by
    unfold World.simuBlocks
    positivity
  have hmod := Nat.mod_lt blk hpos
  have hle := w.geometry.chipBlocks_le
  rw [chipBlocks_eq_two_mul w hshift] at hle
  have hpage : (blk <<< w.geometry.pagesPerBlkShift) &&& w.geometry.simuChipPagesMask =
      blk % w.simuBlocks * 2 ^ w.geometry.pagesPerBlkShift := by
    unfold Geometry.simuChipPagesMask World.simuBlocks
    rw [← shiftLeft_and_mask]
    congr 4
    unfold Geometry.simuEraseShift at hshift ⊢
    omega
  generalize blk % w.simuBlocks = x at *
  have hA : pageA w (x * 2 ^ w.geometry.pagesPerBlkShift) =
      2 * x * 2 ^ w.geometry.pagesPerBlkShift := by
    unfold pageA
    rw [Nat.shiftRight_eq_div_pow, Nat.mul_div_cancel _ (by positivity), Nat.shiftLeft_eq,
      Nat.shiftLeft_eq, Nat.pow_one, mul_comm x]
  have hB : pageB w (x * 2 ^ w.geometry.pagesPerBlkShift) =
      (2 * x + 1) * 2 ^ w.geometry.pagesPerBlkShift := by
    unfold pageB
    rw [hA, Nat.shiftLeft_eq, ← add_mul]
  have hrowA : rowBlock w (2 * x * 2 ^ w.geometry.pagesPerBlkShift) = 2 * x :=
    rowBlock_mul w (by omega)
  have hrowB : rowBlock w ((2 * x + 1) * 2 ^ w.geometry.pagesPerBlkShift) = 2 * x + 1 :=
    rowBlock_mul w (by omega)
  unfold eraseOne
  simp only [h, if_true]
  rw [hpage]
  unfold multiErase realMultiErase simuMultiErase chipErase
  simp only [hA, hB, hrowA, hrowB]
  cases w.hasMultiErase with
  | true => simp
  | false =>
    cases w.eraseOk chipnr (2 * x) with
    | true => simp
    | false => simp [eio]

end

theorem eraseBlockLoop_log (w : World) (chipnr realEndBlk blk : Nat) :
    (eraseBlockLoop w chipnr realEndBlk blk).2 =
      (range' blk (max 1 (realEndBlk - blk))).flatMap fun b => (eraseOne w chipnr b).2 := by
  induction hleft : realEndBlk - blk generalizing blk with
  | zero =>
    rw [eraseBlockLoop, if_neg (by omega)]
    simp
  | succ left ih =>
    rw [eraseBlockLoop]
    by_cases hmore : blk + 1 < realEndBlk
    · simp only [if_pos hmore]
      rw [ih (blk + 1) (by omega), show max 1 (left + 1) = max 1 left + 1 by omega, range'_succ,
        flatMap_cons]
    · rw [if_neg hmore, show max 1 (left + 1) = 1 by omega]
      simp

theorem flatMap_pairs {α : Type} (f : Nat → α) (a m : Nat) :
    ((range' a m).flatMap fun b => [f (2 * b), f (2 * b + 1)]) =
      (range' (2 * a) (2 * m)).map f := by
  induction m generalizing a with
  | zero => rfl
  | succ m ih =>
    rw [range'_succ, flatMap_cons, ih, show 2 * (m + 1) = 2 * m + 1 + 1 by omega,
      range'_succ, range'_succ, map_cons, map_cons]
    rfl

section

variable {g : Geometry}

theorem Geometry.total_eq (g : Geometry) :
    g.chips * g.blocks = (g.chips - 1) * g.blocks + g.blocks := by
  obtain ⟨m, hchips⟩ : ∃ m, g.chips = m + 1 := ⟨g.chips - 1, by have := g.chips_pos; omega⟩
  rw [hchips, Nat.succ_mul, Nat.add_sub_cancel]

/-- The selected chip, and the block on it that the mask leaves of a number. -/
def walked (g : Geometry) (b : Nat) : Nat × Nat := (dataStart g / g.chipBlocks, b % g.chipBlocks)

theorem OneChip.walked_eq (h : OneChip g) {b : Nat} (hle : dataStart g ≤ b)
    (hlt : b < g.chips * g.blocks) : walked g b = (g.chips - 1, b - (g.chips - 1) * g.blocks) := by
  obtain ⟨hmask, hone, hdata⟩ := h
  have htotal := g.total_eq
  have hchip : dataStart g / g.blocks = g.chips - 1 :=
    Nat.div_eq_of_lt_le hone (by rw [Nat.succ_mul]; omega)
  obtain ⟨r, rfl⟩ : ∃ r, b = (g.chips - 1) * g.blocks + r :=
    ⟨b - (g.chips - 1) * g.blocks, by omega⟩
  rw [walked, hmask, hchip, Nat.mul_add_mod', Nat.mod_eq_of_lt (by omega), Nat.add_sub_cancel_left]

/-- If a walk on one chip and below the mask erases the data area, the mask covers a whole chip and
    the area lies on one. -/
theorem geometry_of_dataErased {log : Log} (hne : log ≠ [])
    (hlog : ∀ e ∈ log, e.1 = dataStart g / g.chipBlocks ∧ e.2 < g.chipBlocks)
    (h : DataErased g log) : OneChip g := by
  have htotal := g.total_eq
  have hchips := g.chips_pos
  have hpos := g.blocks_pos
  by_cases hdata : dataStart g < g.chips * g.blocks
  · -- the last block of the device belongs to the area
    have hlast := h (g.chips - 1) (g.blocks - 1)
    rw [if_pos ⟨by omega, by omega, by omega⟩] at hlast
    have hmem : (g.chips - 1, g.blocks - 1) ∈ log := count_pos_iff.mp (by omega)
    obtain ⟨hchip, hlt⟩ := hlog _ hmem
    have heq : g.chipBlocks = g.blocks := by
      have := g.chipBlocks_le
      omega
    simp only at hchip
    refine ⟨heq, ?_, hdata⟩
    rw [hchip, heq]
    exact Nat.div_mul_le_self _ _
  · -- there is no data area, and a block is erased all the same
    obtain ⟨e, log', rfl⟩ := exists_cons_of_ne_nil hne
    have hfirst := h e.1 e.2
    have hout : ¬ (e.1 < g.chips ∧ e.2 < g.blocks ∧ dataStart g ≤ e.1 * g.blocks + e.2) := by
      rintro ⟨hchip, hblock, hle⟩
      have hrow : e.1 * g.blocks ≤ (g.chips - 1) * g.blocks := Nat.mul_le_mul_right _ (by omega)
      omega
    rw [if_neg hout, count_cons_self] at hfirst
    omega

theorem dataErased_of_geometry (h : OneChip g) :
    DataErased g ((range' (dataStart g) (g.chips * g.blocks - dataStart g)).map (walked g)) := by
  have htotal := g.total_eq
  have hchips := g.chips_pos
  have hplace : ∀ b ∈ range' (dataStart g) (g.chips * g.blocks - dataStart g),
      walked g b = (g.chips - 1, b - (g.chips - 1) * g.blocks) ∧
        (g.chips - 1) * g.blocks ≤ b ∧ dataStart g ≤ b ∧ b < g.chips * g.blocks := by
    intro b hb
    rw [mem_range'_1] at hb
    have hone := h.2.1
    exact ⟨h.walked_eq hb.1 (by omega), by omega, hb.1, by omega⟩
  have hnodup := Nodup.map_on (f := walked g) (fun a ha b hb hab => by
    obtain ⟨ha, hle, -⟩ := hplace a ha
    obtain ⟨hb, hle', -⟩ := hplace b hb
    rw [ha, hb, Prod.mk.injEq] at hab
    omega) (nodup_range' (s := dataStart g) (n := g.chips * g.blocks - dataStart g))
  intro chip block
  rw [hnodup.count]
  refine if_congr ?_ rfl rfl
  rw [List.mem_map]
  constructor
  · rintro ⟨b, hb, heq⟩
    obtain ⟨hb, hle, hle', hlt⟩ := hplace b hb
    rw [hb, Prod.mk.injEq] at heq
    obtain ⟨rfl, rfl⟩ := heq
    exact ⟨by omega, by omega, by omega⟩
  · rintro ⟨hlt, hblock, hle⟩
    -- the blocks of the other chips are in front of the area
    have hlast : chip = g.chips - 1 := by
      by_contra hne
      have hrow : (chip + 1) * g.blocks ≤ (g.chips - 1) * g.blocks :=
        Nat.mul_le_mul_right _ (by omega)
      have hone := h.2.1
      rw [Nat.succ_mul] at hrow
      omega
    subst hlast
    refine ⟨(g.chips - 1) * g.blocks + block, mem_range'_1.mpr ⟨hle, by omega⟩, ?_⟩
    rw [h.walked_eq hle (by omega), Nat.add_sub_cancel_left]

end

section

variable {w : World}

theorem eraseData_single (h : w.simulateMultiplane = false) :
    ∃ ret, eraseData w = some (ret, (range' (dataStart w.geometry)
      (max 1 (w.geometry.chips * w.geometry.blocks - dataStart w.geometry))).map
        (walked w.geometry)) := by
  rw [eraseData_eq, eraseBlock]
  simp only [h, Bool.false_eq_true, if_false, Nat.shiftRight_eq_div_pow]
  refine ⟨_, congrArg some (Prod.ext rfl ?_)⟩
  rw [eraseBlockLoop_log]
  simp only [eraseOne_single w h, ← map_eq_flatMap]
  rfl

theorem dataErased_single (h : w.simulateMultiplane = false) :
    (∃ ret log, eraseData w = some (ret, log) ∧ DataErased w.geometry log) ↔
      OneChip w.geometry := by
  obtain ⟨code, herase⟩ := eraseData_single h
  constructor
  · rintro ⟨ret, log, hret, hdata⟩
    rw [herase] at hret
    injection hret with hret
    injection hret with _ hlog
    subst hlog
    refine geometry_of_dataErased (fun hnil => ?_) (fun e he => ?_) hdata
    · have := congrArg length hnil
      rw [length_map, length_range'] at this
      simp only [length_nil] at this
      omega
    · obtain ⟨b, -, rfl⟩ := List.mem_map.mp he
      exact ⟨rfl, Nat.mod_lt _ w.geometry.chipBlocks_pos⟩
  · intro hone
    refine ⟨_, _, herase, ?_⟩
    rw [max_eq_right (by have := hone.2.2; omega)]
    exact dataErased_of_geometry hone

/-- No erase of a first block of a pair of the area fails, or the pairs are erased in one. -/
def Issued (w : World) : Prop :=
  w.hasMultiErase = false → ∀ block < w.geometry.blocks, block % 2 = 0 →
    dataStart w.geometry ≤ (w.geometry.chips - 1) * w.geometry.blocks + block →
      w.eraseOk (w.geometry.chips - 1) block = true

/-- The first blocks of the pairs of the walk, halved. -/
def pairs (g : Geometry) : List Nat :=
  range' (dataStart g / 2) (max 1 (g.chips * g.blocks / 2 - dataStart g / 2))

/-- With simulated planes the same erases are issued if no first block of a pair fails. -/
theorem log_of_issued (hshift : w.geometry.simuEraseShift ≤ w.geometry.chipShift)
    (h : w.simulateMultiplane = true) (hone : OneChip w.geometry) (hok : Issued w) :
    ((pairs w.geometry).flatMap fun b =>
        (eraseOne w (dataStart w.geometry / w.geometry.chipBlocks) b).2) =
      (range' (dataStart w.geometry)
        (w.geometry.chips * w.geometry.blocks - dataStart w.geometry)).map (walked w.geometry) := by
  have hstart := (dataStart_bounds w.geometry).1
  have htwo := chipBlocks_eq_two_mul w hshift
  have htotal : w.geometry.chips * w.geometry.blocks = 2 * (w.geometry.chips * w.simuBlocks) := by
    rw [← hone.1, htwo, mul_left_comm]
  have hdata := hone.2.2
  have hpairs : ∀ b ∈ pairs w.geometry,
      (eraseOne w (dataStart w.geometry / w.geometry.chipBlocks) b).2 =
        [walked w.geometry (2 * b), walked w.geometry (2 * b + 1)] := by
    intro b hb
    rw [pairs, mem_range'_1] at hb
    have hlt := Nat.mod_lt (2 * b) w.geometry.chipBlocks_pos
    have heven : 2 * b % w.geometry.chipBlocks = 2 * (b % w.simuBlocks) := by
      rw [htwo, Nat.mul_mod_mul_left]
    have hodd : (2 * b + 1) % w.geometry.chipBlocks = 2 * (b % w.simuBlocks) + 1 := by
      rw [Nat.add_mod, heven, Nat.mod_eq_of_lt (show 1 < w.geometry.chipBlocks by omega),
        Nat.mod_eq_of_lt (by omega)]
    -- the place of the first block of the pair on the last chip
    have hplace := hone.walked_eq (b := 2 * b) (by omega) (by omega)
    rw [walked, heven, Prod.mk.injEq] at hplace
    have hissued : w.hasMultiErase = true ∨
        w.eraseOk (dataStart w.geometry / w.geometry.chipBlocks)
          (2 * (b % w.simuBlocks)) = true := by
      cases hhas : w.hasMultiErase with
      | true => exact .inl rfl
      | false =>
        have hmask := hone.1
        have hlast := hone.2.1
        rw [hplace.1]
        exact .inr (hok hhas _ (by omega) (by omega) (by omega))
    rw [eraseOne_multi w hshift h, if_pos hissued, walked, walked, heven, hodd]
  rw [flatMap_congr hpairs, pairs, flatMap_pairs,
    show 2 * (dataStart w.geometry / 2) = dataStart w.geometry by omega]
  congr 2
  omega

theorem dataErased_multi (h : w.simulateMultiplane = true) :
    (∃ ret log, eraseData w = some (ret, log) ∧ DataErased w.geometry log) ↔
      OneChip w.geometry ∧ Issued w := by
  have hstart := dataStart_bounds w.geometry
  by_cases hshift : w.geometry.simuEraseShift ≤ w.geometry.chipShift
  · have htwo := chipBlocks_eq_two_mul w hshift
    have hhalf : 0 < w.simuBlocks := by
      unfold World.simuBlocks
      positivity
    have hchip : dataStart w.geometry / 2 / w.simuBlocks =
        dataStart w.geometry / w.geometry.chipBlocks := by
      rw [Nat.div_div_eq_div_mul, htwo]
    obtain ⟨code, herase⟩ : ∃ ret, eraseData w = some (ret, (pairs w.geometry).flatMap fun b =>
        (eraseOne w (dataStart w.geometry / w.geometry.chipBlocks) b).2) := by
      rw [eraseData_eq, eraseBlock]
      simp only [h, if_true, if_neg (not_lt.mpr hshift), Nat.shiftRight_eq_div_pow, Nat.pow_one]
      rw [show 2 ^ (w.geometry.chipShift - w.geometry.simuEraseShift) = w.simuBlocks from rfl,
        hchip]
      exact ⟨_, congrArg some (Prod.ext rfl (eraseBlockLoop_log _ _ _ _))⟩
    constructor
    · rintro ⟨ret, log, hret, hdata⟩
      rw [herase] at hret
      injection hret with hret
      injection hret with _ hlog
      have hmem : ∀ e ∈ log, ∃ x < w.simuBlocks,
          e.1 = dataStart w.geometry / w.geometry.chipBlocks ∧
          (e.2 = 2 * x ∨ e.2 = 2 * x + 1 ∧ (w.hasMultiErase = true ∨
            w.eraseOk (dataStart w.geometry / w.geometry.chipBlocks) (2 * x) = true)) := by
        intro e he
        rw [← hlog] at he
        obtain ⟨b, -, he⟩ := mem_flatMap.mp he
        refine ⟨b % w.simuBlocks, Nat.mod_lt _ hhalf, ?_⟩
        rw [eraseOne_multi w hshift h] at he
        rcases mem_cons.mp he with rfl | he
        · exact ⟨rfl, .inl rfl⟩
        split at he
        case isTrue hissued =>
          rw [mem_singleton.mp he]
          exact ⟨rfl, .inr ⟨rfl, hissued⟩⟩
        · cases he
      have hone : OneChip w.geometry := by
        refine geometry_of_dataErased (fun hnil => ?_) (fun e he => ?_) hdata
        · -- the walk makes at least one turn
          obtain ⟨k, hk⟩ : ∃ k, max 1 (w.geometry.chips * w.geometry.blocks / 2 -
            dataStart w.geometry / 2) = k + 1 := ⟨_, (Nat.sub_add_cancel (le_max_left 1 _)).symm⟩
          rw [hnil, pairs, hk, range'_succ, flatMap_cons, eraseOne_multi w hshift h] at hlog
          cases hlog
        · obtain ⟨x, hx, hchip, hblock⟩ := hmem e he
          exact ⟨hchip, by omega⟩
      refine ⟨hone, fun hno block hlt heven hle => ?_⟩
      -- the second block of the pair has been erased as well
      have hpair : block + 1 < w.geometry.blocks := by
        have := hone.1
        omega
      have hcount := hdata (w.geometry.chips - 1) (block + 1)
      rw [if_pos ⟨by have := w.geometry.chips_pos; omega, hpair, by omega⟩] at hcount
      obtain ⟨x, -, hchip', hblock⟩ := hmem (w.geometry.chips - 1, block + 1)
        (count_pos_iff.mp (by omega))
      rcases hblock with hblock | ⟨hblock, hissued⟩
      · omega
      · rw [hno, ← hchip', show 2 * x = block by omega] at hissued
        exact hissued.resolve_left (by decide)
    · rintro ⟨hone, hok⟩
      refine ⟨_, _, herase, ?_⟩
      rw [log_of_issued hshift h hone hok]
      exact dataErased_of_geometry hone
  · -- a chip of one block has no data area
    have hsmall : w.geometry.chipBlocks = 1 := by
      have := w.geometry.chipShift_spec.1
      unfold Geometry.chipBlocks
      unfold Geometry.simuEraseShift Geometry.simuPagesizeShift at hshift
      unfold Geometry.eraseShift at this ⊢
      rw [show w.geometry.chipShift -
        (w.geometry.pagesizeShift + w.geometry.pagesPerBlkShift) = 0 by omega, pow_zero]
    have hnone : eraseData w = none := by
      unfold eraseData eraseBlock
      simp only [h, if_true, if_pos (not_le.mp hshift)]
    constructor
    · rintro ⟨ret, log, hret, -⟩
      rw [hnone] at hret
      cases hret
    · rintro ⟨⟨hmask, -, hdata⟩, -⟩
      rw [← hmask, hsmall] at hdata
      have := w.geometry.chips_le
      omega

end

/-- The data area is erased as it should be exactly when it lies on one chip that the masks cover
    and, with simulated planes, the erase of no first block of a pair fails. -/
theorem dataErased_iff (w : World) :
    (∃ ret log, eraseData w = some (ret, log) ∧ DataErased w.geometry log) ↔
      OneChip w.geometry ∧
        (w.simulateMultiplane = true → w.hasMultiErase = false → ∀ block < w.geometry.blocks,
          block % 2 = 0 →
            dataStart w.geometry ≤ (w.geometry.chips - 1) * w.geometry.blocks + block →
            w.eraseOk (w.geometry.chips - 1) block = true) := by
  cases hmulti : w.simulateMultiplane with
  | false =>
    rw [dataErased_single hmulti]
    exact ⟨fun h => ⟨h, fun hc => absurd hc (by decide)⟩, And.left⟩
  | true =>
    rw [dataErased_multi hmulti]
    exact and_congr_right fun _ => ⟨fun h _ => h, fun h => h rfl⟩

/-- Two chips of 1024 blocks of 64 pages of 2 KiB, without faults. -/
def twoChips : World where
  geometry :=
    { pagesizeShift := 11
      pagesPerBlkShift := 6
      blocks := 1024
      chips := 2
      blocks_pos := by decide
      chips_pos := Nat.two_pos
      chips_le := Nat.le_add_right 2 2
      pages_two := Nat.le_add_left 1 5
      shift_le := Nat.le_add_right 17 13
      rows_le := by decide }
  simulateMultiplane := false
  hasMultiErase := false
  eraseOk := fun _ _ => true

/-- The walk over two chips erases the first boot block, and leaves out the whole second chip. -/
theorem eraseData_two_chips :
    ∃ ret log, eraseData twoChips = some (ret, log) ∧ (0, 0) ∈ log ∧
      ∀ block, (1, block) ∉ log := by
  obtain ⟨ret, herase⟩ := eraseData_single (w := twoChips) rfl
  have hchip : dataStart twoChips.geometry / twoChips.geometry.chipBlocks = 0 := by decide +kernel
  have hblocks : twoChips.geometry.chipBlocks = 1024 := by decide +kernel
  have hstart : dataStart twoChips.geometry = 48 := by decide +kernel
  have hwalked : walked twoChips.geometry = fun b => (0, b % 1024) := by
    funext b
    rw [walked, hchip, hblocks]
  rw [hwalked, hstart] at herase
  refine ⟨ret, _, herase, ?_, fun block hmem => ?_⟩
  · exact List.mem_map.mpr ⟨1024, mem_range'_1.mpr (by decide), by decide⟩
  · obtain ⟨b, -, heq⟩ := List.mem_map.mp hmem
    cases heq

end Brandy.RawNand
