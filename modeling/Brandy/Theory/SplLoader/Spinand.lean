import Brandy.Theory.SplLoader.Verified

/-!
# Copies on SPI NAND

The loader for SPI NAND reads the first sector of a block into the load buffer, and if that has the
magic and a length it likes, it reads the whole copy from this block on over it. The copy begins
with the same sector, unless the block is found bad when it is asked the second time.

## Main definitions

* `HeadOf`: The first sector of a block is in the load buffer.
* `Steady`: A block that is searched is found bad every time or never.

## Theorems

* `loadBoot1Copy_headOf`: The copy begins with the sector that was looked at.
* `tryBlock_valid`: A copy that is found is in order.
* `loadToc1FromSpinand_loads`: So is what the loader returns.
-/

namespace Brandy.SplLoader

open List Option

section

variable (w : World)

theorem World.pageSize_pos : 512 ≤ w.pageSize := by
  have h := w.sctsPerPage_pos
  unfold World.pageSize
  omega

theorem World.blockSize_div : w.blockSize / 512 = w.pagesPerBlock * w.sctsPerPage := by
  unfold World.blockSize
  omega

theorem World.sectors_pos : 0 < w.pagesPerBlock * w.sctsPerPage :=
  mul_pos w.pagesPerBlock_pos w.sctsPerPage_pos

theorem World.blockSize_ge : 512 ≤ w.blockSize := by
  have h := w.sectors_pos
  unfold World.blockSize
  omega

theorem readSinglePage_sameHead (block page dataSize : Nat) {d : Nat} (hd : 512 ≤ d)
    (hlen : dataSize = 0 ∨ d + dataSize ≤ 2 ^ 32) (s : St) :
    SameHead w.bootpkgBase s.ram
      (readSinglePage w block page dataSize (w.bootpkgBase + BitVec.ofNat 32 d) s).2.ram := by
  unfold readSinglePage
  rcases hlen with rfl | hlen
  · have hnil : SameHead w.bootpkgBase s.ram
        (s.ram.write (w.bootpkgBase + BitVec.ofNat 32 d) []) := SameHead.of_write_nil
    split <;> exact hnil
  split
  · exact sameHead_write hd (by rwa [length_map, length_range])
  · refine sameHead_write hd ?_
    rw [length_take]
    omega

theorem readPages_sameHead (block startPage total off : Nat) (htotal : off + total ≤ 2 ^ 32)
    (pages i : Nat) (hi : 512 ≤ off + w.pageSize * i) (s : St) :
    SameHead w.bootpkgBase s.ram
      (readPages w block startPage total (w.bootpkgBase + BitVec.ofNat 32 off) pages i
        s).2.ram := by
  induction pages generalizing i s with
  | zero => exact SameHead.refl
  | succ pages ih =>
    have hpage := readSinglePage_sameHead w block (startPage + i)
      (min w.pageSize (total - w.pageSize * i)) hi (by omega) s
    rw [← Ram.add_ofNat_add] at hpage
    simp only [readPages]
    split
    · exact hpage
    · refine hpage.trans (ih (i + 1) ?_ _)
      rw [mul_add]
      omega

theorem loadBoot1Copy_sameHead {size : Nat} (hsize : size < 2 ^ 32) (fuel blk off : Nat)
    (hoff : 512 ≤ off) (s : St) {r : Bool × St} (h : loadBoot1Copy w size fuel blk off s = some r) :
    SameHead w.bootpkgBase s.ram r.2.ram := by
  induction fuel generalizing blk off s with
  | zero => cases h
  | succ fuel ih =>
    simp only [loadBoot1Copy] at h
    have hread := fun (hlt : off < size) block page pages => readPages_sameHead w block page
      (min (size - off) w.blockSize / 512 * 512) off (by omega) pages 0 hoff
        (checkBadBlock w blk s).2
    split_ifs at h with hlt
    · exact ih _ off hoff (checkBadBlock w blk s).2 h
    · obtain rfl := some.inj h
      exact hread hlt _ _ _
    · exact (hread hlt _ _ _).trans (ih _ _ (by omega) _ h)
    · obtain rfl := some.inj h
      exact SameHead.refl

/-- The first sector in the load buffer is the one of a block. -/
def HeadOf (blk : Nat) (ram : Ram 32) : Prop :=
  ∀ off < 512, ram (w.bootpkgBase + BitVec.ofNat 32 off) = w.nand blk 0 off

variable {w}

theorem HeadOf.of_sameHead {blk : Nat} {ram ram' : Ram 32} (h : HeadOf w blk ram)
    (h' : SameHead w.bootpkgBase ram ram') : HeadOf w blk ram' :=
  fun off hoff => (h' off hoff).trans (h off hoff)

variable (w)

theorem readSinglePage_headOf (block dataSize : Nat) (hlo : 512 ≤ dataSize)
    (hhi : dataSize ≤ 2 ^ 32) {s : St}
    (h : (readSinglePage w block 0 dataSize w.bootpkgBase s).1 = true) :
    HeadOf w block (readSinglePage w block 0 dataSize w.bootpkgBase s).2.ram := by
  intro off hoff
  have hlen : ((List.range dataSize).map (w.nand block 0)).length = dataSize := by
    rw [length_map, length_range]
  unfold readSinglePage at h ⊢
  split
  · refine (Ram.write_of_lt (by omega) (by omega)).trans ?_
    rw [getD_eq_getElem?_getD, getElem?_map, getElem?_range (by omega)]
    rfl
  · next hfault => simp only [hfault, Bool.false_eq_true] at h

theorem readPages_headOf (block pages : Nat) {total : Nat} (hlo : 512 ≤ total)
    (hhi : total ≤ 2 ^ 32) {s : St}
    (h : (readPages w block 0 total w.bootpkgBase (pages + 1) 0 s).1 = true) :
    HeadOf w block (readPages w block 0 total w.bootpkgBase (pages + 1) 0 s).2.ram := by
  have hpage := w.pageSize_pos
  have haddr : w.bootpkgBase + BitVec.ofNat 32 (w.pageSize * 0) = w.bootpkgBase := by
    rw [mul_zero, BitVec.add_zero]
  have hbase : w.bootpkgBase = w.bootpkgBase + BitVec.ofNat 32 0 := by
    rw [BitVec.add_zero]
  simp only [readPages, add_zero, haddr] at h ⊢
  split at h
  · cases h
  next hok =>
    rw [Bool.not_eq_false] at hok
    rw [if_neg (by rw [hok]; decide)]
    refine (readSinglePage_headOf w block _ (by omega) (by omega) hok).of_sameHead ?_
    have hrest := readPages_sameHead w block 0 total 0 (by omega) pages 1 (by omega)
      (readSinglePage w block 0 (min w.pageSize (total - w.pageSize * 0)) w.bootpkgBase s).2
    rwa [← hbase] at hrest

theorem spiNandRead_headOf {blk n : Nat} (hn : 0 < n) (hhi : n * 512 ≤ 2 ^ 32) {s : St}
    (h : (spiNandRead w (blk * (w.pagesPerBlock * w.sctsPerPage)) w.bootpkgBase n s).1 = true) :
    HeadOf w blk
      (spiNandRead w (blk * (w.pagesPerBlock * w.sctsPerPage)) w.bootpkgBase n s).2.ram := by
  have hpages : (n + w.sctsPerPage - 1) / w.sctsPerPage =
      (n - 1) / w.sctsPerPage + 1 := by
    rw [show n + w.sctsPerPage - 1 = n - 1 + w.sctsPerPage by omega,
      Nat.add_div_right _ w.sctsPerPage_pos]
  simp only [spiNandRead, w.blockSize_div, Nat.mul_div_cancel _ w.sectors_pos, Nat.mul_mod_left,
    Nat.zero_div, hpages] at h ⊢
  exact readPages_headOf w blk _ (by omega) hhi h

/-- A block is found bad by a read with a number. -/
def isBad (n blk : Nat) : Bool :=
  match w.oob n blk with
  | some b => b != 0xff
  | none => false

/-- The blocks that are searched are found bad every time or never. -/
def Steady : Prop := ∀ i ∈ searchedBlocks w, ∀ n m, isBad w n i = isBad w m i

theorem sector_of_block {i : Nat} (hi : i * w.blockSize < 2 ^ 32) :
    i * (w.blockSize / 512) % 2 ^ 32 = i * (w.pagesPerBlock * w.sctsPerPage) ∧
      i * w.blockSize % 2 ^ 32 / 512 = i * (w.pagesPerBlock * w.sctsPerPage) := by
  have heq : i * w.blockSize = i * (w.pagesPerBlock * w.sctsPerPage) * 512 := by
    rw [World.blockSize, ← mul_assoc]
  rw [w.blockSize_div, heq]
  omega

theorem loadBoot1Copy_headOf {size fuel i : Nat} (hsize : size < 2 ^ 32) (hlo : 512 ≤ size)
    (hi : i * w.blockSize < 2 ^ 32) {s s' : St} (hkept : (checkBadBlock w i s).1 = false)
    (h : loadBoot1Copy w size fuel i 0 s = some (true, s')) : HeadOf w i s'.ram := by
  have hblock := w.blockSize_ge
  have hbase : w.bootpkgBase + BitVec.ofNat 32 0 = w.bootpkgBase := by
    rw [BitVec.add_zero]
  cases fuel with
  | zero => cases h
  | succ fuel =>
    simp only [loadBoot1Copy, hkept, Bool.false_eq_true, if_false, hbase,
      (sector_of_block w hi).2] at h
    rw [if_pos (by omega)] at h
    split at h
    · cases h
    · next hok =>
        rw [Bool.not_eq_false] at hok
        exact (spiNandRead_headOf w (by omega) (by omega) hok).of_sameHead
          (loadBoot1Copy_sameHead w hsize _ _ _ (by omega) _ h)

theorem searchedBlocks_lt {i : Nat} (hi : i ∈ searchedBlocks w) : i * w.blockSize < 2 ^ 32 := by
  rw [searchedBlocks, mem_range'_1] at hi
  exact (Nat.mul_le_mul_right _ (by omega)).trans_lt w.ubootLastBlk_lt

theorem tryBlock_valid {fuel i : Nat} (hmem : i ∈ searchedBlocks w) {s s' : St}
    (hsteady : Steady w) (h : tryBlock w fuel i s = some (true, s')) : Valid w s'.ram := by
  have hi := searchedBlocks_lt w hmem
  simp only [tryBlock] at h
  split_ifs at h with hbad hhead hmagic halign
  iterate 4 cases h
  -- the block is not found bad when it is asked again
  have hkept : ∀ t, (checkBadBlock w i t).1 = false := fun t =>
    (hsteady i hmem t.reads s.reads).trans (Bool.eq_false_of_not_eq_true hbad)
  rw [Bool.not_eq_false] at hhead
  rw [not_not] at hmagic
  rw [not_not, alignSize] at halign
  rw [(sector_of_block w hi).1] at hhead hmagic halign h
  generalize hs : (spiNandRead w (i * (w.pagesPerBlock * w.sctsPerPage)) w.bootpkgBase 1
    (checkBadBlock w i s).2).2 = s₁ at hmagic halign h
  have hhead₁ : HeadOf w i s₁.ram := hs ▸ spiNandRead_headOf w (by decide) (by decide) hhead
  have hlt : validLen w s₁.ram < 2 ^ 32 := word_lt
  split at h
  · cases h
  · cases h
  · next s₂ hload =>
      have hpair := some.inj h
      obtain rfl : s₂ = s' := congrArg Prod.snd hpair
      have hsum : verifyAddsum s₂.ram w.bootpkgBase (validLen w s₁.ram) = 0 :=
        eq_of_beq (congrArg Prod.fst hpair)
      have hsame : SameHead w.bootpkgBase s₁.ram s₂.ram := by
        rcases Nat.eq_zero_or_pos (validLen w s₁.ram) with hzero | hpos
        · -- nothing is loaded over the first sector
          rw [hzero] at hload
          cases fuel with
          | zero => cases hload
          | succ fuel =>
            obtain rfl : s₁ = s₂ := congrArg Prod.snd (some.inj hload)
            exact SameHead.refl
        · have hhead₂ := loadBoot1Copy_headOf w hlt (by omega) hi (hkept s₁) hload
          exact fun off hoff => (hhead₂ off hoff).trans (hhead₁ off hoff).symm
      exact ⟨hsame.magic.trans hmagic, by rw [hsame.validLen]; exact hsum⟩

theorem findCopy_found {fuel : Nat} {is : List Nat} {s s₀ s' : St} {i : Nat}
    (h : findCopy w fuel is s = some (some (i, s₀), s')) :
    i ∈ is ∧ tryBlock w fuel i s₀ = some (true, s') := by
  induction is generalizing s with
  | nil => cases h
  | cons j is ih =>
    simp only [findCopy] at h
    split at h
    · cases h
    · next s₁ htry =>
        have hpair := some.inj h
        obtain rfl : s₁ = s' := congrArg Prod.snd hpair
        have hblock := some.inj (congrArg Prod.fst hpair)
        obtain rfl : j = i := congrArg Prod.fst hblock
        obtain rfl : s = s₀ := congrArg Prod.snd hblock
        exact ⟨mem_cons_self, htry⟩
    · obtain ⟨hmem, htry⟩ := ih h
      exact ⟨mem_cons_of_mem _ hmem, htry⟩

theorem loadToc1FromSpinand_loads (h : Steady w) {s : St} {fuel : Nat} {r : Int × St}
    (hr : loadToc1FromSpinand w fuel s = some r) : Loads w r := by
  unfold loadToc1FromSpinand at hr
  split at hr
  · obtain rfl := some.inj hr
    exact loads_error w
  split at hr
  · cases hr
  · next found s' hfound =>
      obtain rfl := some.inj hr
      obtain ⟨hmem, htry⟩ := findCopy_found w hfound
      exact fun _ => tryBlock_valid w hmem h htry
  · obtain rfl := some.inj hr
    exact loads_error w

end

end Brandy.SplLoader
