import Brandy.Theory.SplLoader.Checksum
import Brandy.Theory.SplLoader.Spinand

/-!
# Readable Copies

That a copy of the boot package that is readable and valid is loaded. On SD/eMMC a copy is a range
of sectors. On SPI NAND it is spread over the good blocks from one on.

## Main definitions

* `Boots`: The loader for SD/eMMC succeeds.
* `CopyFrom`, `GoodNandCopy`: The bytes of a copy on SPI NAND, and a copy in order.

## Theorems

* `boots_iff`: When the backup on SD/eMMC boots.
* `loadBoot1Copy_of_copyFrom`: A copy on SPI NAND is loaded.
-/

namespace Brandy.SplLoader

open List

open Memory (leValue leBytes)

section

variable (w : World)

/-- The loader for SD/eMMC returns 0 with a valid package in the buffer. -/
def Boots (s : St) : Prop :=
  (loadToc1FromSdmmc w s).1 = 0 ∧ Valid w (loadToc1FromSdmmc w s).2.ram

variable {w}

theorem boots_iff (h : GoodCopy w w.toc1BakStart) (s : St) :
    Boots w s ↔
      w.mmcInit = 0 ∧ w.toc1Start ≠ 0 ∧ (loadCopy w w.toc1Start s).1 ≠ .readError := by
  have hloads := loadToc1FromSdmmc_loads w s
  have hboots : Boots w s ↔ (loadToc1FromSdmmc w s).1 = 0 :=
    ⟨fun hb => hb.1, fun hzero => ⟨hzero, hloads hzero⟩⟩
  rw [hboots, loadToc1FromSdmmc]
  by_cases hinit : w.mmcInit = 0
  case neg =>
    rw [if_pos hinit]
    exact iff_of_false (fun h => by cases h) fun h => hinit h.1
  rw [if_neg (not_not.mpr hinit), loadCopies]
  by_cases hstart : w.toc1Start = 0
  · rw [if_pos hstart]
    exact iff_of_false (fun h => by cases h) fun h => h.2.1 hstart
  rw [if_neg hstart]
  rcases loadCopy w w.toc1Start s with ⟨attempt, s'⟩
  cases attempt with
  | readError => exact iff_of_false (fun h => by cases h) fun h => h.2.2 rfl
  | good => exact iff_of_true rfl ⟨hinit, hstart, fun h => by cases h⟩
  | bad =>
    refine iff_of_true ?_ ⟨hinit, hstart, fun h => by cases h⟩
    have hgood := loadCopy_good h s'
    rcases hcopy : loadCopy w w.toc1BakStart s' with ⟨attempt, s''⟩
    rw [hcopy] at hgood
    obtain rfl : attempt = .good := hgood
    simp only [loadCopies, if_neg h.start_ne, hcopy]

variable (w)

/-- The first `k` bytes of a block. -/
def blockBytes (blk k : Nat) : List UInt8 :=
  (List.range k).map fun i => w.nand blk (i / w.pageSize) (i % w.pageSize)

/-- The bytes of a copy from a block on. Blocks that are always bad are left out, and the others can
    always be read. -/
inductive CopyFrom : Nat → Nat → List UInt8 → Prop
  | nil (blk : Nat) : CopyFrom blk 0 []
  | skip {blk rest : Nat} {bs : List UInt8} : 0 < rest → (∀ n, isBad w n blk = true) →
      CopyFrom ((blk + 1) % 2 ^ 32) rest bs → CopyFrom blk rest bs
  | take {blk rest : Nat} {bs : List UInt8} : 0 < rest → (∀ n, isBad w n blk = false) →
      blk * w.blockSize < 2 ^ 32 →
      (∀ n, ∀ page < w.pagesPerBlock, w.nandFault n blk page = none) →
      CopyFrom ((blk + 1) % 2 ^ 32) (rest - min rest w.blockSize) bs →
      CopyFrom blk rest (blockBytes w blk (min rest w.blockSize) ++ bs)

/-- A word of the first page of a block. -/
def nandWord (blk off : Nat) : Nat :=
  leValue ((List.range 4).map fun i => w.nand blk 0 (off + i))

/-- A copy that can be read at any time, with the right magic and checksum. -/
structure GoodNandCopy (j : Nat) : Prop where
  searched : j ∈ searchedBlocks w
  notBad : ∀ n, isBad w n j = false
  headReadable : ∀ n, w.nandFault n j 0 = none
  magic_eq : nandWord w j 16 = tocMainInfoMagic
  copy : ∃ bs, CopyFrom w j (nandWord w j 36) bs ∧ ∀ ram : Ram 32,
    verifyAddsum (ram.write w.bootpkgBase bs) w.bootpkgBase (nandWord w j 36) = 0

theorem length_blockBytes (blk k : Nat) : (blockBytes w blk k).length = k := by
  rw [blockBytes, length_map, length_range]

variable {w} {bs : List UInt8}

theorem CopyFrom.length {blk rest : Nat} (h : CopyFrom w blk rest bs) : bs.length = rest := by
  induction h with
  | nil => rfl
  | skip _ _ _ ih => exact ih
  | take _ _ _ _ _ ih =>
    rw [length_append, length_blockBytes, ih]
    omega

variable (w)

theorem drop_blockBytes (blk total i : Nat) :
    (blockBytes w blk total).drop (w.pageSize * i) =
      (List.range (min w.pageSize (total - w.pageSize * i))).map (w.nand blk i) ++
        (blockBytes w blk total).drop (w.pageSize * (i + 1)) := by
  refine ext_getElem? fun k => ?_
  rw [getElem?_drop, blockBytes, getElem?_map]
  by_cases hk : k < min w.pageSize (total - w.pageSize * i)
  · rw [getElem?_append_left (by rwa [length_map, length_range]),
      getElem?_range (by omega), getElem?_map, getElem?_range hk, Option.map_some,
      Option.map_some, Nat.mul_add_div (by omega), Nat.mul_add_mod, Nat.mod_eq_of_lt (by omega),
      Nat.div_eq_of_lt (by omega), add_zero]
  · rw [getElem?_append_right (by rw [length_map, length_range]; omega),
      length_map, length_range, getElem?_drop, getElem?_map, mul_add]
    by_cases htotal : w.pageSize * i + w.pageSize ≤ total
    · rw [show min w.pageSize (total - w.pageSize * i) = w.pageSize by omega,
        show w.pageSize * i + w.pageSize * 1 + (k - w.pageSize) = w.pageSize * i + k by omega]
    · rw [getElem?_eq_none (by rw [length_range]; omega),
        getElem?_eq_none (by rw [length_range]; omega)]

theorem readPages_of_readable (blk total : Nat) (buffer : BitVec 32) (htotal : total ≤ 2 ^ 32)
    (pages i : Nat) (hpages : total ≤ w.pageSize * (i + pages)) (s : St)
    (h : ∀ n, ∀ page < i + pages, w.nandFault n blk page = none) :
    (readPages w blk 0 total buffer pages i s).1 = true ∧
      (readPages w blk 0 total buffer pages i s).2.ram =
        s.ram.write (buffer + BitVec.ofNat 32 (w.pageSize * i))
          ((blockBytes w blk total).drop (w.pageSize * i)) := by
  induction pages generalizing i s with
  | zero =>
    rw [drop_eq_nil_of_le (by rw [length_blockBytes]; exact hpages), Ram.write_nil]
    exact ⟨rfl, rfl⟩
  | succ pages ih =>
    have hpage := h s.reads i (by omega)
    have hstep := ih (i + 1) (by rwa [add_assoc, add_comm 1])
      { s with
        reads := s.reads + 1
        ram := s.ram.write (buffer + BitVec.ofNat 32 (w.pageSize * i))
          ((List.range (min w.pageSize (total - w.pageSize * i))).map (w.nand blk i)) }
      (fun n page hp => h n page (by omega))
    simp only [readPages, readSinglePage, zero_add, hpage, Bool.true_eq_false, if_false]
    refine ⟨hstep.1, hstep.2.trans ?_⟩
    rw [drop_blockBytes w blk total i]
    by_cases hlast : total ≤ w.pageSize * (i + 1)
    · rw [drop_eq_nil_of_le (by rw [length_blockBytes]; exact hlast), Ram.write_nil,
        append_nil]
    have hfull : min w.pageSize (total - w.pageSize * i) = w.pageSize := by
      rw [mul_add] at hlast
      omega
    have happend := Ram.write_append s.ram (buffer + BitVec.ofNat 32 (w.pageSize * i))
      ((List.range w.pageSize).map (w.nand blk i))
      ((blockBytes w blk total).drop (w.pageSize * (i + 1)))
      (by rw [length_map, length_range, length_drop, length_blockBytes,
            mul_add]; omega)
    rw [length_map, length_range, Ram.add_ofNat_add, ← Nat.mul_succ] at happend
    rw [hfull]
    exact happend

theorem spiNandRead_of_readable {blk n : Nat} (hn : n * 512 ≤ w.blockSize)
    (hhi : n * 512 ≤ 2 ^ 32) (buffer : BitVec 32) (s : St)
    (h : ∀ m, ∀ page < w.pagesPerBlock, w.nandFault m blk page = none) :
    (spiNandRead w (blk * (w.pagesPerBlock * w.sctsPerPage)) buffer n s).1 = true ∧
      (spiNandRead w (blk * (w.pagesPerBlock * w.sctsPerPage)) buffer n s).2.ram =
        s.ram.write buffer (blockBytes w blk (n * 512)) := by
  have hpos := w.sctsPerPage_pos
  have hceil : (n + w.sctsPerPage - 1) / w.sctsPerPage ≤ w.pagesPerBlock := by
    have hle : n ≤ w.pagesPerBlock * w.sctsPerPage := by
      unfold World.blockSize at hn
      omega
    rw [Nat.div_le_iff_le_mul_add_pred hpos, mul_comm]
    omega
  have henough : n * 512 ≤ w.pageSize * (0 + (n + w.sctsPerPage - 1) / w.sctsPerPage) := by
    have hdiv := Nat.div_add_mod (n + w.sctsPerPage - 1) w.sctsPerPage
    have hmod := Nat.mod_lt (n + w.sctsPerPage - 1) hpos
    rw [World.pageSize, zero_add, mul_right_comm]
    exact Nat.mul_le_mul_right 512 (by omega)
  have hread := readPages_of_readable w blk (n * 512) buffer hhi _ 0 henough s
    (fun m page hp => h m page (by omega))
  rw [mul_zero, BitVec.add_zero, drop_zero] at hread
  simp only [spiNandRead, w.blockSize_div, Nat.mul_div_cancel _ w.sectors_pos, Nat.mul_mod_left,
    Nat.zero_div]
  exact hread

theorem loadBoot1Copy_of_copyFrom {blk rest : Nat} (h : CopyFrom w blk rest bs) (off : Nat)
    (hsize : off + rest < 2 ^ 32) (hrest : rest % 512 = 0) (s : St) :
    ∃ fuel s', loadBoot1Copy w (off + rest) fuel blk off s = some (true, s') ∧
      s'.ram = s.ram.write (w.bootpkgBase + BitVec.ofNat 32 off) bs := by
  induction h generalizing off s with
  | nil blk =>
    refine ⟨1, s, ?_, (Ram.write_nil _ _).symm⟩
    rw [loadBoot1Copy, if_neg (by omega)]
  | @skip blk rest bs hpos hbad _ ih =>
    obtain ⟨fuel, s', hload, hram⟩ := ih off hsize hrest (checkBadBlock w blk s).2
    refine ⟨fuel + 1, s', ?_, hram⟩
    have hcheck : (checkBadBlock w blk s).1 = true := hbad s.reads
    simp only [loadBoot1Copy, hcheck, if_true, if_pos (show off < off + rest by omega)]
    exact hload
  | @take blk rest bs hpos hbad hblk hpages hrec ih =>
    have hunit : w.blockSize % 512 = 0 := Nat.mul_mod_left _ _
    have hn : min rest w.blockSize / 512 * 512 = min rest w.blockSize := by omega
    obtain ⟨hread, hread'⟩ := spiNandRead_of_readable w (n := min rest w.blockSize / 512)
      (by omega) (by omega) (w.bootpkgBase + BitVec.ofNat 32 off) (checkBadBlock w blk s).2 hpages
    obtain ⟨fuel, s', hload, hram⟩ := ih (off + min rest w.blockSize) (by omega)
      (by omega) (spiNandRead w (blk * (w.pagesPerBlock * w.sctsPerPage))
        (w.bootpkgBase + BitVec.ofNat 32 off) (min rest w.blockSize / 512)
        (checkBadBlock w blk s).2).2
    have hcheck : (checkBadBlock w blk s).1 = false := hbad s.reads
    refine ⟨fuel + 1, s', ?_, ?_⟩
    · simp only [loadBoot1Copy, hcheck, Bool.false_eq_true, if_false,
        if_pos (show off < off + rest by omega), Nat.add_sub_cancel_left,
        (sector_of_block w hblk).2, hread, Bool.true_eq_false]
      rw [show off + rest = off + min rest w.blockSize + (rest - min rest w.blockSize) by omega]
      exact hload
    · have happend := Ram.write_append s.ram (w.bootpkgBase + BitVec.ofNat 32 off)
        (blockBytes w blk (min rest w.blockSize)) bs
        (by rw [length_blockBytes, hrec.length]; omega)
      rw [length_blockBytes, Ram.add_ofNat_add] at happend
      rw [hram, hread', hn]
      exact happend

end

end Brandy.SplLoader
