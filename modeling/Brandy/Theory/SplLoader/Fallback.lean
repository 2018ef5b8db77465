import Brandy.Theory.SplLoader.Copies

/-!
# Backup Copies

On SD/eMMC a copy with a wrong magic or checksum leads to the next one, but a read that fails ends
the search. On SPI NAND both lead to the next block, and the search ends: the loop that skips bad
blocks goes around all block numbers, and the block of the valid copy is not a bad one.

## Main definitions

* `NandBoots`: The loader for SPI NAND succeeds.
* `Finds`: What the search over the blocks finds.

## Theorems

* `loadBoot1Copy_terminates`, `findCopy_terminates`: The search ends.
* `GoodNandCopy.finds`: It finds a copy.
* `backup_boots`: When a valid backup boots.
-/

namespace Brandy.SplLoader

open Option List

open Memory (leValue leBytes wordSum)

section

variable (w : World)

variable {fuel : Nat}

theorem loadBoot1Copy_mono {size fuel' blk off : Nat} {s : St} {r : Bool × St} (hle : fuel ≤ fuel')
    (h : loadBoot1Copy w size fuel blk off s = some r) :
    loadBoot1Copy w size fuel' blk off s = some r := by
  induction fuel generalizing fuel' blk off s with
  | zero => cases h
  | succ fuel ih =>
    obtain ⟨fuel', rfl⟩ : ∃ k, fuel' = k + 1 := ⟨fuel' - 1, by omega⟩
    simp only [loadBoot1Copy] at h ⊢
    split_ifs at h ⊢
    · exact ih (by omega) h
    · exact h
    · exact ih (by omega) h
    · exact h

theorem tryBlock_mono {fuel' i : Nat} {s : St} {r : Bool × St} (hle : fuel ≤ fuel')
    (h : tryBlock w fuel i s = some r) : tryBlock w fuel' i s = some r := by
  simp only [tryBlock] at h ⊢
  -- only the last branch has a fuel
  split_ifs at h ⊢
  iterate 4 exact h
  split at h
  · cases h
  · next hload => rw [loadBoot1Copy_mono w hle hload]; exact h
  · next hload => rw [loadBoot1Copy_mono w hle hload]; exact h

variable {is : List Nat}

theorem findCopy_mono {fuel' : Nat} {s : St} {r : Option (Nat × St) × St} (hle : fuel ≤ fuel')
    (h : findCopy w fuel is s = some r) : findCopy w fuel' is s = some r := by
  induction is generalizing s with
  | nil => exact h
  | cons i is ih =>
    simp only [findCopy] at h ⊢
    split at h
    · cases h
    · next htry => rw [tryBlock_mono w hle htry]; exact h
    · next htry => rw [tryBlock_mono w hle htry]; exact ih h

variable {j : Nat}

section

variable (hj : j < 2 ^ 32) (hbad : ∀ n, isBad w n j = false)
include hj hbad

theorem loadBoot1Copy_terminates (size blk off : Nat) (hblk : blk < 2 ^ 32) (s : St) :
    ∃ fuel r, loadBoot1Copy w size fuel blk off s = some r := by
  have hblock := w.blockSize_ge
  -- the outer induction is on the bytes that are left, the inner one on the way to the good block
  induction hrest : size - off using Nat.strong_induction_on generalizing blk off s with
  | _ rest ihRest =>
  induction hdist : (2 ^ 32 - blk + j) % 2 ^ 32 using Nat.strong_induction_on
    generalizing blk s with
  | _ dist ihDist =>
  by_cases hoff : off < size
  case neg => exact ⟨1, (true, s), by rw [loadBoot1Copy, if_neg hoff]⟩
  by_cases hcheck : (checkBadBlock w blk s).1 = true
  · have hne : blk ≠ j := by
      rintro rfl
      rw [show (checkBadBlock w blk s).1 = false from hbad s.reads] at hcheck
      cases hcheck
    obtain ⟨fuel, r, hr⟩ := ihDist _ (by omega) ((blk + 1) % 2 ^ 32) (Nat.mod_lt _ (by decide))
      (checkBadBlock w blk s).2 rfl
    refine ⟨fuel + 1, r, ?_⟩
    simp only [loadBoot1Copy, if_pos hoff, if_pos hcheck]
    exact hr
  · by_cases hread : (spiNandRead w (blk * w.blockSize % 2 ^ 32 / 512)
        (w.bootpkgBase + BitVec.ofNat 32 off) (min (size - off) w.blockSize / 512)
        (checkBadBlock w blk s).2).1 = false
    · exact ⟨1, (false, _), by
        simp only [loadBoot1Copy, if_pos hoff, if_neg hcheck, if_pos hread]; rfl⟩
    · obtain ⟨fuel, r, hr⟩ := ihRest _ (by omega) ((blk + 1) % 2 ^ 32)
        (off + min (size - off) w.blockSize) (Nat.mod_lt _ (by decide))
        (spiNandRead w (blk * w.blockSize % 2 ^ 32 / 512)
          (w.bootpkgBase + BitVec.ofNat 32 off) (min (size - off) w.blockSize / 512)
          (checkBadBlock w blk s).2).2 rfl
      refine ⟨fuel + 1, r, ?_⟩
      simp only [loadBoot1Copy, if_pos hoff, if_neg hcheck, if_neg hread]
      exact hr

theorem tryBlock_terminates {i : Nat} (hi : i < 2 ^ 32) (s : St) :
    ∃ fuel r, tryBlock w fuel i s = some r := by
  obtain ⟨fuel, ⟨_ | _, s'⟩, hload⟩ := loadBoot1Copy_terminates w hj hbad
    (validLen w (spiNandRead w (i * (w.blockSize / 512) % 2 ^ 32) w.bootpkgBase 1
      (checkBadBlock w i s).2).2.ram) i 0 hi
    (spiNandRead w (i * (w.blockSize / 512) % 2 ^ 32) w.bootpkgBase 1 (checkBadBlock w i s).2).2
  all_goals
    refine ⟨fuel, ?_⟩
    simp only [tryBlock, hload]
    split_ifs
    all_goals exact ⟨_, rfl⟩

theorem findCopy_terminates (his : ∀ i ∈ is, i < 2 ^ 32) (s : St) :
    ∃ fuel r, findCopy w fuel is s = some r := by
  induction is generalizing s with
  | nil => exact ⟨0, _, rfl⟩
  | cons i is ih =>
    obtain ⟨fuel, ⟨found, s'⟩, htry⟩ :=
      tryBlock_terminates w hj hbad (his i mem_cons_self) s
    cases found with
    | true => exact ⟨fuel, _, by rw [findCopy, htry]⟩
    | false =>
      obtain ⟨fuel', r, hr⟩ := ih (fun i hi => his i (.tail _ hi)) s'
      refine ⟨max fuel fuel', r, ?_⟩
      rw [findCopy, tryBlock_mono w (Nat.le_max_left fuel fuel') htry]
      exact findCopy_mono w (Nat.le_max_right fuel fuel') hr

end

theorem findCopy_none {s s' : St} (h : findCopy w fuel is s = some (none, s')) {i : Nat}
    (hi : i ∈ is) : ∃ s₀ s₁, tryBlock w fuel i s₀ = some (false, s₁) := by
  induction is generalizing s with
  | nil => cases hi
  | cons k is ih =>
    simp only [findCopy] at h
    split at h
    · cases h
    · cases congrArg Prod.fst (some.inj h)
    · next htry =>
        rcases mem_cons.mp hi with rfl | hi
        · exact ⟨_, _, htry⟩
        · exact ih h hi

variable {w}

section

variable {blk : Nat} {ram : Ram 32} (h : HeadOf w blk ram)
include h

theorem nandWord_of_headOf {off : Nat} (hoff : off + 4 ≤ 512) :
    word ram (w.bootpkgBase + BitVec.ofNat 32 off) = nandWord w blk off := by
  unfold word nandWord
  congr 1
  refine Ram.ext_getD (by rw [Ram.length_read, length_map, length_range]) fun i hi => ?_
  rw [Ram.length_read] at hi
  rw [Ram.getD_read _ _ hi, Ram.add_ofNat_add, h _ (by omega), getD_eq_getElem?_getD,
    getElem?_map, getElem?_range hi]
  rfl

theorem HeadOf.magic : magic w ram = nandWord w blk 16 := nandWord_of_headOf h (by decide)

theorem HeadOf.validLen : validLen w ram = nandWord w blk 36 := nandWord_of_headOf h (by decide)

end

theorem nandWord_lt (blk off : Nat) : nandWord w blk off < 2 ^ 32 := by
  have h := Memory.leValue_lt ((List.range 4).map fun i => w.nand blk 0 (off + i))
  rwa [length_map, length_range] at h

theorem GoodNandCopy.head (h : GoodNandCopy w j) (s : St) :
    (spiNandRead w (j * (w.blockSize / 512) % 2 ^ 32) w.bootpkgBase 1 s).1 = true ∧
      HeadOf w j (spiNandRead w (j * (w.blockSize / 512) % 2 ^ 32) w.bootpkgBase 1 s).2.ram := by
  have hpos := w.sctsPerPage_pos
  have hone : (1 + w.sctsPerPage - 1) / w.sctsPerPage = 1 := by
    rw [Nat.add_sub_cancel_left, Nat.div_self hpos]
  have hread : (spiNandRead w (j * (w.pagesPerBlock * w.sctsPerPage)) w.bootpkgBase 1 s).1 =
      true := by
    simp only [spiNandRead, w.blockSize_div, Nat.mul_div_cancel _ w.sectors_pos, Nat.mul_mod_left,
      Nat.zero_div, hone, readPages, readSinglePage, Nat.add_zero, h.headReadable,
      Bool.true_eq_false, if_false]
  rw [(sector_of_block w (searchedBlocks_lt w h.searched)).1]
  exact ⟨hread, spiNandRead_headOf w (by decide) (by decide) hread⟩

/-- The search stops at a good copy, from whatever state, if its length is a multiple of 4096. -/
theorem GoodNandCopy.tryBlock_aligned (h : GoodNandCopy w j)
    (halign : nandWord w j 36 % alignSize = 0) (s : St) :
    ∃ fuel s', tryBlock w fuel j s = some (true, s') := by
  obtain ⟨hread, hhead⟩ := h.head (checkBadBlock w j s).2
  obtain ⟨bs, hcopy, hpasses⟩ := h.copy
  have hlt := nandWord_lt (w := w) j 36
  have hcheck : (checkBadBlock w j s).1 = false := h.notBad s.reads
  have hunit : nandWord w j 36 % 512 = 0 := by
    unfold alignSize at halign
    omega
  obtain ⟨fuel, s', hload, hram⟩ := loadBoot1Copy_of_copyFrom w hcopy 0 (by omega) hunit
    (spiNandRead w (j * (w.blockSize / 512) % 2 ^ 32) w.bootpkgBase 1 (checkBadBlock w j s).2).2
  rw [Nat.zero_add] at hload
  rw [BitVec.add_zero] at hram
  have hsum : (verifyAddsum s'.ram w.bootpkgBase (nandWord w j 36) == 0) = true := by
    rw [hram, hpasses]
    rfl
  refine ⟨fuel, s', ?_⟩
  simp only [tryBlock, hcheck, hread, hhead.magic, hhead.validLen, h.magic_eq, halign, hload, hsum,
    Bool.false_eq_true, Bool.true_eq_false, ne_eq, not_true_eq_false, if_false]

theorem GoodNandCopy.aligned (h : GoodNandCopy w j) {s s' : St}
    (htry : tryBlock w fuel j s = some (true, s')) : nandWord w j 36 % alignSize = 0 := by
  obtain ⟨-, hhead⟩ := h.head (checkBadBlock w j s).2
  simp only [tryBlock] at htry
  by_contra halign
  rw [hhead.validLen, if_pos halign] at htry
  split_ifs at htry <;> cases congrArg Prod.fst (some.inj htry)

theorem nandWord_of_tryBlock {i : Nat} (hi : i * w.blockSize < 2 ^ 32) {s s' : St}
    (h : tryBlock w fuel i s = some (true, s')) : nandWord w i 16 = tocMainInfoMagic := by
  simp only [tryBlock] at h
  split at h
  · cases h
  split at h
  · cases h
  next hread =>
  rw [Bool.not_eq_false, (sector_of_block w hi).1] at hread
  split at h
  · cases h
  next hmagic =>
  rw [not_not, (sector_of_block w hi).1] at hmagic
  rw [← hmagic, (spiNandRead_headOf w (by decide) (by decide) hread).magic]

variable (w)

/-- The loader for SPI NAND returns 0 with a valid package in the buffer. -/
def NandBoots (s : St) : Prop :=
  ∃ fuel s', loadToc1FromSpinand w fuel s = some (0, s') ∧ Valid w s'.ram

/-- What the search finds: the block, the state it was found in and the state at the end. -/
def Finds (s : St) (i : Nat) (s₀ s' : St) : Prop :=
  ∃ fuel, findCopy w fuel (searchedBlocks w) s = some (some (i, s₀), s')

variable {w}

theorem NandBoots.finds {s : St} (h : NandBoots w s) : ∃ i s₀ s', Finds w s i s₀ s' := by
  rcases h with ⟨fuel, s', hload, -⟩
  unfold loadToc1FromSpinand at hload
  split at hload
  · cases congrArg Prod.fst (some.inj hload)
  split at hload
  · cases hload
  · next found t hfind => exact ⟨found.1, found.2, t, fuel, hfind⟩
  · cases congrArg Prod.fst (some.inj hload)

theorem GoodNandCopy.finds (h : GoodNandCopy w j) (halign : nandWord w j 36 % alignSize = 0)
    (s : St) : ∃ i s₀ s', Finds w s i s₀ s' := by
  have hlt : ∀ i ∈ searchedBlocks w, i < 2 ^ 32 := by
    intro i hi
    have hblock := w.blockSize_ge
    exact (Nat.le_mul_of_pos_right i (by omega)).trans_lt (searchedBlocks_lt w hi)
  obtain ⟨fuel, ⟨found, s'⟩, hfind⟩ :=
    findCopy_terminates w (hlt j h.searched) h.notBad hlt s
  cases found with
  | some found => exact ⟨found.1, found.2, s', fuel, hfind⟩
  | none =>
    obtain ⟨s₀, s₁, hfalse⟩ := findCopy_none w hfind h.searched
    obtain ⟨fuel', s₂, htrue⟩ := h.tryBlock_aligned halign s₀
    have hsame := (tryBlock_mono w (Nat.le_max_left fuel fuel') hfalse).symm.trans
      (tryBlock_mono w (Nat.le_max_right fuel fuel') htrue)
    cases congrArg Prod.fst (some.inj hsame)

theorem GoodNandCopy.boots (h : GoodNandCopy w j) (hphy : w.phyInit = 0)
    (halign : nandWord w j 36 % alignSize = 0) (hsteady : Steady w) (s : St) : NandBoots w s := by
  obtain ⟨i, s₀, s', fuel, hfind⟩ := h.finds halign s
  obtain ⟨hmem, htry⟩ := findCopy_found w hfind
  refine ⟨fuel, s', ?_, tryBlock_valid w hmem hsteady htry⟩
  simp only [loadToc1FromSpinand, hphy, ne_eq, not_true_eq_false, if_false, hfind]

end

/-- The head of a package that is 0 otherwise. -/
def packageHead (len : Nat) : List UInt8 :=
  replicate 16 0 ++ leBytes 4 tocMainInfoMagic ++
    leBytes 4 ((tocMainInfoMagic + stampValue + len) % 2 ^ 32) ++ replicate 12 0 ++
    leBytes 4 len

/-- One package on each medium, behind an empty place for another one: at sector 400, where sector
    200 may be unreadable, and in block 9. -/
def backupWorld (fails : Bool) (len : Nat) : World where
  bootpkgBase := 0x42e00000
  medium i := if i < 400 * 512 then 0 else (packageHead 512).getD (i - 400 * 512) 0
  readFault _ start _ := if fails ∧ start = 200 then some [] else none
  mmcInit := 0
  toc1Start := 200
  toc1BakStart := 400
  initGpt := 0
  fwEnvOpen := 0
  envIsNull := false
  partInfo _ := none
  fdtCheckHeader _ _ := 0
  spinorInit := 0
  spinorGptArd := 0
  flashInited := true
  phyInit := 0
  sctsPerPage := 4
  sctsPerPage_pos := Nat.succ_pos 3
  pagesPerBlock := 64
  pagesPerBlock_pos := Nat.succ_pos 63
  ubootStartBlk := 8
  ubootLastBlk := 9
  ubootLastBlk_lt := by decide
  oob _ _ := some 0xff
  nand block page i := if block = 9 ∧ page = 0 then (packageHead len).getD i 0 else 0
  nandFault _ _ _ := none

variable (fails : Bool)

theorem backupWorld_sectorBytes (len : Nat) {n : Nat} (hn : 1 ≤ n) :
    sectorBytes (backupWorld fails len) 400 n =
      packageHead 512 ++ replicate (n * 512 - 40) 0 := by
  have hhead : (packageHead 512).length = 40 := rfl
  have hmap := map_getD_range (packageHead 512) (n * 512) (by omega)
  refine Eq.trans (map_congr_left fun i _ => ?_) hmap
  exact (if_neg (by omega)).trans (by rw [Nat.add_sub_cancel_left])

theorem backupWorld_word (len off : Nat) :
    mediumWord (backupWorld fails len) 400 off =
      leValue ((List.range 4).map fun i => (packageHead 512).getD (off + i) 0) := by
  refine congrArg leValue (map_congr_left fun i _ => ?_)
  exact (if_neg (by omega)).trans (by rw [Nat.add_sub_cancel_left])

theorem backupWorld_len (len : Nat) :
    mediumWord (backupWorld fails len) 400 36 = 512 :=
  (backupWorld_word fails len 36).trans (by decide)

variable {fails}

theorem backupWorld_good {len : Nat} : GoodCopy (backupWorld fails len) 400 := by
  have hsectors : copySectors (backupWorld fails len) 400 = 64 := by
    rw [copySectors, backupWorld_len]
    rfl
  refine ⟨by decide, by rw [hsectors]; decide, ?_,
    (backupWorld_word fails len 16).trans (by decide), ?_⟩
  · intro n first count hfirst _
    exact if_neg fun h => by omega
  · intro ram
    rw [hsectors, backupWorld_len, backupWorld_sectorBytes _ _ (by decide)]
    exact verifyAddsum_write_zeros ram _ (k := 10) (by decide) (by decide) (by decide) (by decide)
      (by decide) (by decide)

theorem backupWorld_blockBytes (len : Nat) {k : Nat} (hk : 40 ≤ k) :
    blockBytes (backupWorld fails len) 9 k = packageHead len ++ replicate (k - 40) 0 := by
  have hhead : (packageHead len).length = 40 := rfl
  have hpage : (backupWorld fails len).pageSize = 2048 := by simp only [World.pageSize, backupWorld]
  have hmap := map_getD_range (packageHead len) k (by omega)
  unfold blockBytes
  rw [hpage]
  refine Eq.trans (map_congr_left fun i _ => ?_) hmap
  -- behind the first page there is nothing of the head
  by_cases hi : i < 2048
  · rw [Nat.div_eq_of_lt hi, Nat.mod_eq_of_lt hi]
    simp only [backupWorld, and_self, if_true]
  · rw [getD_eq_default _ _ (by omega)]
    exact if_neg fun h => by omega

theorem backupWorld_goodNand {len : Nat} (hlo : 40 ≤ len) (hhi : len < 131072)
    (hsum : wordSum 10 (stamp (packageHead len)) % 2 ^ 32 =
      leValue (((packageHead len).drop 20).take 4))
    (hmagic : leValue ((List.range 4).map fun i => (packageHead len).getD (16 + i) 0) =
      tocMainInfoMagic)
    (hword : leValue ((List.range 4).map fun i => (packageHead len).getD (36 + i) 0) = len) :
    GoodNandCopy (backupWorld fails len) 9 := by
  have hlen : nandWord (backupWorld fails len) 9 36 = len := hword
  have hblock : (backupWorld fails len).blockSize = 131072 := by
    simp only [World.blockSize, backupWorld]
  have hmin : min len (backupWorld fails len).blockSize = len := by omega
  have hcopy : CopyFrom (backupWorld fails len) 9 len
      (packageHead len ++ replicate (len - 40) 0 ++ []) := by
    rw [← backupWorld_blockBytes len hlo]
    have hpos : 0 < len := by omega
    have hblk : 9 * (backupWorld fails len).blockSize < 2 ^ 32 := by omega
    have htake : CopyFrom (backupWorld fails len) 10
          (len - min len (backupWorld fails len).blockSize) [] →
        CopyFrom (backupWorld fails len) 9 len
          (blockBytes (backupWorld fails len) 9
            (min len (backupWorld fails len).blockSize) ++ []) :=
      CopyFrom.take hpos (fun _ => rfl) hblk (fun _ _ _ => rfl)
    rw [hmin, Nat.sub_self] at htake
    exact htake (.nil _)
  have hpasses : ∀ ram : Ram 32, verifyAddsum (ram.write (backupWorld fails len).bootpkgBase
      (packageHead len ++ replicate (len - 40) 0 ++ [])) (backupWorld fails len).bootpkgBase
      len = 0 := by
    intro ram
    rw [append_nil]
    exact verifyAddsum_write_zeros ram _ (k := 10) rfl (by decide) hlo (by omega) (by omega) hsum
  refine ⟨show 9 ∈ range' 8 2 by decide, fun _ => rfl, fun _ => rfl, hmagic, ?_⟩
  rw [hlen]
  exact ⟨_, hcopy, hpasses⟩

end Brandy.SplLoader
