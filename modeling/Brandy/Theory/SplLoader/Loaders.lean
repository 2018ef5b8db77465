import Brandy.Theory.SplLoader.Fallback

/-!
# All Loaders

`load_uboot_partition`, and the result about all loaders.

A head of U-Boot with length 0 is skipped, and behind the second one the loop is left as if the
image in it had been accepted: the address in that head is returned when there is a device tree.

## Main definitions

* `UbootVerified`: A result 0 of `load_uboot_partition` comes with an accepted image.

## Theorems

* `loadUbootCopies_accepts`: The loop over the two partitions, when the last head has a length.
* `loaders_verified`: When a loader that returns 0 has verified its image.
-/

namespace Brandy.SplLoader

section

variable (w : World)

@[simp] theorem accepted_mmcBread (start n : Nat) (dst : BitVec 32) (s : St) :
    (mmcBread w start n dst s).2.accepted = s.accepted := by
  unfold mmcBread
  split
  · rfl
  · unfold readSectors
    split <;> rfl

@[simp] theorem accepted_loadUbootDtb (runAddr : BitVec 32) (s : St) :
    (loadUbootDtb w runAddr s).2.accepted = s.accepted := by
  simp only [loadUbootDtb]
  split <;> exact accepted_mmcBread w _ _ _ s

theorem headLength_mmcBread {start : Nat} {s : St}
    (h : (mmcBread w start 64 w.bootpkgBase s).1 = true) :
    headLength w (mmcBread w start 64 w.bootpkgBase s).2.ram = mediumWord w start 20 := by
  rw [mmcBread, if_neg (by decide)] at h ⊢
  exact word_readSectors w (by decide) (by decide) (by decide) h

/-- The loop over the partitions up to the one with index 1, when the head of that has a length. -/
theorem loadUbootCopies_accepts {starts : List Nat} {i last : Nat} (hi : i + starts.length = 1)
    (hlast : last = 0 ∨ mediumWord w last 20 ≠ 0) (a : BitVec 32) (s : St) :
    (loadUbootCopies w (starts ++ [last]) i a s).1 = none ∨ ∃ runAddr len,
      (loadUbootCopies w (starts ++ [last]) i a s).1 = some runAddr ∧
        (loadUbootCopies w (starts ++ [last]) i a s).2.accepted = (runAddr, len) :: s.accepted := by
  induction starts generalizing i a s with
  | nil =>
    obtain rfl : i = 1 := hi
    simp only [List.nil_append, loadUbootCopies]
    have hlen := @headLength_mmcBread w last s
    have haccepted := accepted_mmcBread w last 64 w.bootpkgBase s
    generalize mmcBread w last 64 w.bootpkgBase s = head at hlen haccepted ⊢
    split_ifs with hstart hhead hsize himage hsum
    · exact .inl rfl
    · exact .inl rfl
    · rw [Bool.not_eq_false] at hhead
      exact absurd ((hlen hhead).symm.trans hsize) (hlast.resolve_left hstart)
    · exact .inl rfl
    · exact .inl rfl
    · refine .inr ⟨_, headLength w head.2.ram, rfl, ?_⟩
      rw [accepted_mmcBread, haccepted]
  | cons start starts ih =>
    simp only [List.cons_append, loadUbootCopies]
    have haccepted := accepted_mmcBread w start 64 w.bootpkgBase s
    generalize mmcBread w start 64 w.bootpkgBase s = head at haccepted ⊢
    have hnext : i + 1 + starts.length = 1 := by
      rw [List.length_cons] at hi
      omega
    split_ifs with hstart hhead hsize himage hsum hone
    · exact .inl rfl
    · exact .inl rfl
    · rw [← haccepted]
      exact ih hnext _ _
    · exact .inl rfl
    · exact .inl rfl
    · have hrest := fun n dst =>
        ih hnext (headRunAddr w head.2.ram) (mmcBread w start n dst head.2).2
      simp only [accepted_mmcBread, haccepted] at hrest
      exact hrest _ _
    · refine .inr ⟨_, headLength w head.2.ram, rfl, ?_⟩
      rw [accepted_mmcBread, haccepted]

/-- If the loader returns 0 then this call has accepted the image at the address it returns. -/
def UbootVerified (s : St) : Prop :=
  (loadUbootPartition w s).1 = 0 → ∃ runAddr len,
    (loadUbootPartition w s).2.1 = some runAddr ∧
      (loadUbootPartition w s).2.2.accepted = (runAddr, len) :: s.accepted

/-- The start sector of a partition. -/
def partStart (name : PartName) : Nat := ((w.partInfo name).map Prod.fst).getD 0

theorem loadUbootPartition_verified
    (h : partStart w .ubootBak = 0 ∨ mediumWord w (partStart w .ubootBak) 20 ≠ 0) (s : St) :
    UbootVerified w s := by
  unfold UbootVerified loadUbootPartition
  have hspec := @loadUbootCopies_accepts w [partStart w .uboot] 0 (partStart w .ubootBak) rfl h 0 s
  simp only [List.cons_append, List.nil_append, partStart] at hspec
  split_ifs with hinit hgpt
  · exact fun h => by cases h
  · exact fun h => by cases h
  dsimp only
  rcases hcopies : loadUbootCopies w [((w.partInfo .uboot).map Prod.fst).getD 0,
    ((w.partInfo .ubootBak).map Prod.fst).getD 0] 0 0 s with ⟨_ | runAddr, s'⟩
  · exact fun h => by cases h
  rw [hcopies] at hspec
  dsimp only at hspec ⊢
  split_ifs with hdtb
  · intro _
    rcases hspec with h | ⟨a, len, hsome, haccepted⟩
    · cases h
    · exact ⟨a, len, hsome, (accepted_loadUbootDtb w runAddr s').trans haccepted⟩
  · exact fun h => by cases h

/-- A return value 0 with a U-Boot at which no check was made. -/
theorem not_ubootVerified {runAddr : BitVec 32} {s s' : St} (hinit : w.mmcInit = 0)
    (hgpt : w.initGpt = 0)
    (hcopies : loadUbootCopies w [partStart w .uboot, partStart w .ubootBak] 0 0 s =
      (some runAddr, s'))
    (hdtb : (loadUbootDtb w runAddr s').1 = true) (haccepted : s'.accepted = s.accepted) :
    ¬ UbootVerified w s := by
  have hrun : loadUbootPartition w s = (0, some runAddr, (loadUbootDtb w runAddr s').2) := by
    unfold partStart at hcopies
    simp only [loadUbootPartition, hinit, hgpt, hcopies, hdtb, ne_eq, not_true_eq_false, if_false,
      if_true]
  intro h
  rcases h (by rw [hrun]) with ⟨a, len, -, hlog⟩
  rw [hrun] at hlog
  have hsame : s.accepted = (a, len) :: s.accepted :=
    haccepted.symm.trans ((accepted_loadUbootDtb w runAddr s').symm.trans hlog)
  exact List.cons_ne_self _ _ hsame.symm

end

/-- The package at sector 400 is also the one for over-the-air updates and the one on SPI NOR. -/
def updatedWorld : World :=
  { backupWorld false 4096 with
    toc1Start := 400
    partInfo := fun name => if name = .bootPartation then some (400, 64) else none }

theorem updatedWorld_sectorBytes (n : Nat) :
    sectorBytes updatedWorld 400 n = sectorBytes (backupWorld false 4096) 400 n := rfl

theorem updatedWorld_word (off : Nat) :
    mediumWord updatedWorld 400 off = mediumWord (backupWorld false 4096) 400 off := rfl

theorem updatedWorld_good : GoodCopy updatedWorld 400 := by
  have h : GoodCopy (backupWorld false 4096) 400 := backupWorld_good
  have hcopy : copySectors updatedWorld 400 = copySectors (backupWorld false 4096) 400 := by
    simp only [copySectors, updatedWorld_word]
  refine ⟨h.start_ne, ?_, ?_, (updatedWorld_word 16).trans h.magic_eq, ?_⟩
  · rw [hcopy]
    exact h.fits
  · rw [hcopy]
    exact h.readable
  · rw [hcopy, updatedWorld_sectorBytes, updatedWorld_word]
    exact h.passes

theorem updatedWorld_sound : SpinorSound updatedWorld 400 := by
  intro _ ram
  rw [updatedWorld_word, backupWorld_len, updatedWorld_sectorBytes,
    backupWorld_sectorBytes _ _ (by decide)]
  exact verifyAddsum_write_zeros _ _ (k := 10) (by decide) (by decide) (by decide) (by decide)
    (by decide) (by decide)

/-- A medium where every read succeeds. Sector 200 has the head of a package of one sector without a
    checksum, sector 300 a device tree, the rest is 0. -/
def blankWorld : World where
  bootpkgBase := 0x42e00000
  medium i :=
    if i < 300 * 512 then
      if i < 200 * 512 then 0
      else
        [0, 0, 0, 0, 0, 0, 0, 0, 0, 0, 0, 0, 0, 0, 0, 0, 0x00, 0x98, 0x11, 0x89, 0, 0, 0, 0, 0, 0,
          0, 0, 0, 0, 0, 0, 0, 0, 0, 0, 0x00, 0x02, 0x00, 0x00].getD (i - 200 * 512) 0
    else if i = 300 * 512 then 0xd0 else 0
  readFault _ _ _ := none
  mmcInit := 0
  toc1Start := 200
  toc1BakStart := 0
  initGpt := 0
  fwEnvOpen := 0
  envIsNull := false
  partInfo
    | .uboot => some (110, 1)
    | .ubootBak => some (120, 1)
    | .ubootDtb => some (300, 1)
    | .bootA => none
    | .bootPartation => some (100, 1)
  fdtCheckHeader ram a := if ram a = 0xd0 then 0 else -1
  spinorInit := 0
  spinorGptArd := 0
  flashInited := true
  phyInit := 0
  sctsPerPage := 4
  sctsPerPage_pos := Nat.le_add_left 1 3
  pagesPerBlock := 64
  pagesPerBlock_pos := Nat.le_add_left 1 63
  ubootStartBlk := 8
  ubootLastBlk := 31
  ubootLastBlk_lt := by decide
  oob _ _ := some 0xff
  nand _ _ _ := 0xff
  nandFault _ _ _ := none

theorem blankWorld_reads {start n : Nat} {dst : BitVec 32} {s : St} :
    (readSectors blankWorld start n dst s).1 = true := rfl

theorem blankWorld_bad (s : St) : (loadCopy blankWorld 100 s).1 = .bad :=
  loadCopy_of_magic_ne (fun _ => rfl) (by decide +kernel)

/-- A loop in which every try finds a bad copy runs out of them, and returns 0. -/
theorem loadCopies_all_bad {w : World} {start : Nat} (hstart : start ≠ 0)
    (hbad : ∀ s, (loadCopy w start s).1 = .bad) (n : Nat) (s : St) :
    ¬ Loads w (loadCopies w (List.replicate (n + 1) start) s) := by
  have htry : ∃ s', loadCopy w start s = (.bad, s') ∧ ¬ Valid w s'.ram := by
    have hattempt := hbad s
    rcases loadCopy_spec w start s with h | ⟨h, hnot⟩ | ⟨h, -⟩
    · cases hattempt.symm.trans h
    · exact ⟨_, Prod.ext h rfl, hnot⟩
    · cases hattempt.symm.trans h
  rcases htry with ⟨s', hcopy, hnot⟩
  rw [List.replicate_succ, loadCopies, if_neg hstart, hcopy]
  cases n with
  | zero => exact fun h => hnot (h rfl)
  | succ n => exact loadCopies_all_bad hstart hbad n s'

theorem blankWorld_spinor : ¬ Loads blankWorld (loadFromSpinor blankWorld 200 freshState) := by
  have hmagic : magic blankWorld
      (readSectors blankWorld 200 1 blankWorld.bootpkgBase freshState).2.ram = tocMainInfoMagic :=
    (word_readSectors blankWorld (by decide) (by decide) (by decide)
      blankWorld_reads).trans (by decide +kernel)
  have hzero : (loadFromSpinor blankWorld 200 freshState).1 = 0 := by
    simp only [loadFromSpinor, blankWorld_reads, hmagic, Bool.true_eq_false, if_false, ne_eq,
      not_true_eq_false]
  rcases loadFromSpinor_zero blankWorld hzero with ⟨-, -, hlen, hram⟩
  have hsize : mediumWord blankWorld 200 36 = 512 := by decide +kernel
  intro h
  have hsum := (h hzero).2
  rw [hlen, hram, hsize, verifyAddsum_write _ _ (by decide) (by rw [length_sectorBytes])
    (by rw [length_sectorBytes]; decide)] at hsum
  revert hsum
  decide +kernel

/-- Both heads have the length 0. -/
theorem blankWorld_uboot (s : St) : ∃ runAddr s',
    loadUbootCopies blankWorld [110, 120] 0 0 s = (some runAddr, s') ∧ s'.accepted =
      s.accepted := by
  have hlen : ∀ start ∈ [110, 120], ∀ t, headLength blankWorld
      (mmcBread blankWorld start 64 blankWorld.bootpkgBase t).2.ram = 0 := by
    intro start hstart t
    rw [@headLength_mmcBread blankWorld start t rfl]
    revert start
    decide +kernel
  have hread : ∀ start t, (mmcBread blankWorld start 64 blankWorld.bootpkgBase t).1 = true :=
    fun _ _ => rfl
  simp only [loadUbootCopies, hread, hlen 110 (by simp), hlen 120 (by simp), OfNat.ofNat_ne_zero,
    Bool.true_eq_false, if_false, if_true]
  exact ⟨_, _, rfl, by simp only [accepted_mmcBread]⟩

theorem blankWorld_dtb (runAddr : BitVec 32) (s : St) :
    (loadUbootDtb blankWorld runAddr s).1 = true := by
  have hbyte : (mmcBread blankWorld 300 1 (runAddr + 2 * 1024 * 1024) s).2.ram
      (runAddr + 2 * 1024 * 1024) = 0xd0 := by
    have hwrite := Ram.write_of_lt (m := s.ram) (a := runAddr + 2 * 1024 * 1024) (i := 0)
      (by rw [length_sectorBytes blankWorld 300 1]; decide)
      (by rw [length_sectorBytes blankWorld 300 1]; decide)
    rw [getD_sectorBytes _ _ (by decide), BitVec.add_zero] at hwrite
    rw [mmcBread, if_neg (by decide), readSectors_of_true blankWorld blankWorld_reads]
    exact hwrite
  have hcheck : (loadUbootDtb blankWorld runAddr s).1 =
      (blankWorld.fdtCheckHeader (mmcBread blankWorld 300 1 (runAddr + 2 * 1024 * 1024) s).2.ram
        (runAddr + 2 * 1024 * 1024) == 0) := rfl
  have hfdt : ∀ ram a, ram a = 0xd0 → blankWorld.fdtCheckHeader ram a = 0 := fun _ _ h => if_pos h
  rw [hcheck, hfdt _ _ hbyte]
  rfl

end Brandy.SplLoader
