import Brandy.Theory.SplLoader.Checksum

/-!
# What the Loaders Have Verified

The argument is the same for all loaders: the last thing that is read into the buffer is the package
with its head, the head is the one whose magic was looked at, and the checksum is taken over the
length it announces.

Some loaders return 0 without that: the one for over-the-air updates on SD/eMMC when all tries have
failed, and those for SPI NOR, which compute no checksum.

## Main definitions

* `Valid`, `Loads`: A package in order in the load buffer, and a result 0 that comes with one.
* `GoodCopy`: A copy on SD/eMMC that is readable and in order.
* `SpinorSound`: A package on SPI NOR that is in order if it has the magic.

## Theorems

* `loadCopy_spec`, `loadCopy_good`: One try of the loop over the copies.
* `loadCopies_loads`: The loop does not run out of copies.
* `loadFromSpinor_loads`: What the loaders for SPI NOR leave.
-/

namespace Brandy.SplLoader

open Memory (leValue leBytes)
open Word List

/-- The first sector at an address is the same in two memories. -/
def SameHead (base : BitVec 32) (ram ram' : Ram 32) : Prop :=
  ∀ off < 512, ram' (base + BitVec.ofNat 32 off) = ram (base + BitVec.ofNat 32 off)

section

variable {base : BitVec 32} {ram ram' ram'' : Ram 32}

theorem SameHead.refl : SameHead base ram ram := fun _ _ => rfl

theorem SameHead.trans (h : SameHead base ram ram') (h' : SameHead base ram' ram'') :
    SameHead base ram ram'' := fun off hoff => (h' off hoff).trans (h off hoff)

theorem SameHead.word (h : SameHead base ram ram') {off : Nat} (hoff : off + 4 ≤ 512) :
    word ram' (base + BitVec.ofNat 32 off) = word ram (base + BitVec.ofNat 32 off) := by
  unfold SplLoader.word
  congr 1
  refine Ram.read_congr fun i hi => ?_
  rw [Ram.add_ofNat_add]
  exact h (off + i) (by omega)

theorem SameHead.of_write_nil {a : BitVec 32} : SameHead base ram (ram.write a []) :=
  fun _ _ => Ram.write_of_ge (Nat.zero_le _)

theorem sameHead_write {d : Nat} {bs : List UInt8} (hd : 512 ≤ d) (hlen : d + bs.length ≤ 2 ^ 32) :
    SameHead base ram (ram.write (base + BitVec.ofNat 32 d) bs) := by
  intro off hoff
  by_cases hempty : bs.length = 0
  · exact Ram.write_of_ge (by omega)
  · refine Ram.write_of_ge ?_
    rw [Ram.toNat_add_sub_add base (by omega) (by omega)]
    omega

end

section

variable (w : World)

theorem SameHead.magic {ram ram' : Ram 32} (h : SameHead w.bootpkgBase ram ram') :
    magic w ram' = magic w ram := h.word (by decide)

theorem SameHead.validLen {ram ram' : Ram 32} (h : SameHead w.bootpkgBase ram ram') :
    validLen w ram' = validLen w ram := h.word (by decide)

/-- The load buffer holds a package with the right magic and checksum. -/
def Valid (ram : Ram 32) : Prop :=
  magic w ram = tocMainInfoMagic ∧ verifyAddsum ram w.bootpkgBase (validLen w ram) = 0

/-- The result 0 comes with a valid package. -/
def Loads (r : Int × St) : Prop := r.1 = 0 → Valid w r.2.ram

theorem loads_error {s : St} : Loads w (-1, s) := fun h => by cases h

theorem length_sectorBytes (start n : Nat) : (sectorBytes w start n).length = n * 512 := by
  rw [sectorBytes, length_map, length_range]

theorem getD_sectorBytes (start : Nat) {n i : Nat} (hi : i < n * 512) :
    (sectorBytes w start n).getD i 0 = w.medium (start * 512 + i) := by
  rw [sectorBytes, getD_eq_getElem?_getD, getElem?_map, getElem?_range hi]
  rfl

/-- A word of the medium, at an offset in a sector. -/
def mediumWord (start off : Nat) : Nat :=
  leValue ((List.range 4).map fun i => w.medium (start * 512 + (off + i)))

theorem mediumWord_lt (start off : Nat) : mediumWord w start off < 2 ^ 32 := by
  have h := Memory.leValue_lt ((List.range 4).map fun i => w.medium (start * 512 + (off + i)))
  rwa [length_map, length_range] at h

theorem readSectors_of_true {start n : Nat} {dst : BitVec 32} {s : St}
    (h : (readSectors w start n dst s).1 = true) :
    (readSectors w start n dst s).2.ram = s.ram.write dst (sectorBytes w start n) := by
  unfold readSectors at h ⊢
  split
  · rfl
  · next hfault => simp only [hfault, Bool.false_eq_true] at h

theorem word_readSectors {base : BitVec 32} {start n : Nat} {off : Nat} {s : St} (hn : 0 < n)
    (hhi : n * 512 ≤ 2 ^ 32) (hoff : off + 4 ≤ 512)
    (h : (readSectors w start n base s).1 = true) :
    word (readSectors w start n base s).2.ram (base + BitVec.ofNat 32 off) =
      mediumWord w start off := by
  have hlen := length_sectorBytes w start n
  rw [readSectors_of_true w h, word, mediumWord]
  congr 1
  refine Ram.ext_getD (by rw [Ram.length_read, length_map, length_range]) fun i hi => ?_
  rw [Ram.length_read] at hi
  rw [Ram.getD_read _ _ hi, Ram.add_ofNat_add, Ram.write_of_lt (by omega) (by omega),
    getD_sectorBytes w start (by omega), getD_eq_getElem?_getD, getElem?_map,
    getElem?_range hi]
  rfl

section

variable {d : Nat} (base : BitVec 32) (start n : Nat) (hd : 512 ≤ d) (hlen : d + n * 512 ≤ 2 ^ 32)
  (s : St)
include hd hlen

/-- A read behind the first sector leaves the head alone, whether it succeeds or not. -/
theorem readSectors_sameHead :
    SameHead base s.ram (readSectors w start n (base + BitVec.ofNat 32 d) s).2.ram := by
  unfold readSectors
  split
  · exact sameHead_write hd (by rwa [length_sectorBytes])
  · refine sameHead_write hd ?_
    rw [length_take]
    omega

theorem mmcBread_sameHead :
    SameHead base s.ram (mmcBread w start n (base + BitVec.ofNat 32 d) s).2.ram := by
  unfold mmcBread
  split
  · exact SameHead.refl
  · exact readSectors_sameHead w base start n hd hlen s

end

theorem loadCopy_spec (start : Nat) (s : St) :
    (loadCopy w start s).1 = .readError ∨
      (loadCopy w start s).1 = .bad ∧ ¬ Valid w (loadCopy w start s).2.ram ∨
      (loadCopy w start s).1 = .good ∧ Valid w (loadCopy w start s).2.ram := by
  simp only [loadCopy]
  split
  · exact .inl rfl
  split
  · next hmagic => exact .inr (.inl ⟨rfl, fun h => hmagic h.1⟩)
  next hmagic =>
  have hhead : SameHead w.bootpkgBase (mmcBread w start 64 w.bootpkgBase s).2.ram
      (if 64 * 512 < validLen w (mmcBread w start 64 w.bootpkgBase s).2.ram then
        mmcBread w ((start + 64) % 2 ^ 32)
          ((validLen w (mmcBread w start 64 w.bootpkgBase s).2.ram - 64 * 512 + 511) / 512)
          (w.bootpkgBase + 64 * 512) (mmcBread w start 64 w.bootpkgBase s).2
      else (true, (mmcBread w start 64 w.bootpkgBase s).2)).2.ram := by
    have hlt : validLen w (mmcBread w start 64 w.bootpkgBase s).2.ram < 2 ^ 32 := word_lt
    split
    · exact mmcBread_sameHead w w.bootpkgBase _ _ (d := 64 * 512) (by decide) (by omega) _
    · exact SameHead.refl
  -- from here on only the head of the state after the second read matters
  revert hhead
  generalize (if 64 * 512 < validLen w (mmcBread w start 64 w.bootpkgBase s).2.ram then _ else _) =
    whole
  intro hhead
  split
  · exact .inl rfl
  rw [not_not] at hmagic
  split
  · next hsum =>
      refine .inr (.inl ⟨rfl, fun h => hsum ?_⟩)
      have h2 := h.2
      rwa [hhead.validLen] at h2
  · next hsum =>
      rw [not_not] at hsum
      exact .inr (.inr ⟨rfl, hhead.magic.trans hmagic, by rwa [hhead.validLen]⟩)

variable {w} {start : Nat}

theorem loadCopy_of_magic_ne (hread : ∀ n, w.readFault n start 64 = none)
    (hmagic : mediumWord w start 16 ≠ tocMainInfoMagic) {s : St} :
    (loadCopy w start s).1 = .bad := by
  have hok : (readSectors w start 64 w.bootpkgBase s).1 = true := by
    rw [readSectors, hread]
  have hword : magic w (readSectors w start 64 w.bootpkgBase s).2.ram = mediumWord w start 16 :=
    word_readSectors w (by decide) (by decide) (by decide) hok
  simp only [loadCopy, mmcBread, OfNat.ofNat_ne_zero, hok, hword, Bool.true_eq_false, if_false]
  rw [if_pos hmagic]

variable (w)

/-- The sectors that are read for the copy at a start sector. -/
def copySectors (start : Nat) : Nat := max 64 ((mediumWord w start 36 + 511) / 512)

/-- A copy that can be read at any time, with the right magic and checksum. -/
structure GoodCopy (start : Nat) : Prop where
  start_ne : start ≠ 0
  fits : start + copySectors w start ≤ 2 ^ 32
  readable : ∀ n first count, start ≤ first → first + count ≤ start + copySectors w start →
    w.readFault n first count = none
  magic_eq : mediumWord w start 16 = tocMainInfoMagic
  passes : ∀ ram : Ram 32,
    verifyAddsum (ram.write w.bootpkgBase (sectorBytes w start (copySectors w start)))
      w.bootpkgBase (mediumWord w start 36) = 0

theorem mmcBread_of_readable (start : Nat) {n : Nat} (hn : n ≠ 0) (dst : BitVec 32) (s : St)
    (h : w.readFault s.reads start n = none) :
    (mmcBread w start n dst s).1 = true ∧
      (mmcBread w start n dst s).2.ram = s.ram.write dst (sectorBytes w start n) := by
  rw [mmcBread, if_neg hn, readSectors, h]
  exact ⟨rfl, rfl⟩

theorem sectorBytes_append (start m n : Nat) :
    sectorBytes w start m ++ sectorBytes w (start + m) n = sectorBytes w start (m + n) := by
  unfold sectorBytes
  rw [add_mul m n 512, range_add, map_append, List.map_map]
  refine congrArg (_ ++ ·) (map_congr_left fun i _ => ?_)
  rw [Function.comp_apply, add_mul, add_assoc]

variable {w}

theorem loadCopy_good (h : GoodCopy w start) (s : St) :
    (loadCopy w start s).1 = .good := by
  have hlt := mediumWord_lt w start 36
  have hfits := h.fits
  have hpasses := h.passes s.ram
  have hlen := length_sectorBytes w start 64
  have hsectors : 64 ≤ copySectors w start := le_max_left _ _
  obtain ⟨hread, hram⟩ := mmcBread_of_readable w start (n := 64) (by decide) w.bootpkgBase s
    (h.readable _ start 64 le_rfl (by omega))
  have hword : ∀ off, off + 4 ≤ 512 →
      word (mmcBread w start 64 w.bootpkgBase s).2.ram (w.bootpkgBase + BitVec.ofNat 32 off) =
        mediumWord w start off := by
    intro off hoff
    rw [mmcBread, if_neg (by decide)] at hread ⊢
    exact word_readSectors w (by decide) (by decide) hoff hread
  have hmagic : magic w (mmcBread w start 64 w.bootpkgBase s).2.ram = tocMainInfoMagic :=
    (hword 16 (by decide)).trans h.magic_eq
  have hvalid : validLen w (mmcBread w start 64 w.bootpkgBase s).2.ram = mediumWord w start 36 :=
    hword 36 (by decide)
  simp only [loadCopy, hread, hmagic, hvalid, Bool.true_eq_false, if_false, ne_eq,
    not_true_eq_false]
  by_cases hmore : 64 * 512 < mediumWord w start 36
  · have hrest : 64 + (mediumWord w start 36 - 64 * 512 + 511) / 512 = copySectors w start := by
      unfold copySectors
      omega
    have hnext : (start + 64) % 2 ^ 32 = start + 64 := Nat.mod_eq_of_lt (by omega)
    obtain ⟨hread', hram'⟩ := mmcBread_of_readable w
      (start + 64) (n := (mediumWord w start 36 - 64 * 512 + 511) / 512) (by omega)
      (w.bootpkgBase + 64 * 512) (mmcBread w start 64 w.bootpkgBase s).2
      (h.readable _ _ _ (by omega) (by omega))
    -- both reads together
    have hwhole := Ram.write_append s.ram w.bootpkgBase (sectorBytes w start 64)
      (sectorBytes w (start + 64) ((mediumWord w start 36 - 64 * 512 + 511) / 512))
      (by rw [length_sectorBytes, length_sectorBytes]; omega)
    rw [sectorBytes_append, hrest, hlen, ← hram] at hwhole
    rw [if_pos hmore, hnext]
    simp only [hread', Bool.true_eq_false, if_false]
    rw [if_neg]
    rw [not_not, hram']
    exact (congrArg (fun ram => verifyAddsum ram w.bootpkgBase (mediumWord w start 36))
      hwhole).trans hpasses
  · have hrest : copySectors w start = 64 := by
      unfold copySectors
      omega
    rw [hrest, ← hram] at hpasses
    rw [if_neg hmore]
    simp only [Bool.true_eq_false, if_false, hpasses, not_true_eq_false]

/-- With a sector of 0 or a good copy among them the loop does not run out of copies. -/
theorem loadCopies_loads {starts : List Nat} (h : ∃ start ∈ starts, start = 0 ∨ GoodCopy w start)
    (s : St) : Loads w (loadCopies w starts s) := by
  induction starts generalizing s with
  | nil =>
    rcases h with ⟨_, hmem, -⟩
    cases hmem
  | cons start starts ih =>
    rw [loadCopies]
    split_ifs with hzero
    · exact loads_error w
    have hspec := loadCopy_spec w start s
    have hgood : GoodCopy w start → (loadCopy w start s).1 = .good := fun h => loadCopy_good h s
    generalize loadCopy w start s = result at hspec hgood ⊢
    rcases result with ⟨attempt, s'⟩
    cases attempt with
    | readError => exact loads_error w
    | good =>
      rcases hspec with h | ⟨h, -⟩ | ⟨-, hvalid⟩
      · cases h
      · cases h
      · exact fun _ => hvalid
    | bad =>
      rcases h with ⟨next, hmem, hnext⟩
      rcases mem_cons.mp hmem with rfl | hmem
      · cases hgood (hnext.resolve_left hzero)
      · exact ih ⟨next, hmem, hnext⟩ s'

variable (w)

theorem loadToc1FromSdmmc_loads (s : St) : Loads w (loadToc1FromSdmmc w s) := by
  unfold loadToc1FromSdmmc
  split
  · exact loads_error w
  · -- the third start sector is 0
    exact loadCopies_loads ⟨0, by simp, .inl rfl⟩ s

/-- The sector where the package for over-the-air updates starts. -/
def otaStart : Nat := ((w.partInfo .bootPartation).map Prod.fst).getD 0

theorem loadToc1OtaFromSdmmc_loads (h : otaStart w = 0 ∨ GoodCopy w (otaStart w)) (s : St) :
    Loads w (loadToc1OtaFromSdmmc w s) := by
  unfold loadToc1OtaFromSdmmc
  split_ifs with hinit henv
  · exact loads_error w
  · exact loads_error w
  · exact loadCopies_loads ⟨otaStart w, mem_replicate.mpr ⟨by decide, rfl⟩, h⟩ s

/-- The package at a sector of the SPI NOR, if it has the magic, passes with the checksum it has, in
    every memory. -/
def SpinorSound (start : Nat) : Prop :=
  mediumWord w start 16 = tocMainInfoMagic → ∀ ram : Ram 32,
    verifyAddsum ((ram.write w.bootpkgBase (sectorBytes w start 1)).write w.bootpkgBase
      (sectorBytes w start (mediumWord w start 36 / 512))) w.bootpkgBase (mediumWord w start 36) = 0

theorem readSectors_again {start n : Nat} {s : St} (hn : n * 512 ≤ 2 ^ 32)
    (hhead : (readSectors w start 1 w.bootpkgBase s).1 = true)
    (hwhole : (readSectors w start n w.bootpkgBase
      (readSectors w start 1 w.bootpkgBase s).2).1 = true) :
    SameHead w.bootpkgBase (readSectors w start 1 w.bootpkgBase s).2.ram
      (readSectors w start n w.bootpkgBase (readSectors w start 1 w.bootpkgBase s).2).2.ram := by
  rw [readSectors_of_true w hwhole, readSectors_of_true w hhead]
  rcases Nat.eq_zero_or_pos n with rfl | hpos
  · exact fun off _ => Ram.write_of_ge (by rw [length_sectorBytes]; omega)
  · have hone := length_sectorBytes w start 1
    have hlen := length_sectorBytes w start n
    intro off hoff
    rw [Ram.write_of_lt (by omega) (by omega), Ram.write_of_lt (by omega) (by omega),
      getD_sectorBytes w start (by omega), getD_sectorBytes w start (by omega)]

/-- What a result 0 leaves in memory. -/
theorem loadFromSpinor_zero {s : St} (h : (loadFromSpinor w start s).1 = 0) :
    magic w (loadFromSpinor w start s).2.ram = mediumWord w start 16 ∧
      mediumWord w start 16 = tocMainInfoMagic ∧
      validLen w (loadFromSpinor w start s).2.ram = mediumWord w start 36 ∧
      (loadFromSpinor w start s).2.ram = (s.ram.write w.bootpkgBase (sectorBytes w start 1)).write
        w.bootpkgBase (sectorBytes w start (mediumWord w start 36 / 512)) := by
  simp only [loadFromSpinor] at h ⊢
  split_ifs at h ⊢ with hhead hmagic hwhole
  · cases h
  · cases h
  · cases h
  rw [Bool.not_eq_false] at hhead hwhole
  have hlen : validLen w (readSectors w start 1 w.bootpkgBase s).2.ram = mediumWord w start 36 :=
    word_readSectors w (by decide) (by decide) (by decide) hhead
  have hword : magic w (readSectors w start 1 w.bootpkgBase s).2.ram = mediumWord w start 16 :=
    word_readSectors w (by decide) (by decide) (by decide) hhead
  have hlt := mediumWord_lt w start 36
  rw [hlen] at hwhole ⊢
  have hsame := readSectors_again w (by omega) hhead hwhole
  rw [hword, not_not] at hmagic
  refine ⟨hsame.magic.trans hword, hmagic, hsame.validLen.trans hlen, ?_⟩
  rw [readSectors_of_true w hwhole, readSectors_of_true w hhead]

theorem loadFromSpinor_loads (h : SpinorSound w start) (s : St) :
    Loads w (loadFromSpinor w start s) := by
  intro hzero
  rcases loadFromSpinor_zero w hzero with ⟨hword, hmagic, hlen, hram⟩
  refine ⟨hword.trans hmagic, ?_⟩
  rw [hlen, hram]
  exact h hmagic s.ram

theorem loadToc1FromSpinor_loads (h : SpinorSound w w.toc1Start) (s : St) :
    Loads w (loadToc1FromSpinor w s) := by
  unfold loadToc1FromSpinor
  split_ifs
  · exact loads_error w
  · exact loadFromSpinor_loads w h s

theorem loadToc1OtaFromSpinor_loads (h : SpinorSound w (otaStartSector w)) (s : St) :
    Loads w (loadToc1OtaFromSpinor w s) := by
  unfold loadToc1OtaFromSpinor
  split_ifs
  · exact loads_error w
  · exact loads_error w
  · exact loadFromSpinor_loads w h s

end

/-- The state before a loader is called. -/
def freshState : St := ⟨fun _ => 0, 0, []⟩

end Brandy.SplLoader
