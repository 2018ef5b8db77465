import Brandy.Core.RawNand.Geometry
import Brandy.Library.Bitmap

/-!
# The Bad Block Table of a Raw NAND

A model of `aw_rawnand_bbt.c`. The table has two bits for a block: one in `bbtd` that says whether
the block has been looked at, and one in `bbt` that says whether it is bad. A block that has not
been looked at is judged by the first spare byte of one to three of its pages, which depend on the
chip.

What a page read delivers may depend on what was done to the block before, but not on operations on
other blocks (`read_frame`). The return code of marking a block, which the scan drops, is a function
of its own, over the outcomes of the page programs.

## Main definitions

* `BbtWorld`, `BbtState`: The chip, and the table with the operations so far.
* `blockBad`, `blockMarkbad`, `blockMarkbadRet`: A block is judged or marked.
* `scanBbt`: The scan of all chips.
-/

namespace Brandy.RawNand

/-- `enum error_management`, and any other value. -/
inductive MarkPos where
  | firstPage
  | firstTwoPages
  | lastPage
  | lastTwoPages
  | firstAndLastPages
  | firstTwoAndLastPages
  | other
  deriving DecidableEq, Repr

def eccErr : Int := 2 <<< 4

def bbtBInvalid : Nat := 2

def bbtBBad : Nat := 1

def bbtBGood : Nat := 0

/-- What is done to a chip: a block is erased, or a page is written. -/
inductive Op where
  | erase (chip block : Nat)
  | write (chip page : Nat)
  deriving DecidableEq, Repr

/-- The chip an operation is for. -/
def Op.chip : Op → Nat
  | .erase chip _ => chip
  | .write chip _ => chip

/-- The block an operation is for. -/
def Op.block (g : Geometry) : Op → Nat
  | .erase _ block => block
  | .write _ page => page / 2 ^ g.pagesPerBlkShift

/-- The chips. After some operations, the read of a page returns a code and a first spare byte, and
    the erase of a block succeeds or not. -/
structure BbtWorld where
  geometry : Geometry
  /-- `badblock_mark_pos`. -/
  markPos : MarkPos
  read : List Op → Nat → Nat → Int × UInt8
  eraseOk : List Op → Nat → Nat → Bool
  read_frame : ∀ ops chip page,
    (∀ op ∈ ops, ¬ (op.chip = chip ∧ op.block geometry = page / 2 ^ geometry.pagesPerBlkShift)) →
      read ops chip page = read [] chip page

/-- `bbt` and `bbtd`. -/
structure Table where
  bbt : Bitmap
  bbtd : Bitmap

/-- `aw_rawnand_chip_check_badblock_bbt`. -/
def checkBadblockBbt (t : Table) (block : Nat) : Nat :=
  if t.bbtd.get block then
    if t.bbt.get block then bbtBBad else bbtBGood
  else bbtBInvalid

/-- `aw_rawnand_chip_update_bbt`. -/
def updateBbt (t : Table) (block flag : Nat) : Table where
  bbtd := t.bbtd.set block
  bbt := if flag = bbtBGood then t.bbt.clear block else t.bbt.set block

/-- The table and the operations so far. -/
structure BbtState where
  table : Table
  ops : List Op

section

variable (w : BbtWorld) (ops : List Op) (chip block : Nat)

/-- The first page of a block. -/
def firstPage : Nat := block <<< w.geometry.pagesPerBlkShift

/-- The last page of a block. -/
def lastPage : Nat := (block <<< w.geometry.pagesPerBlkShift) + w.geometry.pagesPerBlkMask

/-- Judging a block by one of its pages. -/
def checkPage (page : Nat) : Nat :=
  let r := w.read ops chip page
  if r.1 ≠ eccErr then
    if r.2 ≠ 0xff then bbtBBad else bbtBGood
  else bbtBBad

/-- `aw_rawnand_chip_block_bad_check_first_page`. -/
def checkFirstPage : Nat := checkPage w ops chip (firstPage w block)

/-- `aw_rawnand_chip_block_bad_check_first_two_pages`. The verdict on the second page is replaced by
    that for a good page. -/
def checkFirstTwoPages : Nat :=
  if checkFirstPage w ops chip block = bbtBBad then bbtBBad
  else
    let r := w.read ops chip (firstPage w block + 1)
    if r.1 ≠ eccErr then bbtBGood else bbtBBad

/-- `aw_rawnand_chip_block_bad_check_last_page`. -/
def checkLastPage : Nat := checkPage w ops chip (lastPage w block)

/-- `aw_rawnand_chip_block_bad_check_last_two_pages`. -/
def checkLastTwoPages : Nat :=
  if checkLastPage w ops chip block = bbtBBad then bbtBBad
  else checkPage w ops chip (lastPage w block - 1)

/-- `aw_rawnand_chip_block_bad_check_first_and_last_pages`. -/
def checkFirstAndLastPages : Nat :=
  if checkFirstPage w ops chip block = bbtBBad then bbtBBad else checkLastPage w ops chip block

/-- `aw_rawnand_chip_block_bad_check_first_two_and_last_pages`. -/
def checkFirstTwoAndLastPages : Nat :=
  if checkFirstTwoPages w ops chip block = bbtBBad then bbtBBad else checkLastPage w ops chip block

/-- The function that `badblock_mark_pos` selects. An unknown position selects none. -/
def checkMarks : Option Nat :=
  match w.markPos with
  | .firstPage => some (checkFirstPage w ops chip block)
  | .firstTwoPages => some (checkFirstTwoPages w ops chip block)
  | .lastPage => some (checkLastPage w ops chip block)
  | .lastTwoPages => some (checkLastTwoPages w ops chip block)
  | .firstAndLastPages => some (checkFirstAndLastPages w ops chip block)
  | .firstTwoAndLastPages => some (checkFirstTwoAndLastPages w ops chip block)
  | .other => none

end

/-- `aw_rawnand_chip_block_bad`, on the selected chip: the verdict and the table. -/
def blockBad (w : BbtWorld) (chip : Nat) (s : BbtState) (block : Nat) : Nat × BbtState :=
  let ret := checkBadblockBbt s.table block
  if ret = bbtBGood then (ret, s)
  else if ret = bbtBBad then (ret, s)
  else
    match checkMarks w s.ops chip block with
    | none => (ret, s)
    | some ret =>
      if ret = bbtBBad then (bbtBBad, { s with table := updateBbt s.table block bbtBBad })
      else (bbtBGood, { s with table := updateBbt s.table block bbtBGood })

/-- The pages that marking a block writes, in the order of the source. -/
def markWrites (w : BbtWorld) (block : Nat) : List Nat :=
  match w.markPos with
  | .firstPage => [firstPage w block]
  | .lastPage => [lastPage w block]
  | .firstTwoPages => [firstPage w block, firstPage w block + 1]
  | .lastTwoPages => [lastPage w block, lastPage w block - 1]
  | .firstAndLastPages => [firstPage w block, lastPage w block]
  | .firstTwoAndLastPages => [firstPage w block, firstPage w block + 1, lastPage w block]
  | .other => [firstPage w block]

/-- What `aw_rawnand_chip_block_markbad` does to the chip. -/
def markOps (w : BbtWorld) (chip : Nat) (ops : List Op) (block : Nat) : List Op :=
  let bound := (w.geometry.chips * w.geometry.chipsize) >>> w.geometry.eraseShift
  if bound < block then []
  else if w.eraseOk ops chip block then
    .erase chip block :: (markWrites w block).map (.write chip)
  else [.erase chip block]

/-- `aw_rawnand_chip_block_markbad`, on the selected chip. -/
def blockMarkbad (w : BbtWorld) (chip : Nat) (s : BbtState) (block : Nat) : BbtState where
  ops := s.ops ++ markOps w chip s.ops block
  table := updateBbt s.table block bbtBBad

/-- The chips with what the program of a page with a mark in its spare bytes returns. One that
    returns 0 has stored the mark until the block is erased or the page written. -/
structure MarkWorld extends BbtWorld where
  writeRet : List Op → Nat → Nat → BitVec 32
  stored : ∀ ops chip page later, writeRet ops chip page = 0 →
    (∀ op ∈ later, op ≠ .write chip page ∧ op ≠ .erase chip
      (page / 2 ^ geometry.pagesPerBlkShift)) →
      (read (ops ++ .write chip page :: later) chip page).2 = 0

/-- The return code of `aw_rawnand_chip_block_markbad`. Where the last page is written after the
    first ones, their codes are lost. -/
def blockMarkbadRet (w : MarkWorld) (chip : Nat) (ops : List Op) (block : Nat) : BitVec 32 :=
  let bound := (w.geometry.chips * w.geometry.chipsize) >>> w.geometry.eraseShift
  let first := firstPage w.toBbtWorld block
  let last := lastPage w.toBbtWorld block
  -- the code of a page that is written after some others
  let ret := fun (before : List Nat) page =>
    w.writeRet (ops ++ .erase chip block :: before.map (.write chip)) chip page
  if bound < block then -22
  else if w.eraseOk ops chip block then
    match w.markPos with
    | .firstPage => ret [] first
    | .lastPage => ret [] last
    | .firstTwoPages => ret [] first ||| ret [first] (first + 1)
    | .lastTwoPages => ret [] last ||| ret [last] (last - 1)
    | .firstAndLastPages => ret [first] last
    | .firstTwoAndLastPages => ret [first, first + 1] last
    | .other => ret [] first
  else -5

/-- One block of the scan. -/
def scanBlock (w : BbtWorld) (chip : Nat) (s : BbtState) (b : Nat) : BbtState :=
  let r := blockBad w chip s b
  let s :=
    if r.1 ≠ 0 then blockMarkbad w chip r.2 b
    else { r.2 with table := { r.2.table with bbt := r.2.table.bbt.clear b } }
  { s with table := { s.table with bbtd := s.table.bbtd.set b } }

/-- The scan of one chip. -/
def scanChip (w : BbtWorld) (s : BbtState) (chip : Nat) : BbtState :=
  let totalBlocks := w.geometry.chipsize >>> w.geometry.eraseShift
  (List.range totalBlocks).foldl (scanBlock w chip) s

/-- The tables as they are allocated. -/
def initialBbt : BbtState where
  table := ⟨Bitmap.empty, Bitmap.empty⟩
  ops := []

/-- `aw_rawnand_chip_scan_bbt`, on a device whose tables have just been allocated. -/
def scanBbt (w : BbtWorld) : BbtState :=
  (List.range w.geometry.chips).foldl (scanChip w) initialBbt

end Brandy.RawNand
