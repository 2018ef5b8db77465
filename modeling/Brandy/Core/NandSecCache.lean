import Brandy.Core.NandSecStorage

/-!
# Writing Secure Storage Through a Cache

`nand_secure_storage_fast_write`, `nand_secure_storage_flush` and `nand_secure_storage_init` of
`nand_secure_storage.c`. A fast write only changes the pages of an item in memory, where the first
one since the last flush loads all pages. A flush erases the first block and writes the pages to it,
and erases the second block, which is filled again from the first one at the next start.

A block whose erase fails is as it was. The controller is always ready, there is always memory, and
reads and writes of pages succeed.

## Main definitions

* `Session`: The blocks, and the pages in memory.
* `fastWrite`, `flush`, `init`: A write, a flush and a start.
-/

namespace Brandy.NandSec

def maxPageCntPerItem : Nat := 2

def minSecureStorageBlockNum : Nat := 8

def maxSecureStorageBlockNum : Nat := 50

/-- The blocks of the chip, the numbers of the two of the storage, and `gs` with numbers of its own.
    A page of `gs.pages` and its spare bytes in `gs.oobs` are one page here. -/
structure Session (g : Geometry) where
  flash : Nat → Block g
  block : Nat
  blockBak : Nat
  blockA : Nat
  blockB : Nat
  pages : Nat → Page g
  pagesRight : Nat → Nat
  begin : Bool
  writing : Bool

section

variable {g : Geometry}

/-- The two blocks. -/
def Session.storage (s : Session g) : Storage g := ⟨s.flash s.block, s.flash s.blockBak⟩

/-- The loop of `nand_secure_storage_read_one_pre`, with the page in the buffers and the entry of
    `pages_right` for the page where the loop ends. -/
def readOnePreLoop (b : Block g) (cnt len : Nat) :
    Nat → Nat → Page g → (Nat → Nat) → Page g × (Nat → Nat)
  | 0, _, page, right => (page, right)
  | fuel + 1, p, page, right =>
    if p < g.pageCntPerBlk then
      let page := b p
      if page.marked = false then
        readOnePreLoop b cnt len fuel (p + maxSecureStorageItem) page right
      else if page.readSum = checkSum page.data len then
        (page, Function.update right (p % (cnt * maxSecureStorageItem))
          (if page.readSum = 0x1234 then 1 else 0))
      else readOnePreLoop b cnt len fuel (p + maxSecureStorageItem) page right
    else (page, Function.update right (p % (cnt * maxSecureStorageItem)) 2)

/-- `nand_secure_storage_read_one_pre`. The loop has at most as many turns as the block has pages,
    and one for the end. -/
def readOnePre (b : Block g) (cnt len p : Nat) (page : Page g) (right : Nat → Nat) :
    Page g × (Nat → Nat) :=
  readOnePreLoop b cnt len (g.pageCntPerBlk + 1) p page right

/-- A page is loaded from the first block, or else from the second. -/
def preloadPage (cnt len : Nat) (s : Session g) (i : Nat) : Session g :=
  let one := readOnePre (s.flash s.block) cnt len i (s.pages i) s.pagesRight
  let two :=
    if one.2 i ≠ 0 ∧ one.2 i ≠ 1 then readOnePre (s.flash s.blockBak) cnt len i one.1 one.2 else one
  { s with pages := Function.update s.pages i two.1, pagesRight := two.2 }

/-- A page of `gs` with new memory for its data. -/
def Page.cleared (p : Page g) : Page g :=
  { p with data := List.replicate g.pageSize 0, length_data := List.length_replicate }

/-- The pages of all items are loaded. -/
def preload (cnt len : Nat) (s : Session g) : Session g :=
  (List.range (maxSecureStorageItem * cnt)).foldl (preloadPage cnt len)
    { s with pages := fun i =>
        if i < maxSecureStorageItem * cnt then (s.pages i).cleared else s.pages i }

/-- The byte with `blockA_gap` and `blockB_gap`, which have four bits each. -/
def gapByte (start blockA blockB : Nat) : UInt8 :=
  UInt8.ofNat ((((blockA : Int) - start) % 16).toNat + 16 * (((blockB : Int) - blockA) % 16).toNat)

/-- `struct nand_secure_storage_oob` and the spare bytes behind it. -/
def gapSpare (sum : Nat) (gap : UInt8) : List UInt8 :=
  [0xff, 0xaa, 0x5c] ++ (Memory.leBytes 4 sum).reverse ++ ([gap] ++ List.replicate 56 0xff)

theorem length_gapSpare (sum : Nat) (gap : UInt8) : (gapSpare sum gap).length = 64 := by
  rw [gapSpare, List.length_append, List.length_append, List.length_reverse, Memory.length_leBytes,
    List.length_append, List.length_replicate]
  rfl

variable (g)

/-- What is put into `gs` for page `i` of an item. -/
def cachedPage (gap : UInt8) (buf : List UInt8) (cnt len i : Nat) : Page g where
  data := (itemPage g buf cnt len i).data
  spare := gapSpare (checkSum (itemPage g buf cnt len i).data len) gap
  length_data := (itemPage g buf cnt len i).length_data
  length_spare := length_gapSpare _ _

variable {g}

/-- The pages are loaded if none has been written since the last flush. -/
def begin (cnt len : Nat) (s : Session g) : Session g :=
  if s.begin then s else preload cnt len { s with begin := true }

/-- The pages of an item are put into `gs`. -/
def putItem (start item : Nat) (buf : List UInt8) (cnt len : Nat) (s : Session g) : Session g :=
  { s with
    pages := fun i =>
      if i < maxSecureStorageItem * cnt ∧ i / cnt = item then
        cachedPage g (gapByte start s.blockA s.blockB) buf cnt len i
      else s.pages i }

/-- `nand_secure_storage_fast_write`, where `start` is the first block behind U-Boot. -/
def fastWrite (start item : Nat) (buf : List UInt8) (len : Nat) (s : Session g) : Int × Session g :=
  let s := { s with writing := true }
  if len % 1024 ≠ 0 then (-1, s)
  else
    let cnt := pagesCntPerItem g len
    if maxPageCntPerItem < cnt then (-1, s)
    else (0, putItem start item buf cnt (lenPerPage g len) (begin cnt (lenPerPage g len) s))

/-- Which erases succeed: the tries for the first block, and the one for the second. -/
structure Erases where
  blockA : Nat → Bool
  blockB : Bool

/-- Whether one of at most `left` tries for the first block succeeds, from try `cnt` on. -/
def Erases.retry (o : Erases) : Nat → Nat → Bool
  | 0, _ => false
  | left + 1, cnt => if o.blockA cnt then true else o.retry left (cnt + 1)

/-- All pages of a block are written from the cache. -/
def writeCache (pages : Nat → Page g) : Block g :=
  (List.range g.pageCntPerBlk).foldl
    (fun b p => writePage b p (pages (p % (maxSecureStorageItem * pagesCntPerItem g itemLen))))
    (eraseBlock g)

/-- `nand_secure_storage_flush`. -/
def flush (o : Erases) (s : Session g) : Int × Session g :=
  if s.writing = false then (0, s)
  else
    let flash := if o.retry 3 0 then Function.update s.flash s.block (writeCache s.pages)
      else s.flash
    let flash := if o.blockB then Function.update flash s.blockBak (eraseBlock g) else flash
    (if o.blockB then 0 else -1, { s with flash := flash, begin := false, writing := false })

variable (g)

/-- An empty page. -/
def initPage (gap : UInt8) : Page g where
  data := List.replicate g.pageSize 0
  spare := gapSpare 0x1234 gap
  length_data := List.length_replicate
  length_spare := length_gapSpare _ _

/-- `nand_secure_storage_write_init` of a block that can be erased. -/
def writeInit (gap : UInt8) : Block g :=
  (List.range g.pageCntPerBlk).foldl (fun b p => writePage b p (initPage g gap)) (eraseBlock g)

variable {g}

/-- What `nand_secure_storage_first_build` leaves on a chip whose first good blocks are `blockA` and
    `blockB`, with no block of the storage before. -/
def firstBuild (start blockA blockB : Nat) (s : Session g) : Session g :=
  { s with
    flash := Function.update
      (Function.update s.flash blockA (writeInit g (gapByte start blockA blockB))) blockB
      (writeInit g (gapByte start blockA blockB))
    block := blockA
    blockBak := blockB
    blockA := blockA
    blockB := blockB }

/-- A spare byte of a page. -/
def Page.oob (p : Page g) (i : Nat) : UInt8 := p.spare.getD i 0

/-- `is_nand_secure_storage_block`. -/
def isSecureStorageBlock (b : Block g) : Bool :=
  (b 0).oob 0 == 0xff && (b 0).oob 1 == 0xaa && (b 0).oob 2 == 0x5c

/-- The first block of the storage from a number on. -/
def findBlock (flash : Nat → Block g) (n : Nat) : Option Nat :=
  (List.range' n (maxSecureStorageBlockNum - n)).find? fun n => isSecureStorageBlock (flash n)

/-- `nand_secure_check_and_correct_blockAB_number`. The gaps are those of the last block that was
    found. -/
def correctBlocks (flash : Nat → Block g) (start blockA blockB : Nat) : Nat × Nat :=
  if minSecureStorageBlockNum ≤ blockA ∧ blockB ≤ blockA then
    let gap := ((flash blockA 0).oob 7).toNat
    (gap % 16 + start, gap / 16 + (gap % 16 + start))
  else (blockA, blockB)

/-- `nand_secure_check_is_need_backfill`. -/
def isNeedBackfill (a b : Block g) : Bool :=
  (a 0).oob 0 == 0xff && (a 0).readSum != 0x1234 &&
    ((b (g.pageCntPerBlk - 1)).oob 0 == 0xff && (b (g.pageCntPerBlk - 1)).oob 1 == 0xff &&
      (b (g.pageCntPerBlk - 1)).oob 2 == 0xff && (b (g.pageCntPerBlk - 1)).oob 3 == 0xff)

variable (g)

/-- The page that `gs` starts with. -/
def zeroPage : Page g where
  data := List.replicate g.pageSize 0
  spare := List.replicate 64 0
  length_data := List.length_replicate
  length_spare := List.length_replicate

variable {g}

/-- `nand_secure_storage_init` without an update, after a restart. The second block is only looked
    for behind the first. -/
def init (start : Nat) (flash : Nat → Block g) : Session g :=
  let blockA := findBlock flash start
  let blockB := blockA.bind fun n => findBlock flash (n + 1)
  let (a, b) := correctBlocks flash start (blockA.getD 0) (blockB.getD 0)
  let flash :=
    if a < b ∧ isNeedBackfill (flash a) (flash b) = true then
      Function.update flash b (blockCopy (flash a) g.pageCntPerBlk)
    else flash
  let found := ¬ (a < minSecureStorageBlockNum ∨ b ≤ a)
  { flash := flash
    block := if found then a else 0
    blockBak := if found then b else 0
    blockA := a
    blockB := b
    pages := fun _ => zeroPage g
    pagesRight := fun _ => 0
    begin := false
    writing := false }

end

end Brandy.NandSec
