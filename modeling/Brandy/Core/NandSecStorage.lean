import Brandy.Library.Memory

/-!
# Secure Storage on Raw NAND

The part of `nand_secure_storage.c` that reads and writes items. Two blocks hold the same pages,
each with a marker and a checksum in its spare bytes. An item takes one or more pages, depending on
the page size, and as many copies of all items as fit are put one behind the other into each block.

The calls of the NAND layer succeed here. What fails on a medium later is said by the pages
themselves.

## Main definitions

* `Page`, `Block`, `Storage`: A page with its spare bytes, a block, and the two blocks.
* `read`, `write`: An item is read or written.
* `check`, `repair`, `update`: What follows a write.
-/

namespace Brandy.NandSec

open Memory (leValue leBytes wordSum)

def maxSecureStorageItem : Nat := 32

def itemLen : Nat := 4096

/-- The size of a page in sectors and of a block in pages. A block has room for all items. -/
structure Geometry where
  sectorCntPerPage : Nat
  sectorCntPerPage_pos : 0 < sectorCntPerPage
  pageCntPerBlk : Nat
  room : maxSecureStorageItem * (if itemLen ≤ sectorCntPerPage * 512 then 1
    else itemLen / (sectorCntPerPage * 512)) ≤ pageCntPerBlk

/-- `nand_get_pae_size`. -/
def Geometry.pageSize (g : Geometry) : Nat := g.sectorCntPerPage * 512

/-- A page with its 64 spare bytes. -/
structure Page (g : Geometry) where
  data : List UInt8
  spare : List UInt8
  length_data : data.length = g.pageSize
  length_spare : spare.length = 64
  deriving DecidableEq

/-- A block, page by page. -/
abbrev Block (g : Geometry) := Nat → Page g

/-- `nand_secure_storage_block` and `nand_secure_storage_block_bak`. -/
structure Storage (g : Geometry) where
  main : Block g
  bak : Block g

section

variable (g : Geometry)

/-- `pages_cnt_per_item` for a length. -/
def pagesCntPerItem (len : Nat) : Nat := if len ≤ g.pageSize then 1 else len / g.pageSize

/-- `len` behind the computation of `pages_cnt_per_item`. -/
def lenPerPage (len : Nat) : Nat := if len ≤ g.pageSize then len else g.pageSize

/-- A page after an erase. -/
def erasedPage : Page g where
  data := List.replicate g.pageSize 0xff
  spare := List.replicate 64 0xff
  length_data := List.length_replicate
  length_spare := List.length_replicate

/-- `nand_physic_erase_block`. -/
def eraseBlock : Block g := fun _ => erasedPage g

variable {g}

/-- `nand_physic_write_page` to a page that has been erased. -/
def writePage (b : Block g) (page : Nat) (p : Page g) : Block g := Function.update b page p

/-- `nand_secure_check_sum`. -/
def checkSum (mbuf : List UInt8) (len : Nat) : Nat := (0x1234 + wordSum (len / 4) mbuf) % 2 ^ 32

/-- The marker in the spare bytes. -/
def Page.marked (p : Page g) : Bool := p.spare.getD 1 0 == 0xaa && p.spare.getD 2 0 == 0x5c

/-- The checksum in the spare bytes, greatest byte first. -/
def Page.readSum (p : Page g) : Nat := Memory.beValue ((p.spare.drop 3).take 4)

/-- The loop of `nand_secure_storage_read_one` over the copies of a page, with what it leaves in
    `mbuf`. -/
def readOneLoop (b : Block g) (len : Nat) : Nat → Nat → List UInt8 → Int × List UInt8
  | 0, _, mbuf => (-1, mbuf)
  | fuel + 1, item, mbuf =>
    if item < g.pageCntPerBlk then
      let page := b item
      if page.marked = false then readOneLoop b len fuel (item + maxSecureStorageItem) page.data
      else if page.readSum = checkSum page.data len then
        if page.readSum = 0x1234 then (1, page.data) else (0, page.data)
      else readOneLoop b len fuel (item + maxSecureStorageItem) page.data
    else (-1, mbuf)

/-- `nand_secure_storage_read_one`. The loop has at most as many turns as the block has pages. -/
def readOne (b : Block g) (item : Nat) (mbuf : List UInt8) (len : Nat) : Int × List UInt8 :=
  readOneLoop b len g.pageCntPerBlk item mbuf

/-- The two calls of `nand_secure_storage_read_one` for a page of an item. -/
def readBoth (s : Storage g) (item : Nat) (mbuf : List UInt8) (len : Nat) : Int × List UInt8 :=
  let first := readOne s.main item mbuf len
  if first.1 = -1 then readOne s.bak item first.2 len else first

/-- `memcpy` to an offset of a buffer. -/
def memcpyAt (buf : List UInt8) (off : Nat) (bs : List UInt8) : List UInt8 :=
  buf.take off ++ bs ++ buf.drop (off + bs.length)

/-- The loop of `nand_secure_storage_read` over the pages of an item from index `i` on, with `ret`
    and `buf`. -/
def readPages (s : Storage g) (itemTmp cnt len : Nat) :
    Nat → Nat → Int → List UInt8 → List UInt8 → Int × List UInt8
  | 0, _, ret, _, buf => (ret, buf)
  | left + 1, i, _, mbuf, buf =>
    let one := readBoth s ((itemTmp * cnt + i) % 2 ^ 32) mbuf len
    let off := if cnt = 1 then 0 else i * len
    let buf :=
      if one.1 = 0 then memcpyAt buf off (one.2.take len)
      else memcpyAt buf off (List.replicate len 0)
    readPages s itemTmp cnt len left (i + 1) one.1 one.2 buf

/-- What a call finds besides the flash: whether the controller is or can be initialised, whether
    there is memory, and what that memory holds. -/
structure Env where
  hwInit : Bool
  malloc : Option (List UInt8)

/-- `nand_secure_storage_read`: the result and the buffer. The item is the unsigned number that the
    code makes of it. -/
def read (e : Env) (s : Storage g) (item : Nat) (buf : List UInt8) (len : Nat) :
    Int × List UInt8 :=
  if e.hwInit = false then (-1, buf)
  else if len % 1024 ≠ 0 then (-1, buf)
  else
    match e.malloc with
    | none => (-1, buf)
    | some mbuf =>
      readPages s item (pagesCntPerItem g len) (lenPerPage g len) (pagesCntPerItem g len) 0 0 mbuf
        buf

/-- The loop of `nand_secure_storage_check` over the pages from `i` on: the results for the page it
    stops at. -/
def checkLoop (s : Storage g) (mbuf : List UInt8) : Nat → Nat → Int → Int → Int × Int
  | 0, _, ret1, ret2 => (ret1, ret2)
  | left + 1, i, _, _ =>
    let one := readOne s.main i mbuf g.pageSize
    let two := readOne s.bak i one.2 g.pageSize
    if one.1 ≠ two.1 then (one.1, two.1)
    else if one.1 < 0 then (one.1, two.1)
    else checkLoop s two.2 left (i + 1) one.1 two.1

/-- `nand_secure_storage_check`. -/
def check (s : Storage g) (mbuf : List UInt8) : Int :=
  let (ret1, ret2) :=
    checkLoop s mbuf (pagesCntPerItem g itemLen * maxSecureStorageItem) 0 (-1) (-1)
  if ret1 < 0 ∧ ret2 < 0 then -1
  else if ret1 = ret2 then 0
  else if ret2 = 0 ∨ ret1 < 0 then 2
  else if ret1 = 0 ∨ ret2 < 0 then 1
  else -1

/-- `nand_physic_block_copy` into a block that has been erased. -/
def blockCopy (src : Block g) (copyNums : Nat) : Block g :=
  (List.range copyNums).foldl (fun dst i => writePage dst i (src i)) (eraseBlock g)

/-- `nand_secure_storage_repair`. -/
def repair (flag : Int) (copyNums : Nat) (s : Storage g) : Storage g :=
  if flag = 1 then { s with bak := blockCopy s.main copyNums }
  else if flag = 2 then { s with main := blockCopy s.bak copyNums }
  else s

/-- The loop of `nand_secure_storage_update`, which repairs four times at most. -/
def updateLoop (mbuf : List UInt8) : Nat → Storage g → Storage g
  | 0, s => s
  | retry + 1, s =>
    if check s mbuf ≤ 0 then s
    else updateLoop mbuf retry (repair (check s mbuf) g.pageCntPerBlk s)

/-- `nand_secure_storage_update`. -/
def update (mbuf : List UInt8) (s : Storage g) : Storage g := updateLoop mbuf 4 s

/-- A buffer of a page's size with the given bytes in front, and 0 behind. -/
def fill (g : Geometry) (bs : List UInt8) : List UInt8 :=
  (bs ++ List.replicate g.pageSize 0).take g.pageSize

theorem length_fill (bs : List UInt8) : (fill g bs).length = g.pageSize := by
  rw [fill, List.length_take, List.length_append, List.length_replicate]
  omega

variable (g)

/-- The spare bytes of a page with a checksum. -/
def spareOf (sum : Nat) : List UInt8 :=
  [0xff, 0xaa, 0x5c] ++ (leBytes 4 sum).reverse ++ List.replicate 57 0xff

/-- What is written to page `i` of an item: the marker, the checksum and the part of `buf` that
    belongs there. -/
def itemPage (buf : List UInt8) (cnt len i : Nat) : Page g where
  data :=
    if cnt = 1 then fill g (buf.take len)
    else fill g ((buf.drop (g.pageSize * (i % cnt))).take g.pageSize)
  spare :=
    spareOf (checkSum
      (if cnt = 1 then fill g (buf.take len)
        else fill g ((buf.drop (g.pageSize * (i % cnt))).take g.pageSize)) len)
  length_data := by split <;> exact length_fill _
  length_spare := by
    rw [spareOf, List.length_append, List.length_append, List.length_reverse,
      Memory.length_leBytes, List.length_replicate]
    rfl

variable {g}

/-- The first loop of `nand_secure_storage_write`: all items into the erased second block, one from
    `buf` and the others from the first block. -/
def writeItems (main : Block g) (item : Nat) (buf : List UInt8) (cnt len : Nat) : Block g :=
  (List.range (maxSecureStorageItem * cnt)).foldl
    (fun bak i => writePage bak i (if i / cnt ≠ item then main i else itemPage g buf cnt len i))
    (eraseBlock g)

/-- The second loop: copies of all items behind them, as far as the block goes. -/
def writeCopies (cnt : Nat) (bak : Block g) : Block g :=
  (List.range' (maxSecureStorageItem * cnt) (g.pageCntPerBlk - maxSecureStorageItem * cnt)).foldl
    (fun bak i => writePage bak i (bak (i % (maxSecureStorageItem * cnt)))) bak

/-- `nand_secure_storage_write`. -/
def write (e : Env) (item : Nat) (buf : List UInt8) (len : Nat) (s : Storage g) :
    Int × Storage g :=
  if e.hwInit = false then (-1, s)
  else
    -- the check before has a buffer of its own, and what is in it does not matter
    let s := update (e.malloc.getD []) s
    if len % 1024 ≠ 0 then (-1, s)
    else
      match e.malloc with
      | none => (-1, s)
      | some _ =>
        let cnt := pagesCntPerItem g len
        let bak := writeCopies cnt (writeItems s.main item buf cnt (lenPerPage g len))
        (0, repair 2 g.pageCntPerBlk { s with bak := bak })

end

end Brandy.NandSec
