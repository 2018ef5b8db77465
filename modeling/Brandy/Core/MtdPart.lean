import Brandy.Library.Memory
import Brandy.Library.Word

/-!
# Raw MTD Partitions

A model of `write_mtd_part`, `flush_mtd_dev` and `read_mtd_part` from
`drivers/mtd/awnand/sunxi-ubi.c`, with the part of the MTD layer that they use.

A partition is written as a stream. The writer keeps the number of sectors it has received and of
those skipped over bad blocks, and a buffer with the last page when that is not full. Programming a
page clears bits and sets none. All positions are 32-bit, and the search for a good block at the
beginning of a call goes around at the end of the address range.

## Main definitions

* `Part`, `St`: The counters of a partition, and all of them with the flash.
* `writeMtdPart`, `flushMtdDev`, `readMtdPart`: The calls from outside.
-/

namespace Brandy.MtdPart

open Memory Word

/-- A chip: its erase block, page and size in bytes, and its bad blocks. Behind its end every block
    counts as bad. -/
structure Geometry where
  erasesize : Nat
  pagesize : Nat
  size : Nat
  isBad : Nat → Bool
  pagesize_pos : 0 < pagesize
  erasesize_pos : 0 < erasesize
  pagesize_dvd : pagesize ∣ erasesize
  sector_dvd : 512 ∣ erasesize
  size_lt : size < 2 ^ 32
  beyond : ∀ b, size < (b + 1) * erasesize → isBad b = true

/-- The fields of `struct ubi_mtd_part` that the writer uses. -/
structure Part where
  offset : Nat
  planWrSects : Nat
  writtenSects : Nat
  skipSects : Nat
  lastSkipBlock : Int

/-- `struct ubi_mtd_info` with the static `last_num` of `write_mtd_part`, and the bytes of the
    chip. -/
structure St where
  wbuf : Mem
  lastPartno : Int
  part : Nat → Part
  lastNum : Int
  flash : Mem

/-- The state with another partition entry. -/
def St.setPart (st : St) (num : Nat) (p : Part) : St :=
  { st with part := Function.update st.part num p }

/-- The erases and writes that fail, by address. -/
structure Faults where
  erase : Nat → Bool
  write : Nat → Bool

/-- A chip on which nothing fails. -/
def noFaults : Faults := ⟨fun _ => false, fun _ => false⟩

def mtdWBufSize : Nat := 64 * 1024

/-- `to_bytes` on 32 bits. -/
def toBytes (sects : Nat) : Nat := sects * 512 % 2 ^ 32

def toSects (bytes : Nat) : Nat := bytes / 512

/-- `to_align` on 32 bits. -/
def toAlign (size limit : Nat) : Nat :=
  if limit ≠ 0 then (size + limit - 1) % 2 ^ 32 / limit * limit else size

/-- `write_mtd_do` of `len` bytes of `buf`. -/
def writeMtdDo (geo : Geometry) (faults : Faults) (flash : Mem) (dst len : Nat) (buf : Mem) :
    Int × Mem :=
  if geo.size < dst ∨ geo.size - dst < len then (-22, flash)
  else if faults.write dst then (-5, flash)
  else (0, overlay flash (fun x => flash x &&& buf (x - dst)) dst len)

/-- `mtd->_erase` of one block. -/
def eraseMtd (geo : Geometry) (faults : Faults) (flash : Mem) (addr : Nat) : Int × Mem :=
  if geo.size ≤ addr then (-75, flash)
  else if faults.erase addr then (-5, flash)
  else (0, overlay flash (fun _ => 0xff) addr geo.erasesize)

/-- The loop of `flush_mtd_dev`, with the number of pages. -/
def flushLoop (geo : Geometry) (faults : Faults) (offset : Nat) :
    Nat → Nat → Mem → Mem → Int × Nat × Mem × Mem
  | 0, writtenBytes, updBuf, flash => (0, writtenBytes, updBuf, flash)
  | n + 1, writtenBytes, updBuf, flash =>
    let dst := (offset + writtenBytes) % 2 ^ 32
    let (ret, flash) := writeMtdDo geo faults flash dst geo.pagesize updBuf
    if ret ≠ 0 then (ret, writtenBytes, updBuf, flash)
    else
      flushLoop geo faults offset n ((writtenBytes + geo.pagesize) % 2 ^ 32)
        (overlay updBuf (fun _ => 0xff) 0 geo.pagesize) flash

def flushMtdDev (geo : Geometry) (faults : Faults) (st : St) : Int × St :=
  if st.lastPartno < 0 then (0, st)
  else
    let num := st.lastPartno.toNat
    let offset := (st.part num).offset
    let updReceived := toBytes (st.part num).writtenSects
    let writtenBytes := updReceived / geo.pagesize * geo.pagesize
    let planWrBytes := toAlign (toBytes (st.part num).planWrSects) geo.pagesize
    if planWrBytes ≤ writtenBytes then (0, st)
    else
      let len := planWrBytes - writtenBytes
      let col := updReceived % geo.pagesize
      let updBuf := overlay st.wbuf (fun _ => 0xff) col (geo.pagesize - col)
      match flushLoop geo faults offset (len / geo.pagesize) writtenBytes updBuf st.flash with
      | (ret, writtenBytes, updBuf, flash) =>
        if ret ≠ 0 then (ret, { st with wbuf := updBuf, flash := flash })
        else
          (0, { st with wbuf := updBuf, flash := flash }.setPart num
            { st.part num with writtenSects := toSects writtenBytes })

/-- The search for a good block, with the sectors skipped and the last block skipped. There are at
    most `2 ^ 23` positions at a distance of whole sectors; when none has a good block the search
    does not end. -/
def checkLoop (geo : Geometry) (offset updReceived : Nat) : Nat → Nat → Int → Option (Nat × Int)
  | 0, _, _ => none
  | n + 1, skipSects, lastSkipBlock =>
    let block := (updReceived + toBytes skipSects + offset) % 2 ^ 32 / geo.erasesize
    if geo.isBad block = true ∧ block ≠ u32 lastSkipBlock then
      checkLoop geo offset updReceived n ((skipSects + toSects geo.erasesize) % 2 ^ 32) block
    else some (skipSects, lastSkipBlock)

/-- A page at `dst`, after the erase of the block when the page is its first one. -/
def writePage (geo : Geometry) (faults : Faults) (flash : Mem) (dst : Nat) (updBuf : Mem) :
    Int × Mem :=
  let (ret, flash) :=
    if dst % geo.erasesize = 0 then eraseMtd geo faults flash dst else (0, flash)
  if ret ≠ 0 then (ret, flash) else writeMtdDo geo faults flash dst geo.pagesize updBuf

/-- The loop over the pages, with the number of turns, `len` and `upd_received`, and the data in
    `src` from `off` on. A turn writes a full page, or the rest of the data filled up with ones. -/
def writeLoop (geo : Geometry) (faults : Faults) (offset skipSize : Nat) (src : Mem) :
    Nat → Nat → Nat → Nat → Mem → Mem → Int × Nat × Mem × Mem
  | 0, _, _, updReceived, updBuf, flash => (0, updReceived, updBuf, flash)
  | n + 1, len, off, updReceived, updBuf, flash =>
    if geo.pagesize ≤ len then
      let updBuf := overlay updBuf (fun x => src (x + off)) 0 geo.pagesize
      let dst := (offset + updReceived + skipSize) % 2 ^ 32
      let (ret, flash) := writePage geo faults flash dst updBuf
      if ret ≠ 0 then (-22, updReceived, updBuf, flash)
      else
        writeLoop geo faults offset skipSize src n (len - geo.pagesize) (off + geo.pagesize)
          ((updReceived + geo.pagesize) % 2 ^ 32) updBuf flash
    else
      let updBuf := overlay updBuf (fun _ => 0xff) 0 geo.pagesize
      let updBuf := overlay updBuf (fun x => src (x + off)) 0 len
      let dst := (offset + updReceived + skipSize) % 2 ^ 32
      let (ret, flash) := writePage geo faults flash dst updBuf
      if ret ≠ 0 then (-22, updReceived, updBuf, flash)
      else (0, (updReceived + len) % 2 ^ 32, updBuf, flash)

/-- The rest of a page that an earlier call began. Data that does not fill the page is only copied,
    and not counted as received. -/
def fillPage (geo : Geometry) (faults : Faults) (offset skipSize : Nat) (src : Mem)
    (len updReceived : Nat) (updBuf flash : Mem) : Int × Nat × Nat × Nat × Mem × Mem :=
  let col := updReceived % geo.pagesize
  let restPgsize := geo.pagesize - col
  if col ≠ 0 then
    if restPgsize ≤ len then
      let updBuf := overlay updBuf (fun x => src (x - col)) col restPgsize
      let dst := (offset + updReceived + skipSize) % 2 ^ 32 / geo.pagesize * geo.pagesize
      let (ret, flash) := writeMtdDo geo faults flash dst geo.pagesize updBuf
      if ret ≠ 0 then (-22, len, 0, updReceived, updBuf, flash)
      else
        (0, len - restPgsize, restPgsize, (updReceived + restPgsize) % 2 ^ 32, updBuf, flash)
    else (0, 0, 0, updReceived, overlay updBuf (fun x => src (x - col)) col len, flash)
  else (0, len, 0, updReceived, updBuf, flash)

/-- The beginning of `write_mtd_part`: at another partition than the last time that one is flushed,
    and the new one starts. -/
def startPart (geo : Geometry) (faults : Faults) (st : St) (num : Nat) : St :=
  if (num : Int) ≠ st.lastNum then
    let st := (flushMtdDev geo faults st).2
    { st with lastNum := num, lastPartno := num }.setPart num
      { st.part num with writtenSects := 0, skipSects := 0, lastSkipBlock := -1 }
  else st

/-- `write_mtd_part` after the good block has been found. -/
def writeData (geo : Geometry) (faults : Faults) (st : St) (num sectors : Nat) (buffer : Mem) :
    Int × St :=
  let offset := (st.part num).offset
  let skipSize := toBytes (st.part num).skipSects
  let updReceived := toBytes (st.part num).writtenSects
  match fillPage geo faults offset skipSize buffer (toBytes sectors) updReceived
    st.wbuf st.flash with
  | (ret, len, off, updReceived, updBuf, flash) =>
    if ret ≠ 0 then (ret, { st with wbuf := updBuf, flash := flash })
    else
      match writeLoop geo faults offset skipSize buffer
        ((len + geo.pagesize - 1) / geo.pagesize) len off updReceived updBuf flash with
      | (ret, updReceived, updBuf, flash) =>
        if ret ≠ 0 then (ret, { st with wbuf := updBuf, flash := flash })
        else
          (0, { st with wbuf := updBuf, flash := flash }.setPart num
            { st.part num with writtenSects := toSects updReceived })

/-- `write_mtd_part`: the code, and the state after it. -/
def writeMtdPart (geo : Geometry) (faults : Faults) (st : St) (num sectors : Nat) (buffer : Mem) :
    Option (Int × St) :=
  let st := startPart geo faults st num
  if mtdWBufSize < geo.pagesize then some (-22, st)
  else
    match checkLoop geo (st.part num).offset (toBytes (st.part num).writtenSects) (2 ^ 23 + 1)
      (st.part num).skipSects (st.part num).lastSkipBlock with
    | none => none
    | some (skipSects, lastSkipBlock) =>
      let st := st.setPart num
        { st.part num with skipSects := skipSects, lastSkipBlock := lastSkipBlock }
      some (writeData geo faults st num sectors buffer)

/-- A call of `write_mtd_part` with its sectors and its buffer, as a request: the code, when it
    returns. -/
def writeStep (geo : Geometry) (faults : Faults) (num : Nat) (st : St) (call : Nat × Mem) :
    Option Int × St :=
  match writeMtdPart geo faults st num call.1 call.2 with
  | none => (none, st)
  | some (ret, st) => (some ret, st)

/-- The state, with the statics `last_read_mtd` and `skip_size` of `read_mtd_part`. -/
structure Reader where
  st : St
  lastReadMtd : Int
  skipSize : Nat

/-- `read_mtd_do` of `len` bytes to `off` in the buffer. `code` is the driver's answer for an
    address; with 0 and `-EUCLEAN` the data is there. -/
def readMtdDo (geo : Geometry) (code : Nat → Int) (flash : Mem) (src len : Nat) (buffer : Mem)
    (off : Nat) : Int × Mem :=
  if geo.size < src ∨ geo.size - src < len then (-22, buffer)
  else if len = 0 then (0, buffer)
  else if code src = 0 ∨ code src = -117 then
    (code src, overlay buffer (fun x => flash (x - off + src)) off len)
  else (code src, buffer)

/-- The search at `check0`, with the block of `ofs`, `read_start` and `skip_size`. Here `ofs` has 64
    bits, so a search behind the chip does not end. -/
def check0 (geo : Geometry) : Nat → Nat → Nat → Nat → Option (Nat × Nat)
  | 0, _, _, _ => none
  | n + 1, block, readStart, skipSize =>
    if geo.isBad block = true then
      check0 geo n (block + 1) ((readStart + geo.erasesize) % 2 ^ 32)
        ((skipSize + geo.erasesize) % 2 ^ 32)
    else some (readStart, skipSize)

/-- The search at `check1`, with `read_start` and `skip_size`. As in the writer there are at most `2
    ^ 23` positions. -/
def check1 (geo : Geometry) : Nat → Nat → Nat → Option (Nat × Nat)
  | 0, _, _ => none
  | n + 1, readStart, skipSize =>
    if geo.isBad (readStart / geo.erasesize) = true then
      check1 geo n ((readStart + geo.erasesize) % 2 ^ 32) ((skipSize + geo.erasesize) % 2 ^ 32)
    else some (readStart, skipSize)

/-- The part of `read_mtd_part` for data that goes behind the end of the first block: the code,
    `left_len`, `read_start`, the place in the buffer, `skip_size` and the buffer. It reads the
    length of what is in front of `start` in its block, not behind it. -/
def readFirst (geo : Geometry) (code : Nat → Int) (flash : Mem) (start len skipSize : Nat)
    (buffer : Mem) : Option (Int × Nat × Nat × Nat × Nat × Mem) :=
  if geo.erasesize - start % geo.erasesize < len then
    match check0 geo (geo.size / geo.erasesize + 1) (start / geo.erasesize) start skipSize with
    | none => none
    | some (readStart, skipSize) =>
      let amount := start % geo.erasesize
      let (ret, buffer) := readMtdDo geo code flash readStart amount buffer 0
      if ret ≠ 0 ∧ ret ≠ -117 then some (ret, len, readStart, 0, skipSize, buffer)
      else
        some (0, (len + 2 ^ 32 - amount) % 2 ^ 32, (readStart + amount) % 2 ^ 32, amount, skipSize,
          buffer)
  else some (0, len, start, 0, skipSize, buffer)

/-- The loop of `read_mtd_part`, with the turns, `left_len`, `read_start`, the place in the buffer
    and `skip_size`. -/
def readLoop (geo : Geometry) (code : Nat → Int) (flash : Mem) :
    Nat → Nat → Nat → Nat → Nat → Mem → Option (Int × Nat × Mem)
  | 0, _, _, _, skipSize, buffer => some (0, skipSize, buffer)
  | n + 1, leftLen, readStart, off, skipSize, buffer =>
    match check1 geo (2 ^ 23 + 1) readStart skipSize with
    | none => none
    | some (readStart, skipSize) =>
      let amount := if leftLen ≤ geo.erasesize then leftLen else geo.erasesize
      let (ret, buffer) := readMtdDo geo code flash readStart amount buffer off
      if ret ≠ 0 ∧ ret ≠ -117 then some (ret, skipSize, buffer)
      else
        readLoop geo code flash n (leftLen - amount) ((readStart + amount) % 2 ^ 32) (off + amount)
          skipSize buffer

/-- The statics at the beginning of `read_mtd_part`: for another partition than the last time the
    count starts again. -/
def Reader.select (s : Reader) (num : Nat) : Reader :=
  if s.lastReadMtd ≠ num then { s with lastReadMtd := num, skipSize := 0 } else s

/-- The data of `read_mtd_part` from `start` on, once the writer is flushed. -/
def readData (geo : Geometry) (code : Nat → Int) (s : Reader) (start len : Nat) (buffer : Mem) :
    Option (Int × Reader × Mem) :=
  match readFirst geo code s.st.flash start len s.skipSize buffer with
  | none => none
  | some (ret, leftLen, readStart, off, skipSize, buffer) =>
    if ret ≠ 0 then some (ret, { s with skipSize := skipSize }, buffer)
    else
      match readLoop geo code s.st.flash ((leftLen + geo.erasesize - 1) / geo.erasesize) leftLen
        readStart off skipSize buffer with
      | none => none
      | some (ret, skipSize, buffer) => some (ret, { s with skipSize := skipSize }, buffer)

/-- `read_mtd_part`, with the sizes of the partitions in bytes: the code, the state and the buffer.
    The result of the flush is lost. -/
def readMtdPart (geo : Geometry) (faults : Faults) (code : Nat → Int) (bytes : Nat → Nat)
    (s : Reader) (num start sectors : Nat) (buffer : Mem) : Option (Int × Reader × Mem) :=
  let s := s.select num
  if bytes num < toBytes (start + sectors) then some (-22, s, buffer)
  else
    let first := ((s.st.part num).offset + toBytes start + s.skipSize) % 2 ^ 32
    readData geo code { s with st := (flushMtdDev geo faults s.st).2 } first
      (toBytes sectors) buffer

/-- A call of `read_mtd_part`. -/
structure ReadCall where
  num : Nat
  start : Nat
  sectors : Nat
  buffer : Mem

/-- A call as a request: the code and the buffer, when it returns. -/
def readStep (geo : Geometry) (faults : Faults) (code : Nat → Int) (bytes : Nat → Nat)
    (s : Reader) (call : ReadCall) : Option (Int × Mem) × Reader :=
  match readMtdPart geo faults code bytes s call.num call.start call.sectors call.buffer with
  | none => (none, s)
  | some (ret, s, buffer) => (some (ret, buffer), s)

end Brandy.MtdPart
