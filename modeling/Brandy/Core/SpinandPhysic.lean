import Brandy.Library.Memory
import Brandy.Library.Word

/-!
# Single Pages of a SPI-NAND Chip

A model of `drivers/mtd/awnand/spinand/physic`: the page cache of `cache.c`, the single page and
single block operations of `ops.c`, and `ecc.c`.

The driver keeps the last page it has sent or received in a buffer, with its block and page number
and the area of it that is valid. A read that matches is answered from there. `match_cache` is a
parameter of the operations, so that the driver can be compared with one that never finds a match.

Programming clears bits and erasing sets them. What the SPI layer answers to the commands of an
operation is given with the operation, and so is what a program or an erase that fails leaves
behind. The codes for the configurations with a CRC in the OOB are left out.

## Main definitions

* `Chip`, `Cache`: The pages by their address, and the page cache.
* `readSinglePage`, `writeSinglePage`, `eraseSingleBlock`: The operations.
* `step`: One operation and its reply.
-/

namespace Brandy.SpinandPhysic

open Memory Word

/-- `enum ecc_oob_protected`. -/
inductive EccOobProtected where
  | eccProtectedType
  | size16Off0Len16
  | size16Off4Len12
  | size16Off4Len4Off8
  | size16Off4Len8Off4
  | size16Off32Len16
  | size16Off8Len16

/-- `enum ecc_limit_err`. -/
inductive EccLimitErr where
  | eccTypeErr
  | bit3Limit2To6Err7
  | bit2Limit1Err2
  | bit2Limit1Err2ToErr3
  | bit2Limit2Err3
  | bit2Limit1Err2Limit3
  | bit2Err2Limit3
  | bit4Limit3To4Err15
  | bit3Limit3To4Err7
  | bit3Limit5Err2
  | bit4Limit5To7Err8Limit12
  | bit4Limit5To8Err9To15
  | bit4Limit5To8Err15

def eccGood : Int := 0

def eccLimit : Int := 16

def eccErr : Int := 32

def generalCheckEcc (ecc limitFrom limitTo errFrom errTo : Nat) : Int :=
  if ecc < limitFrom then eccGood
  else if limitFrom ≤ ecc ∧ ecc ≤ limitTo then eccLimit
  else if errFrom ≤ ecc ∧ ecc ≤ errTo then eccErr
  -- an unknown value
  else eccErr

def checkEccBit2Limit1Err2Limit3 (ecc : Nat) : Int :=
  if ecc = 0 then eccGood else if ecc = 1 ∨ ecc = 3 then eccLimit else eccErr

def checkEccBit3Limit5Err2 (ecc : Nat) : Int :=
  if ecc ≤ 1 then eccGood else if ecc = 3 ∨ ecc = 5 then eccLimit else eccErr

def checkEccBit4Limit57Err8Limit12 (ecc : Nat) : Int :=
  if ecc ≤ 4 then eccGood
  else if (5 ≤ ecc ∧ ecc ≤ 7) ∨ 12 ≤ ecc then eccLimit
  else eccErr

def checkEccBit2Err2Limit3 (ecc : Nat) : Int :=
  if ecc = 0 ∨ ecc = 1 then eccGood else if ecc = 3 then eccLimit else eccErr

def checkEccBit4Limit58Err15 (ecc : Nat) : Int :=
  if ecc ≤ 4 then eccGood else if 5 ≤ ecc ∧ ecc ≤ 8 then eccLimit else eccErr

def awSpinandEccCheckEcc (type : EccLimitErr) (status : UInt8) : Int :=
  let bits2 := (status &&& 0x03).toNat
  let bits3 := (status &&& 0x07).toNat
  let bits4 := (status &&& 0x0f).toNat
  match type with
  | .bit3Limit2To6Err7 => generalCheckEcc bits3 2 6 7 7
  | .bit2Limit1Err2 => generalCheckEcc bits2 1 1 2 2
  | .bit2Limit1Err2ToErr3 => generalCheckEcc bits2 1 1 2 3
  | .bit2Limit2Err3 => generalCheckEcc bits2 2 2 3 3
  | .bit2Limit1Err2Limit3 => checkEccBit2Limit1Err2Limit3 bits2
  | .bit2Err2Limit3 => checkEccBit2Err2Limit3 bits2
  | .bit4Limit3To4Err15 => generalCheckEcc bits4 3 4 15 15
  | .bit3Limit3To4Err7 => generalCheckEcc bits3 3 4 7 7
  | .bit3Limit5Err2 => checkEccBit3Limit5Err2 bits3
  | .bit4Limit5To7Err8Limit12 => checkEccBit4Limit57Err8Limit12 bits4
  | .bit4Limit5To8Err9To15 => generalCheckEcc bits4 5 8 9 15
  | .bit4Limit5To8Err15 => checkEccBit4Limit58Err15 bits4
  | .eccTypeErr => -22

/-- Spare size, offset and length that `aw_spinand_ecc_copy_to_oob` and
    `aw_spinand_ecc_copy_from_oob` pass on for a type. -/
def EccOobProtected.layout : EccOobProtected → Option (Nat × Nat × Nat)
  | .size16Off0Len16 => some (16, 0, 16)
  | .size16Off4Len12 => some (16, 4, 12)
  | .size16Off4Len4Off8 => some (16, 4, 4)
  | .size16Off4Len8Off4 => some (16, 4, 8)
  | .size16Off32Len16 => some (16, 32, 16)
  | .size16Off8Len16 => some (16, 8, 16)
  | .eccProtectedType => none

/-- The turns of the loops over `cnt` bytes, `datalen` of them in a turn, with the number of the
    turn and the bytes of it. -/
def oobTurns (cnt datalen : Nat) : List (Nat × Nat) :=
  (List.range ((cnt + datalen - 1) / datalen)).map (fun i => (i, min (cnt - datalen * i) datalen))

/-- `__copy_to_oob`, with the OOB bytes at the address `oob`. -/
def copyToOobDo (dst : Mem) (oob : Int) (src : List UInt8) (cnt spareSize offset datalen : Nat) :
    Mem :=
  (oobTurns cnt datalen).foldl
    (fun dst t => store dst (oob + offset + spareSize * t.1) ((src.drop (datalen * t.1)).take t.2))
    dst

/-- `__copy_from_oob`, with the OOB bytes at the address `oob`. -/
def copyFromOobDo (src : Mem) (oob : Int) (cnt spareSize offset datalen : Nat) : List UInt8 :=
  (oobTurns cnt datalen).flatMap (fun t => read src (oob + offset + spareSize * t.1) t.2)

def awSpinandEccCopyToOob (type : EccOobProtected) (dst : Mem) (oob : Int) (src : List UInt8)
    (len : Nat) : Except Int Mem :=
  match type.layout with
  | some (spareSize, offset, datalen) => .ok (copyToOobDo dst oob src len spareSize offset datalen)
  | none => .error (-22)

def awSpinandEccCopyFromOob (type : EccOobProtected) (src : Mem) (oob : Int) (len : Nat) :
    Except Int (List UInt8) :=
  match type.layout with
  | some (spareSize, offset, datalen) => .ok (copyFromOobDo src oob len spareSize offset datalen)
  | none => .error (-22)

/-- The fields of `struct aw_spinand_phy_info` that matter. Every chip of the driver's table has at
    least 64 OOB bytes in a page. -/
structure PhyInfo where
  pageSize : Nat
  oobSize : Nat
  pageCntPerBlk : Nat
  blkCntPerDie : Nat
  eccType : EccLimitErr
  eccProtectedType : EccOobProtected
  hasExtEccStatus : Bool
  hasExtEccSE01 : Bool
  eccStatusShift : UInt8
  oobSize_ge : 64 ≤ oobSize

/-- The registers of the chip with the ECC status of the page it has loaded. -/
structure EccRegs where
  status : UInt8
  intEccStatus : UInt8
  extEccStatus : UInt8

/-- `struct aw_spinand_chip_request`. A buffer is its bytes, a null pointer `none`. A request that
    leaves the page is refused with `BUG_ON`. -/
structure Request (info : PhyInfo) where
  block : Nat
  page : Nat
  pageoff : Nat
  ooblen : Nat
  datalen : Nat
  databuf : Option (List UInt8)
  oobbuf : Option (List UInt8)
  raw : Bool
  inPage : pageoff + datalen ≤ info.pageSize
  length_databuf : ∀ b, databuf = some b → b.length = datalen
  length_oobbuf : ∀ b, oobbuf = some b → b.length = ooblen

/-- `area` of `struct aw_spinand_cache`. -/
inductive Area where
  | invalidCacheAllArea
  | validCacheOob
  | validCacheData
  deriving DecidableEq

/-- `struct aw_spinand_cache`. The OOB bytes stand behind the data. -/
structure Cache where
  databuf : Mem
  block : Nat
  page : Nat
  area : Area

/-- The cache and the pages of the chip, by page address. -/
structure Chip where
  cache : Cache
  flash : Nat → Mem

def invalidCache : Nat := 0xffffffff

section

variable (info : PhyInfo)

def updateCacheInfo (cache : Cache) (req : Option (Request info)) : Cache :=
  match req with
  | some req =>
    if req.databuf.isSome || req.oobbuf.isSome then
      let area := Area.invalidCacheAllArea
      let area := if req.databuf.isSome then Area.validCacheData else area
      let area := if req.oobbuf.isSome then Area.validCacheOob else area
      { cache with block := req.block, page := req.page, area := area }
    else
      { cache with
        block := invalidCache
        page := invalidCache
        area := .invalidCacheAllArea }
  | none =>
    { cache with
      block := invalidCache
      page := invalidCache
      area := .invalidCacheAllArea }

/-- `min3(req->ooblen, cache->oob_maxlen, AW_OOB_SIZE_PER_PHY_PAGE)`. -/
def oobCopyLen (ooblen : Nat) : Nat := min ooblen (min info.oobSize 16)

/-- The data part of `aw_spinand_cache_copy_to_cache`. -/
def copyDataToCache (databuf : Mem) (req : Request info) : Mem :=
  let databuf := overlay databuf (fun _ => 0xff) 0 info.pageSize
  match req.databuf with
  | some b =>
    if req.datalen ≠ 0 then
      store databuf req.pageoff (b.take (min req.datalen (info.pageSize - req.pageoff)))
    else databuf
  | none => databuf

/-- The OOB part of `aw_spinand_cache_copy_to_cache`. -/
def copyOobToCache (databuf : Mem) (req : Request info) : Int × Mem :=
  let databuf := overlay databuf (fun _ => 0xff) info.pageSize info.oobSize
  match req.oobbuf with
  | some b =>
    if req.ooblen ≠ 0 then
      let len := oobCopyLen info req.ooblen
      if req.raw then (0, store databuf info.pageSize (b.take len))
      else
        match awSpinandEccCopyToOob info.eccProtectedType databuf info.pageSize b len with
        | .ok databuf => (0, databuf)
        | .error ret => (ret, databuf)
    else (0, databuf)
  | none => (0, databuf)

/-- `aw_spinand_cache_copy_to_cache`. -/
def copyToCache (cache : Cache) (req : Request info) : Int × Cache :=
  let (ret, databuf) := copyOobToCache info (copyDataToCache info cache.databuf req) req
  let cache := { cache with databuf := databuf }
  if ret ≠ 0 then (ret, cache) else (0, updateCacheInfo info cache (some req))

/-- What a read returns: the code, and the buffers of the request after it. -/
structure ReadReply where
  ret : Int
  databuf : Option (List UInt8)
  oobbuf : Option (List UInt8)
  deriving DecidableEq

/-- The data part of `aw_spinand_cache_copy_from_cache`. -/
def copyDataFromCache (databuf : Mem) (req : Request info) : Option (List UInt8) :=
  req.databuf.map (fun b =>
    if req.datalen ≠ 0 then
      read databuf req.pageoff (min req.datalen (info.pageSize - req.pageoff))
    else b)

/-- `aw_spinand_cache_copy_from_cache`. -/
def copyFromCache (databuf : Mem) (req : Request info) : ReadReply :=
  let data := copyDataFromCache info databuf req
  match req.oobbuf with
  | some b =>
    if req.ooblen ≠ 0 then
      let len := oobCopyLen info req.ooblen
      if req.raw then ⟨0, data, some (read databuf info.pageSize len ++ b.drop len)⟩
      else
        match awSpinandEccCopyFromOob info.eccProtectedType databuf info.pageSize len with
        | .ok oob => ⟨0, data, some (oob ++ b.drop len)⟩
        | .error ret => ⟨ret, data, some b⟩
    else ⟨0, data, some b⟩
  | none => ⟨0, data, none⟩

/-- `aw_spinand_cache_match_cache`. -/
def matchCache (cache : Cache) (req : Request info) : Bool :=
  if cache.block = invalidCache ∨ cache.page = invalidCache then false
  else if req.block ≠ cache.block ∨ req.page ≠ cache.page then false
  else if req.databuf.isSome ∧ cache.area ≠ .validCacheData then false
  else if req.oobbuf.isSome ∧ cache.area ≠ .validCacheOob then false
  else true

/-- A `match_cache` that always answers false. -/
def neverMatch (_ : Cache) (_ : Request info) : Bool := false

def reqToPaddr (block page : Nat) : Nat := u32 (block * info.pageCntPerBlk + page)

/-- What the SPI layer answers to the commands of a read: the codes of `aw_spinand_chip_load_page`,
    the wait, the transfer and the read of the ECC register. -/
structure ReadCodes where
  load : Int
  wait : Int
  transfer : Int
  reg : Int

/-- What the SPI layer answers to the commands of a write: the codes of
    `aw_spinand_chip_write_enable`, the transfer, `aw_spinand_chip_program` and the wait, and
    `STATUS_PROG_FAILED`. A page not programmed to the end holds `torn`. -/
structure WriteCodes where
  enable : Int
  transfer : Int
  program : Int
  wait : Int
  progFailed : Bool
  torn : Mem

/-- What the SPI layer answers to the commands of an erase, in the same way. -/
structure EraseCodes where
  enable : Int
  erase : Int
  wait : Int
  eraseFailed : Bool
  torn : Nat → Mem

/-- The column and the number of bytes that `aw_spinand_cache_read_from_cache` asks for. -/
def transferRange (req : Request info) : Nat × Nat :=
  if req.datalen ≠ 0 then (0, info.pageSize + if req.ooblen ≠ 0 then info.oobSize else 0)
  else if req.ooblen ≠ 0 then (info.pageSize, info.oobSize)
  else (0, 0)

/-- `aw_spinand_cache_read_from_cache`, from the page the chip has loaded. -/
def readFromCache (cache : Cache) (page : Mem) (req : Request info) (transfer : Int) :
    ReadReply × Cache :=
  let r := transferRange info req
  -- without bytes to transfer there is no command that could fail
  if r.2 ≠ 0 ∧ transfer ≠ 0 then
    (⟨transfer, req.databuf, req.oobbuf⟩, updateCacheInfo info cache none)
  else
    let databuf := overlay cache.databuf page r.1 r.2
    (copyFromCache info databuf req,
      updateCacheInfo info { cache with databuf := databuf } (some req))

/-- `aw_spinand_chip_check_ecc`. -/
def checkEcc (regs : EccRegs) (reg : Int) : Int :=
  if info.hasExtEccStatus ∧ reg ≠ 0 then reg
  else
    let shift := if info.eccStatusShift ≠ 0 then info.eccStatusShift else 4
    let status := if info.hasExtEccStatus then regs.intEccStatus else regs.status >>> shift
    let status :=
      if status ≠ 0 ∧ info.hasExtEccSE01 then
        (status <<< 2) ||| ((regs.extEccStatus >>> shift) &&& 0x03)
      else status
    awSpinandEccCheckEcc info.eccType status

/-- The answer to a read that stops before its buffers are touched. -/
def ReadReply.fail (req : Request info) (ret : Int) : ReadReply := ⟨ret, req.databuf, req.oobbuf⟩

/-- `aw_spinand_chip_read_single_page`. -/
def readSinglePage (ecc : Nat → EccRegs) (hit : Cache → Request info → Bool) (chip : Chip)
    (req : Request info) (codes : ReadCodes) : ReadReply × Chip :=
  if info.pageCntPerBlk ≤ req.page then (ReadReply.fail info req (-75), chip)
  else if info.blkCntPerDie ≤ req.block then (ReadReply.fail info req (-75), chip)
  else if hit chip.cache req then (copyFromCache info chip.cache.databuf req, chip)
  else if codes.load ≠ 0 then (ReadReply.fail info req codes.load, chip)
  else if codes.wait ≠ 0 then (ReadReply.fail info req codes.wait, chip)
  else
    let paddr := reqToPaddr info req.block req.page
    let (reply, cache) := readFromCache info chip.cache (chip.flash paddr) req codes.transfer
    if reply.ret ≠ 0 then (reply, { chip with cache := cache })
    else ({ reply with ret := checkEcc info (ecc paddr) codes.reg }, { chip with cache := cache })

/-- `aw_spinand_cache_write_to_cache`. -/
def writeToCache (cache : Cache) (req : Request info) (transfer : Int) : Int × Cache :=
  let (ret, cache) := copyToCache info cache req
  if ret ≠ 0 then (ret, updateCacheInfo info cache none)
  else if transfer ≠ 0 then (transfer, updateCacheInfo info cache none)
  else (0, updateCacheInfo info cache (some req))

/-- What the chip makes of a page that is programmed with the bytes `databuf`. -/
def programPage (page databuf : Mem) : Mem :=
  overlay page (fun x => page x &&& databuf x) 0 (info.pageSize + info.oobSize)

/-- `aw_spinand_chip_write_single_page`. -/
def writeSinglePage (chip : Chip) (req : Request info) (codes : WriteCodes) : Int × Chip :=
  if info.pageCntPerBlk ≤ req.page then (-75, chip)
  else if info.blkCntPerDie ≤ req.block then (-75, chip)
  else if codes.enable ≠ 0 then (codes.enable, chip)
  else
    let (ret, cache) := writeToCache info chip.cache req codes.transfer
    if ret ≠ 0 then (ret, { chip with cache := cache })
    else if codes.program ≠ 0 then (codes.program, { chip with cache := cache })
    else
      let paddr := reqToPaddr info req.block req.page
      let page :=
        if codes.wait ≠ 0 ∨ codes.progFailed then codes.torn
        else programPage info (chip.flash paddr) cache.databuf
      let ret := if codes.wait = 0 ∧ codes.progFailed then -5 else codes.wait
      (ret, { cache := cache, flash := Function.update chip.flash paddr page })

/-- `aw_spinand_chip_erase_single_block`. -/
def eraseSingleBlock (chip : Chip) (req : Request info) (codes : EraseCodes) : Int × Chip :=
  if codes.enable ≠ 0 then (codes.enable, chip)
  else if codes.erase ≠ 0 then (codes.erase, chip)
  else
    let paddr := reqToPaddr info req.block req.page
    let page := fun p =>
      if codes.wait ≠ 0 ∨ codes.eraseFailed then codes.torn p else fun _ => 0xff
    let ret := if codes.wait = 0 ∧ codes.eraseFailed then -5 else codes.wait
    (ret, { chip with flash := fun p =>
      if p / info.pageCntPerBlk = paddr / info.pageCntPerBlk then page p else chip.flash p })

/-- One operation of a sequence, with what the SPI layer answers to it. -/
inductive Op where
  | read (req : Request info) (codes : ReadCodes)
  | write (req : Request info) (codes : WriteCodes)
  | erase (req : Request info) (codes : EraseCodes)

/-- What an operation returns. -/
inductive Reply where
  | read (reply : ReadReply)
  | code (ret : Int)
  deriving DecidableEq

/-- One operation, with a given `match_cache`. -/
def step (ecc : Nat → EccRegs) (hit : Cache → Request info → Bool) (chip : Chip) :
    Op info → Reply × Chip
  | .read req codes =>
    let r := readSinglePage info ecc hit chip req codes
    (.read r.1, r.2)
  | .write req codes =>
    let r := writeSinglePage info chip req codes
    (.code r.1, r.2)
  | .erase req codes =>
    let r := eraseSingleBlock info chip req codes
    (.code r.1, r.2)

end

/-- The driver after `aw_spinand_chip_cache_init`, on any content of the chip. Static fields start
    as zeros. -/
def Chip.start (flash : Nat → Mem) : Chip where
  cache := ⟨fun _ => 0, 0, 0, .invalidCacheAllArea⟩
  flash := flash

end Brandy.SpinandPhysic
