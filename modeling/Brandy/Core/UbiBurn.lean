import Brandy.Library.Memory
import Brandy.Library.Text
import Brandy.Library.Word

/-!
# Burning UBI Volumes

A model of `spinand_mtd_write_ubi` and `spinand_mtd_flush_last_volume` from
`drivers/mtd/awnand/sunxi-ubi.c`, with everything between them and the `ubi` commands.

A caller writes sectors of one flat address space. The partition table maps them to volumes, and a
volume is written from its beginning to its end. The first `ubi write.part` command of a volume
announces the full size; the volume is complete for UBI when so many bytes have come. The caller
stops where its image ends, so the next volume, or the flush, fills up the one before.

What is outside, the `ubi` commands, `malloc` and the MTD layer, answers by what it was asked before
and is asked now.

## Main definitions

* `St`, `World`: The variables of the file, and what is outside.
* `writeUbiVolume`, `fillGap`: A command for a volume, and the filling of its rest.
* `burn`, `spinandMtdWriteUbi`, `spinandMtdFlushLastVolume`: The calls from outside.
-/

namespace Brandy.UbiBurn

open Memory Text Word

/-- An entry of `nand_mbr`. -/
structure NandVol where
  name : CString
  addr : Nat
  sects : Nat
  isStatic : Bool

/-- An entry of `ubi_mbr`. Its address is used for printing only. -/
structure UbiVol where
  name : CString
  sects : Nat
  isStatic : Bool

/-- `INIT_UBI_VOL`, `CREATE_UBI_VOL` and `WRITE_UBI_VOL`. -/
inductive VolState where
  | init
  | create
  | write
  deriving DecidableEq

/-- The fields of `struct ubi_vol_status` that are used. -/
structure VolStatus where
  state : VolState
  planWrSects : Nat
  writtenSects : Nat

/-- Something the code asks for. The full size of a `write.part` command is 0 when the command has
    none. -/
inductive Event where
  | mtdparts
  | part (name : CString)
  | check (name : CString)
  | create (name : CString) (bytes : Nat) (isStatic : Bool)
  | get (name : CString)
  | writePart (name : CString) (buf : Mem) (bytes fullBytes : Nat)
  | malloc (bytes : Nat)
  | writeMtdPart (num sectors : Nat) (buf : Mem)

/-- `struct ubi_info`, with the log of what was asked. -/
structure St where
  nandMbr : List NandVol
  ubiMbr : List UbiVol
  vols : Nat → VolStatus
  mtdParts : List CString
  lastName : CString
  lastPartno : Int
  lastOffset : Nat
  lastVolSects : Nat
  log : List Event

/-- An entry of a `sunxi_mbr_t`. -/
structure MbrPart where
  name : CString
  addrlo : Nat
  lenlo : Nat
  userType : Nat

/-- What is outside. `decode` gives the entries of a partition table that `check_sunxi_mbr` accepts,
    `adjust` is `adjust_sunxi_mbr`, and `mtdInfo` has the names that `init_mtd_info` finds. `attach`
    is the name and the size of the partition that UBI is attached to, and `availSects` what it has
    left for a volume of the greatest size. -/
structure World where
  answer : List Event → Event → Int
  decode : Mem → Option (List MbrPart)
  adjust : Mem → Nat → Mem
  workModeBoot : Bool
  mtdInfo : Option (List CString)
  attach : Option (CString × Nat)
  blockSects : Nat
  lebSects : Nat
  availSects : List Event → Nat

/-- The empty string. -/
def emptyName : CString := ⟨[], List.not_mem_nil⟩

/-- The name `mbr`. -/
def mbrName : CString := ⟨[0x6d, 0x62, 0x72], by decide⟩

/-- A volume that nothing has been done with. -/
def VolStatus.zero : VolStatus := ⟨.init, 0, 0⟩

/-- `g_ubi_info` before anything has happened. -/
def St.zero : St := ⟨[], [], fun _ => .zero, [], emptyName, 0, 0, 0, []⟩

def mbrSectors : Nat := 128

def gapBufMaxSects : Nat := 128

/-- `to_bytes` on 32 bits. -/
def toBytes (sects : Nat) : Nat := sects * 512 % 2 ^ 32

/-- `to_align` on 32 bits. -/
def toAlign (size limit : Nat) : Nat :=
  if limit ≠ 0 then (size + limit - 1) % 2 ^ 32 / limit * limit else size

/-- The state with another status of a volume. -/
def St.setVol (s : St) (num : Nat) (v : VolStatus) : St :=
  { s with vols := Function.update s.vols num v }

/-- One question and its answer. Creating a volume without a size calls `mtd_set_last_vol_sects`. -/
def ask (w : World) (s : St) (e : Event) : Int × St :=
  let s' := { s with log := s.log ++ [e] }
  match e with
  | .create _ 0 _ => (w.answer s.log e, { s' with lastVolSects := w.availSects s.log })
  | _ => (w.answer s.log e, s')

/-- The loop of `get_partno_by_addr`. -/
def partnoLoop (offset secCnt : Nat) : List NandVol → Nat → Option Nat
  | [], _ => none
  | v :: vs, i =>
    if (v.addr + v.sects) % 2 ^ 32 ≤ offset then partnoLoop offset secCnt vs (i + 1)
    else if (v.addr + v.sects) % 2 ^ 32 < (offset + secCnt) % 2 ^ 32 then none
    else some i

def getPartnoByAddr (s : St) (offset secCnt : Nat) : Option Nat :=
  partnoLoop offset secCnt s.nandMbr 0

def getVolnumByNandMbrName (s : St) (name : CString) : Option Nat :=
  s.nandMbr.findIdx? fun v => v.name = name

def getVolnumByName (s : St) (name : CString) : Option Nat :=
  s.ubiMbr.findIdx? fun v => v.name = name

def getMtdNumByName (s : St) (name : CString) : Option Nat :=
  s.mtdParts.findIdx? fun n => n = name

/-- The entry of a partition number. -/
def nandVol (s : St) (num : Nat) : NandVol := s.nandMbr.getD num ⟨emptyName, 0, 0, false⟩

def offsetOnPart (s : St) (num addr : Nat) : Nat := u32 ((addr : Int) - (nandVol s num).addr)

/-- `init_nand_mbr` for a table that was accepted: the first volume is the table itself. -/
def initNandMbr (parts : List MbrPart) : List NandVol :=
  ⟨mbrName, 0, (parts.head?.map (·.addrlo)).getD 0, true⟩ ::
    parts.map fun p => ⟨p.name, p.addrlo, p.lenlo, p.userType % 2 = 1⟩

def initUbiMbr (w : World) (mtdParts : List CString) (nandMbr : List NandVol) : List UbiVol :=
  (nandMbr.filter fun v => v.name ∉ mtdParts).map fun v =>
    let len := toAlign v.sects w.blockSects
    ⟨v.name, if len ≠ 0 then max len w.blockSects else 0, v.isStatic⟩

def initUbiInfo (w : World) (s : St) (buffer : Mem) : Int × St :=
  match w.mtdInfo, w.decode buffer with
  | none, _ => (-22, s)
  | some mtdParts, none => (-22, { s with mtdParts := mtdParts })
  | some mtdParts, some parts =>
    let nandMbr := initNandMbr parts
    (0, { s with
      nandMbr := nandMbr
      ubiMbr := initUbiMbr w mtdParts nandMbr
      vols := fun _ => .zero
      mtdParts := mtdParts
      lastPartno := -1
      lastOffset := 2 ^ 32 - 1 })

def checkVolumeExistedDo (w : World) (s : St) (name : CString) : Int × St :=
  match getVolnumByName s name with
  | none => (-19, s)
  | some _ => ask w s (.check name)

def createUbiVolumeDo (w : World) (s : St) (vol : UbiVol) : Int × St :=
  match checkVolumeExistedDo w s vol.name with
  | (ret, s) =>
    if ret = 0 then (0, s) else ask w s (.create vol.name (toBytes vol.sects) vol.isStatic)

/-- The loop of `create_ubi_volume` over the volumes from number `i` on. -/
def createLoop (w : World) : List UbiVol → Nat → St → Int × St
  | [], _, s => (0, s)
  | vol :: vols, i, s =>
    match createUbiVolumeDo w s vol with
    | (ret, s) =>
      if ret ≠ 0 then (ret, s)
      else createLoop w vols (i + 1) (s.setVol i { s.vols i with state := .create })

/-- `check_and_adjust_ubi_mbr` for the last volume, on both tables. The size comes from two `get`
    commands. -/
def checkAndAdjust (w : World) (s : St) (name : CString) : St :=
  match ask w s (.get name) with
  | (size, s) =>
    let s := if size = -1 then s else
      { s with nandMbr := s.nandMbr.modify (s.nandMbr.length - 1)
                 ({ · with sects := u32 (size / 512) }) }
    match ask w s (.get name) with
    | (size, s) => if size = -1 then s else
      { s with ubiMbr := s.ubiMbr.modify (s.ubiMbr.length - 1)
                 ({ · with sects := u32 (size / 512) }) }

def createUbiVolume (w : World) (s : St) : Int × St :=
  match s.ubiMbr.getLast? with
  | none => (0, s)
  | some last =>
    match w.attach with
    | none => (-22, s)
    | some (mtdName, mtdBytes) =>
      if mtdBytes < (s.ubiMbr.map fun v => toBytes v.sects).sum % 2 ^ 32 then (-22, s)
      else
        match ask w s (.part mtdName) with
        | (ret, s) =>
          if ret ≠ 0 then (ret, s)
          else
            match createLoop w s.ubiMbr 0 s with
            | (ret, s) =>
              if ret ≠ 0 then (ret, s)
              else
                let s := checkAndAdjust w s last.name
                (0, if s.lastVolSects = 0 then
                  { s with lastVolSects := (nandVol s (s.ubiMbr.length - 1)).sects } else s)

def initUbi (w : World) (s : St) (buffer : Mem) : Int × St :=
  match ask w s .mtdparts with
  | (ret, s) =>
    if ret ≠ 0 then (ret, s)
    else
      match initUbiInfo w s buffer with
      | (ret, s) => if ret ≠ 0 then (ret, s) else createUbiVolume w s

/-- The part of `write_ubi_volume` that makes sure that a volume which is written for the first time
    is there. -/
def ensureVolume (w : World) (s : St) (name : CString) (num : Nat) : Int × St :=
  if (s.vols num).state = .create then (0, s)
  else
    match getVolnumByName s name with
    | none => (-22, s)
    | some volNum =>
      match checkVolumeExistedDo w s name with
      | (ret, s) =>
        if ret = 0 then (0, s)
        else createUbiVolumeDo w s (s.ubiMbr.getD volNum ⟨emptyName, 0, false⟩)

/-- The bytes of one `write.part` command. Beyond the plan they are cut off. -/
def clampBytes (v : VolStatus) (sectors : Nat) : Nat :=
  if v.planWrSects < (v.writtenSects + sectors) % 2 ^ 32 then
    toBytes (u32 ((v.planWrSects : Int) - v.writtenSects))
  else toBytes sectors

/-- The end of `write_ubi_volume`: `write_ubi_volume_do`, and the counters, which count what was
    asked for also when cut off. -/
def writeAndCount (w : World) (s : St) (name : CString) (num sectors : Nat) (buf : Mem)
    (bytes fullBytes : Nat) : Int × St :=
  match ask w s (.writePart name buf bytes fullBytes) with
  | (ret, s) =>
    (ret, s.setVol num { s.vols num with
      state := .write
      writtenSects := ((s.vols num).writtenSects + sectors) % 2 ^ 32 })

def writeUbiVolume (w : World) (s : St) (name : CString) (sectors : Nat) (buf : Mem) :
    Int × St :=
  match getVolnumByNandMbrName s name with
  | none => (-22, s)
  | some num =>
    let bytes := clampBytes (s.vols num) sectors
    let planWrSects := (s.vols num).planWrSects
    if s.lastName = name then writeAndCount w s name num sectors buf bytes 0
    else
      match ensureVolume w s name num with
      | (ret, s) =>
        if ret ≠ 0 then (ret, s)
        else
          writeAndCount w { s with lastName := name } name num sectors buf bytes
            (toBytes planWrSects)

/-- The loops of `fill_gap_do`, with `i` sectors to go. -/
def gapLoop (w : World) (name : CString) (buf : Mem) : Nat → Int → St → Int × St
  | 0, _, s => (0, s)
  | n + 1, i, s =>
    if i ≤ 0 then (0, s)
    else
      match writeUbiVolume w s name (min i.toNat gapBufMaxSects) buf with
      | (ret, s) =>
        if ret ≠ 0 then (ret, s) else gapLoop w name buf n (i - gapBufMaxSects) s

/-- The bytes 0x55 and 0xaa in turn. -/
def gapPattern : Mem := fun x => if x % 2 = 0 then 0x55 else 0xaa

/-- The sectors from what was written to the end of an erase block, for the volume with number
    `volnum` in the status table. -/
def gapRemain (w : World) (s : St) (volnum : Nat) : Nat :=
  if (s.vols volnum).writtenSects % w.lebSects ≠ 0 then
    w.lebSects - (s.vols volnum).writtenSects % w.lebSects
  else 0

def fillGapDo (w : World) (s : St) (name : CString) (gapSize : Nat) : Int × St :=
  match getVolnumByName s name with
  | none => (-22, s)
  | some lastVolnum =>
    if gapSize = 0 then (0, s)
    else
      match ask w s (.malloc (toBytes gapBufMaxSects)) with
      | (gapBuf, s) =>
        if gapBuf = 0 then (-12, s)
        else
          let remain := gapRemain w s lastVolnum
          match gapLoop w name gapPattern remain remain s with
          | (ret, s) =>
            if ret ≠ 0 then (ret, s)
            else
              let i := s32 ((gapSize : Int) - remain)
              gapLoop w name (fun _ => 0xff) i.toNat i s

/-- `plan_wr_sects - written_sects`. -/
def gapOf (v : VolStatus) : Nat := u32 ((v.planWrSects : Int) - v.writtenSects)

def fillGap (w : World) (s : St) (partno : Int) : Int × St :=
  if partno < 0 then (0, s)
  else
    let name := (nandVol s partno.toNat).name
    match getVolnumByNandMbrName s name with
    | none => (-22, s)
    | some lastVolnum =>
      let gap := gapOf (s.vols lastVolnum)
      if gap ≠ 0 then fillGapDo w s name gap else (0, s)

def spinandMtdFlushLastVolume (w : World) (s : St) : St :=
  match fillGap w s s.lastPartno with
  | (_, s) => { s with lastPartno := -1, lastName := emptyName }

/-- One call of the writer. -/
structure Call where
  start : Nat
  sectors : Nat
  buffer : Mem

/-- A write of the partition table starts everything over. It corrects the table in the caller's
    buffer. -/
def mbrStage (w : World) (s : St) (c : Call) : Bool × St × Mem :=
  if c.start = 0 ∧ c.sectors ≤ mbrSectors then
    if c.sectors ≠ mbrSectors then (false, s, c.buffer)
    else
      match initUbi w s c.buffer with
      | (ret, s) =>
        if ret ≠ 0 then (false, s, c.buffer)
        else
          (true, s, if w.workModeBoot then c.buffer else w.adjust c.buffer s.lastVolSects)
  else (true, s, c.buffer)

/-- The plan of a volume. The last one has no size of its own. -/
def planOf (s : St) (num : Nat) : Nat :=
  if num + 1 = s.nandMbr.length then s.lastVolSects else (nandVol s num).sects

/-- A write to the beginning of a volume sets its counters. -/
def startVolume (s : St) (num : Nat) : St :=
  s.setVol num { s.vols num with planWrSects := planOf s num, writtenSects := 0 }

/-- The state with another place to go on at. -/
def St.moveTo (s : St) (num offset : Nat) : St :=
  { s with lastOffset := offset % 2 ^ 32, lastPartno := num }

/-- The end of `spinand_mtd_write_ubi`. -/
def burn (w : World) (s : St) (num offset sectors : Nat) (buffer : Mem) : Nat × St :=
  match writeUbiVolume w (s.moveTo num (offset + sectors)) (nandVol s num).name sectors buffer with
  | (ret, s) => (if ret ≠ 0 then 0 else sectors, s)

/-- The part of `spinand_mtd_write_ubi` after the partition has been found. -/
def writePartition (w : World) (s : St) (num start sectors : Nat) (buffer : Mem) : Nat × St :=
  let offset := offsetOnPart s num start
  let s := if offset = 0 then startVolume s num else s
  let name := (nandVol s num).name
  match getMtdNumByName s name with
  | some mtdNum =>
    match ask w s (.writeMtdPart mtdNum sectors buffer) with
    | (ret, s) => (if ret ≠ 0 then 0 else sectors, s)
  | none =>
    match checkVolumeExistedDo w s name with
    | (ret, s) =>
      if ret ≠ 0 then (0, s)
      else if s.lastPartno = num then
        if offset ≠ s.lastOffset then (0, s) else burn w s num offset sectors buffer
      else if offset ≠ 0 then (2 ^ 32 - 22, s)
      else
        match fillGap w s s.lastPartno with
        | (_, s) => burn w s num offset sectors buffer

def spinandMtdWriteUbi (w : World) (s : St) (c : Call) : Nat × St :=
  match mbrStage w s c with
  | (false, s, _) => (0, s)
  | (true, s, buffer) =>
    match getPartnoByAddr s c.start c.sectors with
    | none => (0, s)
    | some num =>
      if c.sectors = 0 then (0, s) else writePartition w s num c.start c.sectors buffer

/-- A call, and whether it returns the number of sectors it was given. -/
def writeStep (w : World) (s : St) (c : Call) : Bool × St :=
  let (ret, s) := spinandMtdWriteUbi w s c
  (ret = c.sectors, s)

end Brandy.UbiBurn
