import Brandy.Core.Sparse
import Brandy.Library.Process
import Brandy.Library.Text

/-!
# The Fastboot Protocol

A model of `sunxi_fastboot_state_loop` from `drivers/sunxi_usb/usb_fastboot.c` with the handlers of
its commands.

Whether a board with secure boot is locked stands in an object of the secure storage,
`fastboot_status_flag`, that `sunxi_fastboot_status` looks up whenever a command asks for it. A copy
of the answer is kept in `gd->lockflag`, and `sunxi_oem_op_lock` goes by the copy.

Everything outside answers by the number of the operation: a flash read or write, an operation of
the secure storage, an allocation, a check of a signature. An operation succeeds or fails, and power
may be lost before it.

What is printed, the environment variables but one, the display, the two calls that flush the flash
and the data patched into a boot0 image are left out. So is what becomes of U-Boot itself when an
unlocked board is told to move data over it.

## Main definitions

* `World`, `St`, `Handler`: What is outside, the variables, and a program that returns to the loop
  or leaves U-Boot.
* `command`, `stateLoop`: The dispatch to the handlers, and one turn of the loop.
* `powerOn`: The board comes back into fastboot.
-/

namespace Brandy.Fastboot

open Memory Word Text Process
open Sparse (SpriteFlash Statics)

def sunxiLocked : Nat := 0xAA

def sunxiUnlocked : Nat := 0xA5

/-- `SUNXI_SECURE_MODE_WITH_SECUREOS`. -/
def secureModeWithSecureos : Nat := 1

/-- `SUNXI_SECURE_MODE_NO_SECUREOS`. -/
def secureModeNoSecureos : Nat := 2

def sunxiFastbootFlag : Nat := 0x5F

def sunxiBootRecoveryFlag : Nat := 0x5C

/-- `FASTBOOT_TRANSFER_BUFFER`, where the downloaded data is. -/
def transferBuffer : Nat := 0x41000000

/-- `FASTBOOT_TRANSFER_BUFFER_SIZE`. -/
def transferBufferSize : Nat := 256 * 2 ^ 20

/-- `FASTBOOT_ERASE_BUFFER_SIZE`. -/
def eraseBufferSize : Nat := 2 ^ 20

/-- `SUNXI_USB_FASTBOOT_BUFFER_MAX`. -/
def fastbootBufferMax : Nat := 32 * 1024 * 1024

/-- `CFG_FASTBOOT_MKBOOTIMAGE_PAGE_SIZE`. -/
def mkbootimagePageSize : Nat := 2048

/-- `IH_MAGIC`, in the byte order of an image. -/
def ihMagic : List UInt8 := [0x27, 0x05, 0x19, 0x56]

/-- `disk_partition_t`. -/
structure DiskPartition where
  name : List UInt8
  start : Nat
  size : Nat
  type : List UInt8
  deriving DecidableEq

/-- How one operation outside ends. Without `power` it does not take place. `took` says whether a
    write that fails has stored the value all the same, and `junk` is what a failed read leaves in
    the buffer. -/
structure Outcome where
  power : Bool
  ok : Bool
  took : Bool
  junk : Nat → UInt8

/-- What is outside: the configuration of the build, the board, and the outcome of every operation.
    A restart takes `lockflag` from the table in flash, and memory holds anything. -/
structure World where
  configUboot : Bool
  configBoot0 : Bool
  configMbr : Bool
  configAvb : Bool
  lastPartitionName : List UInt8
  abSystem : List UInt8 → List UInt8
  logicOffset : Nat
  securityStatus : Bool
  bootfileToc : Bool
  outcome : Nat → Outcome
  mbrTable : Mem → List DiskPartition
  bootLockflag : Nat → Nat
  bootMem : Nat → Mem

/-- `sunxi_usb_fastboot_status`. -/
inductive Status where
  | idle
  | setup
  | sendData
  | receiveData
  deriving DecidableEq

/-- What is recorded: an answer to the host, the last byte of `frp` that an unlock command read, an
    erase of the user data, and a value stored as `fastboot_status_flag`. -/
inductive Event where
  | sent (response : List UInt8)
  | frp (b : UInt8)
  | wiped
  | flag (value : List UInt8)
  deriving DecidableEq

/-- The variables of the file and of `gd`, and the storage. `received` is how far `rx_req_buffer`
    has moved in the transfer buffer. `ops` numbers the operations. -/
structure St where
  status : Status
  rxReadyForData : Bool
  rxReqBuffer : List UInt8
  dataFlag : Bool
  received : Nat
  tryToRecv : Nat
  allDownloadBytes : Nat
  securemode : Nat
  lockflag : Nat
  parts : List DiskPartition
  mem : Mem
  statics : Statics
  flash : SpriteFlash
  statusFlag : Option (List UInt8)
  deviceUnlock : Option (List UInt8)
  ops : Nat
  log : List Event

/-- The ways to leave U-Boot. -/
inductive Exit where
  | powerLoss
  | restart (mode : Nat)
  | fel
  | booted
  deriving DecidableEq

/-- A handler. -/
abbrev Handler := Proc St Exit

/-- The comparison with a literal that the file makes everywhere: `strncmp` over the length of the
    literal. -/
def startsWith (buffer : List UInt8) (literal : String) : Bool := (ascii literal).isPrefixOf buffer

section

variable (w : World)

/-- The next operation outside. -/
def operate : Handler Outcome := fun s =>
  if (w.outcome s.ops).power then .ret (w.outcome s.ops) { s with ops := s.ops + 1 }
  else .gone .powerLoss s

/-- An operation of which only the success matters. -/
def succeeds : Handler Bool := do
  let o ← operate w
  return o.ok

/-- The event is recorded. -/
def record (e : Event) : Handler Unit := update fun s => { s with log := s.log ++ [e] }

/-- `__sunxi_fastboot_send_status`. -/
def sendStatus (response : List UInt8) : Handler Unit := record (.sent response)

/-- `sunxi_flash_read`: whether it succeeded, and the buffer. -/
def sunxiFlashRead (start : Nat) : Handler (Bool × (Nat → UInt8)) := do
  let o ← operate w
  let byte ← look fun s => s.flash.byte
  return (o.ok, if o.ok then fun i => byte (512 * start + i) else o.junk)

def sunxiFlashWrite (start n : Nat) (src : Nat → UInt8) : Handler Bool := do
  let o ← operate w
  update fun s => if o.ok then { s with flash := s.flash.put start n src } else s
  return o.ok

/-- `sunxi_flash_try_partition`: the first partition of the name, or of the name for it in the slot
    in use. -/
def tryPartition (parts : List DiskPartition) (name : List UInt8) : Option DiskPartition :=
  parts.find? fun p => p.name.take 32 = (w.abSystem name).take 32 ∨ p.name.take 32 = name.take 32

/-- `sunxi_partition_get_info`. -/
def partitionGetInfo (parts : List DiskPartition) (name : List UInt8) : Option DiskPartition :=
  (tryPartition w parts name).map fun p =>
    { p with start := u32 ((p.start : Int) - w.logicOffset), size := u32 p.size }

/-- `sunxi_partition_get_offset_byname`. -/
def partitionGetOffsetByname (parts : List DiskPartition) (name : List UInt8) : Nat :=
  match partitionGetInfo w parts name with
  | some info => info.start
  | none => 0

/-- `sunxi_secure_object_write` of `fastboot_status_flag`. -/
def writeStatusObject (value : List UInt8) : Handler Bool := do
  let o ← operate w
  update fun s =>
    if o.ok || o.took then { s with statusFlag := some value, log := s.log ++ [.flag value] } else s
  return o.ok

/-- `sunxi_secure_object_write` of `device_unlock`. -/
def writeUnlockObject (value : List UInt8) : Handler Bool := do
  let o ← operate w
  update fun s => if o.ok || o.took then { s with deviceUnlock := some value } else s
  return o.ok

/-- `gd->securemode` is one of the two secure modes. -/
def secure (s : St) : Bool :=
  s.securemode = secureModeWithSecureos || s.securemode = secureModeNoSecureos

/-- `gd->lockflag` set. -/
def setLockflag (flag : Nat) : Handler Unit := update fun s => { s with lockflag := flag }

/-- `sunxi_fastboot_status_read`. Of the two objects it reads, the first only decides about an
    environment variable. -/
def fastbootStatusRead : Handler Int := do
  let init ← succeeds w
  if !init then return 0
  else
    let _ ← succeeds w
    let ok ← succeeds w
    let value ← look fun s => s.statusFlag
    match ok, value with
    | true, some buffer =>
      if cstr buffer = ascii "unlocked" then
        setLockflag sunxiUnlocked
        return -1
      else if cstr buffer = ascii "locked" then
        setLockflag sunxiLocked
        return 0
      else return 0
    | _, _ =>
      setLockflag sunxiLocked
      return 0

/-- Whether `sunxi_fastboot_status_read` sets `verifiedbootstate` to `yellow`. A `device_unlock`
    that cannot be read is zero. -/
def setsYellow : Handler Bool := do
  let init ← succeeds w
  if !init then return false
  else
    let okUnlock ← succeeds w
    let unlock ← look fun s => s.deviceUnlock
    let ok ← succeeds w
    let value ← look fun s => s.statusFlag
    match ok, value with
    | true, some buffer =>
      return cstr buffer = ascii "locked" &&
        cstr (if okUnlock then unlock.getD [] else []) = ascii "unlock"
    | _, _ => return false

def sunxiFastbootStatus : Handler Int := do
  let isSecure ← look secure
  if isSecure then fastbootStatusRead w else return -1

/-- `sunxi_fastboot_write_status_flag`. -/
def fastbootWriteStatusFlag (name : String) : Handler Int := do
  let init ← succeeds w
  if !init then return -1
  else
    let flag ← writeStatusObject w (ascii name)
    if !flag then return -1
    else
      let unlock ← writeUnlockObject w (ascii name)
      if !unlock then return -1 else return 0

/-- `sunxi_read_oem_unlock_ability`. The result is a `char`, so the `-1` for a missing partition is
    255. -/
def readOemUnlockAbility : Handler UInt8 := do
  let parts ← look fun s => s.parts
  match partitionGetInfo w parts (ascii "frp") with
  | none => return 255
  | some info =>
    if info.start = 0 then return 0
    else
      let r ← sunxiFlashRead w (u32 ((info.start : Int) + info.size - 1))
      if r.1 then
        record (.frp (r.2 511))
        return r.2 511
      else return r.2 511

/-- The loop of `__erase_part`: `count` buffers from `start` on. -/
def eraseBlocks : Nat → Nat → Handler Bool
  | 0, _ => return true
  | count + 1, start => do
    let ok ← sunxiFlashWrite w start (eraseBufferSize / 512) fun _ => 0xff
    if ok then eraseBlocks count (u32 (start + (eraseBufferSize / 512 : Nat))) else return false

/-- The sectors of a partition overwritten: as many whole buffers as fit, then the rest. -/
def eraseSectors (start unerasedSectors : Nat) : Handler Int := do
  let nblock := eraseBufferSize / 512
  let done ← eraseBlocks w (unerasedSectors / nblock) start
  if !done then return -1
  else if unerasedSectors % nblock ≠ 0 then
    let ok ← sunxiFlashWrite w (u32 (start + (unerasedSectors / nblock * nblock : Nat)))
      (unerasedSectors % nblock) fun _ => 0xff
    return if ok then 0 else -1
  else return 0

/-- The user partition and the cache are not erased beyond this many sectors. -/
def eraseLimit : Nat := 16 * 1024 * 1024 / 512

/-- The body that `erase_userdata` and `__erase_part` share. They differ in the partitions for which
    the limit is in force. -/
def eraseNamed (name : List UInt8) (limited : Bool) : Handler Int := do
  let addr ← succeeds w
  if !addr then return -1
  else
    let parts ← look fun s => s.parts
    match partitionGetInfo w parts name with
    | none => return -1
    | some info =>
      let unerasedSectors := if limited then min info.size eraseLimit else info.size
      if info.start = 0 ∨ unerasedSectors = 0 then return -1
      else eraseSectors w info.start unerasedSectors

def eraseUserdata : Handler Int := eraseNamed w w.lastPartitionName true

def erasePart (name : List UInt8) : Handler Int :=
  eraseNamed w name (w.lastPartitionName.isPrefixOf name || startsWith name "cache")

/-- `sunxi_oem_erase_part`. -/
def oemErasePart : Handler Int := do
  let ret ← eraseUserdata w
  if ret ≠ 0 then return -1
  else
    let ret ← erasePart w (ascii "metadata")
    if ret ≠ 0 then return -1
    else
      record .wiped
      return 0

def fastbootErasePart (name : List UInt8) : Handler Unit := do
  let ret ← erasePart w name
  if ret < 0 then sendStatus (ascii "erase " ++ name ++ ascii " partition fail")
  else sendStatus (ascii "OKAY")

def limitedFastbootUnlock : Handler Unit :=
  sendStatus (ascii "FAILability is 0. Permission denied for this command!")

/-- `oem_lock_will_brick_device`: the text for the host when it will. -/
def oemLockWillBrickDevice : Handler (Option String) :=
  if w.configAvb then do
    let boots ← succeeds w
    return if boots then none else some "vbmeta modified, try adb enable-verity before oem lock"
  else return none

/-- `sunxi_oem_op_lock`: the code and the text of `info`. -/
def oemOpLock (requestFlag : Nat) : Handler (Int × String) := do
  let lockflag ← look fun s => s.lockflag
  if requestFlag = sunxiLocked then
    if lockflag = sunxiLocked then return (-1, "system is already locked")
    else
      let ret ← oemErasePart w
      if ret = 0 then
        setLockflag sunxiLocked
        return (0, "Lock device successfully!")
      else return (-2, "the lock flag is invalid")
  else if requestFlag = sunxiUnlocked then
    if lockflag = sunxiUnlocked then return (0, "system is already unlocked")
    else
      let ret ← oemErasePart w
      if ret = 0 then
        setLockflag sunxiUnlocked
        return (0, "Unlock device successfully!")
      else return (-4, "the unlock flag is invalid")
  else return (-5, "the requst is invalid")

/-- The end of `__oem_operation`: erase, set the flag in `gd` and answer. -/
def oemLockAndAnswer (lockflag : Nat) : Handler Unit := do
  let r ← oemOpLock w lockflag
  sendStatus (ascii (if r.1 = 0 then "OKAY" else "FAIL") ++ ascii r.2)

/-- `"lock"` in `__oem_operation`. -/
def oemLock : Handler Unit := do
  let isSecure ← look secure
  if isSecure then
    let brick ← oemLockWillBrickDevice w
    match brick with
    | some info => sendStatus (ascii "FAIL" ++ ascii info)
    | none =>
      let _ ← fastbootWriteStatusFlag w "locked"
      oemLockAndAnswer w sunxiLocked
  else oemLockAndAnswer w 0

/-- `"unlock"` in `__oem_operation`. -/
def oemUnlock : Handler Unit := do
  let isSecure ← look secure
  if isSecure then
    let ability ← readOemUnlockAbility w
    if ability = 0 then limitedFastbootUnlock
    else
      let _ ← fastbootWriteStatusFlag w "unlocked"
      oemLockAndAnswer w sunxiUnlocked
  else oemLockAndAnswer w 0

def oemOperation (operation : List UInt8) : Handler Unit :=
  if startsWith operation "lock" then oemLock w
  else if startsWith operation "unlock" then oemUnlock w
  else if startsWith operation "efex" then do
    sendStatus (ascii "OKAY")
    leave .fel
  else sendStatus (ascii "FAILfastboot oem operation fail: unknown cmd")

/-- A boot file checked and handed to the sprite: the answer. -/
def downloadBoot : Handler Unit := do
  let ok ← succeeds w
  sendStatus (ascii (if ok then "OKAY" else "FAIL"))

def flashToMbr : Handler Unit := do
  let verified ← succeeds w
  if !verified then sendStatus (ascii "FAIL")
  else
    let ok ← succeeds w
    update fun s => if ok then { s with parts := w.mbrTable s.mem } else s
    sendStatus (ascii (if ok then "OKAY" else "FAIL"))

def flashToBoot0 : Handler Unit := do
  let mem ← look fun s => s.mem
  let magic := if w.bootfileToc then read mem transferBuffer 8 else read mem (transferBuffer + 4) 8
  if magic ≠ ascii (if w.bootfileToc then "TOC0.GLH" else "eGON.BT0") then sendStatus (ascii "FAIL")
  else
    -- the head of the boot0 in flash, of which the storage data is kept
    let _ ← succeeds w
    downloadBoot w

def flashToUboot : Handler Unit := do
  let mem ← look fun s => s.mem
  let name := cstr (read mem transferBuffer 16)
  if name ≠ ascii "sunxi-package" ∧ name ≠ ascii "sunxi-secure" then
    sendStatus (ascii "FAILdownload:there is not boot-package/toc1 file \n")
  else if w.securityStatus then
    let verified ← succeeds w
    if !verified then sendStatus (ascii "FAILdownload:check toc1 root key fail \n")
    else downloadBoot w
  else downloadBoot w

/-- `strict_strtoul` with base sixteen. -/
def strictStrtoul (cp : List UInt8) : Option Nat :=
  if cp = [] then none
  else
    let (val, tail) := strtoulHex cp
    if tail.length = cp.length then none
    else if tail = [] ∨ tail = [10] then some (u32 val)
    else none

/-- The part of the state that the decoder of sparse images works on. -/
def St.world (s : St) : Sparse.World where
  statics := s.statics
  mem := s.mem
  flash := s.flash
  writes := s.ops

/-- The state with that part replaced. -/
def St.setWorld (s : St) (v : Sparse.World) : St := { s with
  statics := v.statics
  mem := v.mem
  flash := v.flash
  ops := v.writes }

/-- The end of a run of the decoder, at the first write that does not succeed. When power was lost
    before it, U-Boot ends there. -/
def decoded (r : Int × Sparse.World) : Handler Int := fun s =>
  if s.ops < r.2.writes ∧ (w.outcome (r.2.writes - 1)).power = false then
    .gone .powerLoss (s.setWorld r.2)
  else .ret r.1 (s.setWorld r.2)

/-- `unsparse_direct_write` on the downloaded data. -/
def unsparseWrite (length : Nat) : Handler Int := fun s =>
  decoded w (Sparse.unsparseDirectWrite (fun i => (w.outcome i).power && (w.outcome i).ok) s.world
    transferBuffer length) s

/-- The loop of `__flash_to_part`: `count` buffers from `start` on. -/
def flashBlocks : Nat → Nat → Int → Handler Bool
  | 0, _, _ => return true
  | count + 1, start, addr => do
    let mem ← look fun s => s.mem
    let ok ← sunxiFlashWrite w start (transferBufferSize / 512) fun i => mem (addr + i)
    if ok then
      flashBlocks count (u32 (start + (transferBufferSize / 512 : Nat))) (addr + transferBufferSize)
    else return false

/-- The raw data written to a partition: as many whole buffers as fit, then the rest. -/
def flashSectors (start dataSectors : Nat) : Handler Bool := do
  let nblock := transferBufferSize / 512
  let done ← flashBlocks w (dataSectors / nblock) start transferBuffer
  if !done then return false
  else if dataSectors % nblock ≠ 0 then
    let mem ← look fun s => s.mem
    sunxiFlashWrite w (u32 (start + (dataSectors / nblock * nblock : Nat))) (dataSectors % nblock)
      fun i => mem (transferBuffer + (dataSectors / nblock * transferBufferSize : Nat) + i)
  else return true

/-- The end of `__flash_to_part`. -/
def flashDone : Handler Int := do
  sendStatus (ascii "OKAY")
  return 0

/-- The data is no sparse image. -/
def flashRaw (name : List UInt8) (info : DiskPartition) : Handler Int := do
  let tryToRecv ← look fun s => s.tryToRecv
  let dataSectors := u32 (tryToRecv + 511) / 512
  if info.size < dataSectors then
    sendStatus (ascii "FAILdownload: partition size < data size")
    return -1
  else
    let ok ← flashSectors w info.start dataSectors
    if ok then flashDone
    else
      sendStatus (ascii "FAILdownload: write partition " ++ name ++ ascii " err")
      return -1

/-- The data is a sparse image. The text for the host is made when it cannot be written, and not
    sent. -/
def flashSparse : Handler Int := do
  let tryToRecv ← look fun s => s.tryToRecv
  let ret ← unsparseWrite w tryToRecv
  if ret ≠ 0 then return -1 else flashDone

/-- The state with the statics of the decoder replaced. -/
def St.setStatics (s : St) (statics : Statics) : St := { s with statics := statics }

/-- `unsparse_probe` on the downloaded data. -/
def probe (start : Nat) : Handler Int := fun s =>
  .ret (Sparse.unsparseProbe s.mem transferBuffer start s.statics).1
    (s.setStatics (Sparse.unsparseProbe s.mem transferBuffer start s.statics).2)

def flashToPart (name : List UInt8) : Handler Int := do
  let parts ← look fun s => s.parts
  match partitionGetInfo w parts name with
  | none =>
    match strictStrtoul name with
    | none =>
      sendStatus (ascii "FAILdownload: partition " ++ name ++ ascii " does not exist")
      return -1
    | some addr =>
      update fun s => { s with mem := memcpy s.mem addr transferBuffer s.tryToRecv }
      flashDone
  | some info =>
    let format ← probe info.start
    if format = 1 then flashSparse w else flashRaw w name info

def fastbootReboot (wordMode : Nat) : Handler Unit := do
  sendStatus (ascii "OKAY")
  leave (.restart wordMode)

/-- The `recovery` field of `struct bootloader_message`, all zero but for the text at its front. -/
def recoveryField (i : Nat) : UInt8 := (ascii "recovery\n--fastboot").getD i 0

/-- `"reboot-fastboot"`: leave a note in the `misc` partition and restart. -/
def rebootFastboot : Handler Unit := do
  let parts ← look fun s => s.parts
  let miscOffset := partitionGetOffsetByname w parts (ascii "misc")
  if miscOffset = 0 then return
  else
    let r ← sunxiFlashRead w miscOffset
    let miscArgs := fun i => if 64 ≤ i ∧ i < 1088 then recoveryField (i - 64) else r.2 i
    let _ ← sunxiFlashWrite w miscOffset 4 miscArgs
    fastbootReboot sunxiBootRecoveryFlag

/-- `__try_to_download`: the code, and the text for the host. -/
def tryToDownload (downloadSize : List UInt8) : Handler (Int × List UInt8) := do
  let size := u32 (strtoulHex downloadSize).1
  update fun s => { s with tryToRecv := size, allDownloadBytes := size }
  if size = 0 then return (-1, ascii "FAILdownload: data size is 0")
  else if fastbootBufferMax < size then return (-1, ascii "FAILdownload: data > buffer")
  else return (0, ascii "DATA" ++ hex 8 size)

/-- `"download:"`. -/
def download (downloadSize : List UInt8) : Handler Unit := do
  let r ← tryToDownload downloadSize
  update fun s =>
    if 0 ≤ r.1 then { s with dataFlag := true, received := 0, status := .receiveData } else s
  sendStatus r.2

/-- `__boot`. None of the texts it makes for the host is sent. -/
def boot : Handler Unit := do
  let allDownloadBytes ← look fun s => s.allDownloadBytes
  let mem ← look fun s => s.mem
  if mkbootimagePageSize < allDownloadBytes ∧
      read mem (transferBuffer + mkbootimagePageSize) 4 = ihMagic then
    let booted ← succeeds w
    if booted then leave .booted else return
  else return

def getVar (verName : List UInt8) : Handler Unit := do
  let parts ← look fun s => s.parts
  if verName = ascii "version" then sendStatus (ascii "OKAY0.5")
  else if verName = ascii "product" then sendStatus (ascii "OKAYsunxi")
  else if verName = ascii "serialno" then sendStatus (ascii "OKAY20080411")
  else if verName = ascii "downloadsize" ∨ verName = ascii "max-download-size" then
    sendStatus (ascii "OKAY0x" ++ hex 8 fastbootBufferMax)
  else if verName = ascii "secure" then sendStatus (ascii "OKAYyes")
  else if startsWith verName "partition-type:" then
    match partitionGetInfo w parts (verName.drop 15) with
    | none => sendStatus (ascii "FAILpartition " ++ verName.drop 15 ++ ascii " not found")
    | some info => sendStatus (ascii "OKAY" ++ info.type)
  else sendStatus (ascii "OKAYnot supported")

/-- `__continue`. -/
def continueBoot : Handler Unit := do
  sendStatus (ascii "OKAY")
  let booted ← succeeds w
  if booted then leave .booted else return

/-- `__snapshot_update`. The answer is cut to the 31 bytes that its buffer holds. -/
def snapshotUpdate (operation : List UInt8) : Handler Unit :=
  if startsWith operation "cancel" then sendStatus (ascii "OKAY")
  else sendStatus ((ascii "FAIL:Unsupport op:" ++ operation).take 31)

def unsupportedCmd : Handler Unit := sendStatus (ascii "FAIL")

def limitedFastboot : Handler Unit :=
  sendStatus (ascii "FAIL:secure mode,fastboot limited used")

/-- A command that a locked board refuses. -/
def limited (command : Handler Unit) : Handler Unit := do
  let unlocked ← sunxiFastbootStatus w
  if unlocked = 0 then limitedFastboot else command

/-- `"flash:"`. -/
def flash (name : List UInt8) : Handler Unit :=
  if w.configUboot && (startsWith name "u-boot" || startsWith name "toc1") then flashToUboot w
  else if w.configBoot0 && (startsWith name "boot0" || startsWith name "toc0") then flashToBoot0 w
  else if w.configMbr && startsWith name "mbr" then flashToMbr w
  else do
    let _ ← flashToPart w name
    return

/-- The command in the buffer carried out. The texts behind its name end at the first NUL. The
    operation of an OEM command starts at the fifth byte, also for `flashing`. -/
def command (buffer : List UInt8) : Handler Unit :=
  if startsWith buffer "reboot-bootloader" then fastbootReboot sunxiFastbootFlag
  else if startsWith buffer "reboot-fastboot" then rebootFastboot w
  else if startsWith buffer "reboot" then fastbootReboot 0
  else if startsWith buffer "erase:" then limited w (fastbootErasePart w (cstr (buffer.drop 6)))
  else if startsWith buffer "flash:" then limited w (flash w (cstr (buffer.drop 6)))
  else if startsWith buffer "download:" then limited w (download (cstr (buffer.drop 9)))
  else if startsWith buffer "boot" then limited w (boot w)
  else if startsWith buffer "getvar:" then limited w (getVar w (cstr (buffer.drop 7)))
  else if startsWith buffer "oem" || startsWith buffer "flashing" then
    oemOperation w (cstr (buffer.drop 4))
  else if startsWith buffer "continue" then continueBoot w
  else if startsWith buffer "snapshot-update:" then snapshotUpdate (cstr (buffer.drop 16))
  else unsupportedCmd

/-- The command is taken from the buffer. -/
def St.taken (s : St) : St := { s with status := .idle, rxReadyForData := false }

/-- `case SUNXI_USB_FASTBOOT_SETUP`. -/
def setup : Handler Unit := do
  update St.taken
  let buffer ← look fun s => s.rxReqBuffer
  command w buffer

/-- `case SUNXI_USB_FASTBOOT_RECEIVE_DATA`. -/
def receiveData : Handler Unit := do
  let finished ← look fun s => s.dataFlag && s.received = s.allDownloadBytes
  if finished then
    update fun s => { s with dataFlag := false, status := .idle }
    sendStatus (ascii "OKAY")
  else return

/-- `sunxi_fastboot_state_loop`. -/
def stateLoop : Handler Unit := do
  let status ← look fun s => s.status
  match status with
  | .idle => update fun s => if s.rxReadyForData then { s with status := .setup } else s
  | .setup => setup w
  | .sendData => return
  | .receiveData => receiveData

/-- The board comes back into fastboot: `sunxi_fastboot_init`, after `sunxi_partition_init` took
    `gd->lockflag` from the table in flash. The operation cut off keeps its number. -/
def powerOn (s : St) : St := { s with
  status := .idle
  rxReadyForData := false
  rxReqBuffer := []
  dataFlag := false
  received := 0
  tryToRecv := 0
  allDownloadBytes := 0
  lockflag := w.bootLockflag s.ops
  mem := w.bootMem s.ops
  ops := s.ops + 1 }

end

end Brandy.Fastboot
