import Brandy.Core.EfexQueue
import Brandy.Library.Word

/-!
# The USB Download Protocol

A model of `sunxi_efex_state_loop` from `drivers/sunxi_usb/usb_efex.c` for requests in the new
command format, with `__sunxi_usb_efex_op_cmd` and `dram_data_recv_finish`, in the build that has
the write queue.

The main loop calls one function again and again, which makes one step of the transfer in each call.
In between interrupts come in: a request, the end of a transfer, or a reset of the bus. What is
outside, the storage apart from the queue, is given by the number of the call.

## Main definitions

* `Status`, `St`: The state of a transfer, and the variables of the file.
* `opCmd`, `dramDataRecvFinish`: A command, and what follows when its data is there.
* `setupNew`, `receiveDataNew`, `stateLoop`: One step of the loop.
-/

namespace Brandy.Efex

open Memory Sectors Word EfexQueue

/-- The commands, with the fields that are used. -/
inductive Cmd where
  | verifyDev
  | switchRole
  | isReady
  | getCmdSetVer
  | disconnect
  | trans (addr len dou : Nat)
  | run
  | down (addr len type : Nat)
  | up (addr len type : Nat)
  | verifyValue
  | verifyStatus
  | queryStorage
  | flashSetOn
  | flashSetOff
  | flashSizeProbe
  | toolMode (mode nextMode : Nat)
  | memset (startAddr value length : Nat)
  | pmu (size type : Nat)
  | unseqmemRead (size type : Nat)
  | unseqmemWrite (size count type : Nat)
  | forceErase
  | forceEraseKey
  | querySecure
  | spinand (addr len type : Nat)
  | nand (addr len type : Nat)
  | queryInfo (tag : Nat)
  | unknown
  deriving DecidableEq

/-- A request: whether its length and its magic are right, and the command in it. -/
structure Request where
  valid : Bool
  cmd : Cmd

/-- `sunxi_usb_efex_status`. After a timeout the device is in `fel` and never comes back. -/
inductive Status where
  | idle
  | setup
  | setupNew
  | sendDataNew
  | receiveDataNew
  | status
  | exit
  | fel
  deriving DecidableEq

/-- `trans_data.app_next_status`. It is 0 until a command sets it. -/
inductive Next where
  | unset
  | sendData
  | receiveData
  | status
  | exit
  deriving DecidableEq

/-- A place in one of the two buffers, or in the memory. -/
inductive Loc where
  | recv (offset : Nat)
  | send
  | ram (addr : Nat)

/-- `efex_trans_set_t`. -/
structure Trans where
  type : Nat
  actRecvBuffer : Loc
  recvSize : Nat
  toBeRecvedSize : Nat
  actSendBuffer : Loc
  sendSize : Nat
  flashStart : Nat
  flashSectors : Nat
  dramTransBuffer : Nat
  lastErr : Int
  appNextStatus : Next

/-- What happens at the device. `lost` is a page of the queue that could not be written, `got` the
    data of a complete transfer. -/
inductive Event where
  | cmd (c : Cmd)
  | lost
  | got (bytes : List UInt8)
  | data (bytes : List UInt8)
  | status (csw : Nat)
  deriving DecidableEq

/-- The variables of the file. `left` is what the main loop was left with, and `tick` is the number
    of the call. -/
structure St where
  status : Status
  rxReady : Bool
  req : Request
  writeEnable : Bool
  trans : Trans
  csw : Nat
  nextAction : Nat
  suspend : Bool
  unseqCount : Option Nat
  recvBuffer : Mem
  sendBuffer : Mem
  ram : Mem
  dev : Dev
  left : Option Int
  tick : Nat
  log : List Event

/-- What is outside: the writes of the queue, the storage, the build, and the answers to everything
    else by the number of the call. `effect` is what the functions of the sprite do to the flash,
    `result` what they return. -/
structure World where
  queue : EfexQueue.World
  isNand : Bool
  isEmmc : Bool
  hasSpinand : Bool
  hasNand : Bool
  hasUbifs : Bool
  readOk : Nat → Bool
  phyread : Nat → Option Mem
  gptToMbr : Mem → Option Mem
  nextWork : Option Nat
  info : Nat → Mem
  result : Nat → Nat → Int
  effect : Nat → Disk → Disk

/-- `SUNXI_EFEX_RECV_MEM_SIZE`. -/
def recvMemSize : Nat := 4 * 1024 * 1024

/-- `SUNXI_EFEX_DRAM_MASK`. -/
def dramMask : Nat := 0x7f00

/-- All bits of a tag are set. -/
def hasTag (type tag : Nat) : Bool := type &&& tag = tag

/-- The bytes from a place on. -/
def memAt (s : St) : Loc → Mem
  | .recv offset => fun x => s.recvBuffer (x + offset)
  | .send => s.sendBuffer
  | .ram addr => fun x => s.ram (x + addr)

/-- The transfer of `n` bytes to a place. -/
def dmaStore (s : St) (loc : Loc) (n : Nat) (data : Mem) : St :=
  match loc with
  | .recv offset =>
    { s with recvBuffer := overlay s.recvBuffer (fun x => data (x - offset)) offset n }
  | .send => { s with sendBuffer := overlay s.sendBuffer data 0 n }
  | .ram addr => { s with ram := overlay s.ram (fun x => data (x - addr)) addr n }

/-- The state with other transfer data. -/
def St.setTrans (s : St) (t : Trans) : St := { s with trans := t }

/-- The state with a flash that the sprite has worked on. -/
def St.affect (w : World) (s : St) : St :=
  { s with dev := { s.dev with flash := w.effect s.tick s.dev.flash } }

/-- The pages that could not be written between two states of the queue. -/
def lostEvents (w : World) (d d' : Dev) : List Event :=
  ((List.range' d.writes (d'.writes - d.writes)).filter fun n => !w.queue.writeOk n).map
    fun _ => .lost

/-- The state with another state of the queue. The pages that were lost come into the log. -/
def St.setDev (w : World) (s : St) (d : Dev) : St :=
  { s with dev := d, log := s.log ++ lostEvents w s.dev d }

/-- A command that sends `size` bytes of its own. -/
def sendInfo (w : World) (s : St) (size : Nat) (lastErr : Int) : St :=
  { s with
    sendBuffer := overlay s.sendBuffer (w.info s.tick) 0 size
    trans := { s.trans with
      actSendBuffer := .send
      sendSize := size
      lastErr := lastErr
      appNextStatus := .sendData } }

/-- A command that has only a result. -/
def onlyStatus (s : St) (lastErr : Int) : St :=
  s.setTrans { s.trans with lastErr := lastErr, appNextStatus := .status }

/-- `(len + 511) >> 9` on 32 bits. -/
def sectorsOf (len : Nat) : Nat := (len + 511) % 2 ^ 32 / 512

/-- `FEX_CMD_fes_trans`. -/
def fesTrans (s : St) (addr len dou : Nat) : St :=
  if len = 0 then onlyStatus s 0
  else if dou = 2 then
    s.setTrans { s.trans with
      actSendBuffer := .ram addr, sendSize := len, lastErr := 0, appNextStatus := .sendData }
  else
    s.setTrans { s.trans with
      type := dramMask
      actRecvBuffer := .ram addr
      recvSize := len
      lastErr := 0
      appNextStatus := .receiveData }

/-- `FEX_CMD_fes_down`. -/
def fesDown (s : St) (addr len type : Nat) : St :=
  if hasTag type dramMask then
    let whole := type = dramMask + 0x10000
    s.setTrans { s.trans with
      type := type
      actRecvBuffer := .recv (if whole then 0 else s.trans.toBeRecvedSize)
      dramTransBuffer := if whole then addr else s.trans.dramTransBuffer
      recvSize := len
      toBeRecvedSize := (s.trans.toBeRecvedSize + len) % 2 ^ 32
      lastErr := 0
      appNextStatus := .receiveData }
  else
    s.setTrans { s.trans with
      type := type
      actRecvBuffer := .recv (recvMemSize / 2)
      recvSize := len
      flashStart := addr
      flashSectors := sectorsOf len
      lastErr := 0
      appNextStatus := .receiveData }

/-- The bytes of the flash from a sector on. -/
def flashBytes (flash : Disk) (start : Nat) : Mem := fun x =>
  (flash ((start + x.toNat / 512) % 2 ^ 32)).getD (x.toNat % 512) 0

/-- What is sent instead of the first boot area. -/
def notSupported : Mem := fun x => "dump boot0 not support".toUTF8.data.getD x.toNat 0

/-- The part of `FEX_CMD_fes_up` that reads a boot area, with the `n` bytes that are sent when that
    is not possible. -/
def upBoot (w : World) (s : St) (t : Trans) (text : Mem) (n : Nat) : St :=
  if w.isEmmc then
    match w.phyread s.tick with
    | some m =>
      { s with trans := t, sendBuffer := overlay s.sendBuffer m 0 (t.flashSectors * 512) }
    | none => s.setTrans { t with lastErr := -1 }
  else { s with trans := t, sendBuffer := overlay s.sendBuffer text 0 n }

/-- The part of `FEX_CMD_fes_up` that reads the flash. The partition table is converted. -/
def upFlash (w : World) (s : St) (t : Trans) : St :=
  let s :=
    if w.readOk s.tick then
      { s with
        trans := t
        sendBuffer :=
          overlay s.sendBuffer (flashBytes s.dev.flash t.flashStart) 0 (t.flashSectors * 512) }
    else s.setTrans { t with lastErr := -1 }
  if t.flashStart = 0 ∧ t.flashSectors = 0x80 then
    match w.gptToMbr s.sendBuffer with
    | some mbr => { s with sendBuffer := overlay s.sendBuffer mbr 0 (16 * 1024) }
    | none => s
  else s

/-- `FEX_CMD_fes_up`. -/
def fesUp (w : World) (s : St) (addr len type : Nat) : St :=
  let t := { s.trans with type := type, sendSize := len, lastErr := 0, appNextStatus := .sendData }
  if hasTag type dramMask then s.setTrans { t with actSendBuffer := .ram addr }
  else
    let t := { t with
      actSendBuffer := .send, flashStart := addr, flashSectors := sectorsOf len }
    if hasTag type 0x8001 then upBoot w s t notSupported 22
    else if hasTag type 0x8002 then upBoot w s t (fun _ => 0) len
    else upFlash w s t

/-- `FEX_CMD_fes_tool_mode`: the next action and the next state. -/
def toolModeAction (w : World) (mode nextMode : Nat) : Nat × Next :=
  if mode = 0x08 then (if nextMode = 0 then 2 else nextMode, .exit)
  else if mode = 0x20 then (3, .exit)
  else
    let action := if nextMode = 0 then w.nextWork.getD 1 else 2
    if action ≤ 1 ∨ 4 < action then (1, .status) else (action, .exit)

/-- `FEX_CMD_fes_nand`. The identification and the page table can fail, and the tests and the erase
    work on the flash. -/
def fesNand (w : World) (s : St) (addr len type : Nat) : St :=
  let failed := (hasTag type 0x8004 ∨ hasTag type 0x8008) ∧ w.result s.tick 0 ≠ 0
  { s with
    trans := { s.trans with
      type := type
      flashStart := addr
      flashSectors := sectorsOf len
      lastErr := if failed then -1 else 0
      actSendBuffer := .send
      sendSize := len
      appNextStatus := .sendData }
    sendBuffer := overlay s.sendBuffer (w.info s.tick) 0 len }.affect w

/-- `FEX_CMD_fes_spinand`. -/
def fesSpinand (w : World) (s : St) (addr len type : Nat) : St :=
  { s with
    trans := { s.trans with
      type := type
      flashStart := addr
      flashSectors := sectorsOf len
      lastErr := 0
      actSendBuffer := .send
      sendSize := len
      appNextStatus := .sendData }
    sendBuffer := overlay s.sendBuffer (w.info s.tick) 0 len }

/-- `__sunxi_usb_efex_op_cmd`. Some commands leave the result and the next state of the command
    before. -/
def opCmd (w : World) (s : St) : Cmd → St
  | .verifyDev => sendInfo w s 32 0
  | .switchRole => onlyStatus s (-1)
  | .isReady => sendInfo w s 16 0
  | .getCmdSetVer => sendInfo w s 16 0
  | .disconnect => onlyStatus s (-1)
  | .trans addr len dou => fesTrans s addr len dou
  | .run => sendInfo w s 4 0
  | .down addr len type => fesDown s addr len type
  | .up addr len type => fesUp w s addr len type
  | .verifyValue => sendInfo w s 12 s.trans.lastErr
  | .verifyStatus => sendInfo w s 12 s.trans.lastErr
  | .queryStorage => sendInfo w s 4 0
  | .flashSetOn => (onlyStatus s (w.result s.tick 0)).affect w
  | .flashSetOff => (onlyStatus s (w.result s.tick 0)).affect w
  | .flashSizeProbe => sendInfo w s 4 0
  | .toolMode mode nextMode =>
    let (action, next) := toolModeAction w mode nextMode
    { s with
      nextAction := action
      suspend := false
      trans := { s.trans with lastErr := 0, appNextStatus := next } }
  | .memset startAddr value length =>
    onlyStatus
      { s with ram := overlay s.ram (fun _ => UInt8.ofNat (value % 256)) startAddr length } 0
  | .pmu size type =>
    s.setTrans { s.trans with
      recvSize := size, type := type, lastErr := 0, appNextStatus := .receiveData }
  | .unseqmemRead size type =>
    match s.unseqCount with
    | none =>
      s.setTrans { s.trans with
        recvSize := size
        type := type
        lastErr := -1
        actSendBuffer := .ram 0x40000000
        sendSize := 0
        appNextStatus := .sendData }
    | some count =>
      let s := sendInfo w s (count * 8 % 2 ^ 32) 0
      s.setTrans { s.trans with recvSize := size, type := type }
  | .unseqmemWrite size count type =>
    { s with
      unseqCount := some count
      trans := { s.trans with
        recvSize := size, type := type, lastErr := 0, appNextStatus := .receiveData } }
  | .forceErase => (onlyStatus s (w.result s.tick 0)).affect w
  | .forceEraseKey => (onlyStatus s (w.result s.tick 0)).affect w
  | .querySecure => sendInfo w s 4 0
  | .spinand addr len type =>
    if w.hasSpinand then if w.isNand then fesSpinand w s addr len type else s
    else onlyStatus s (-1)
  | .nand addr len type =>
    if w.hasNand then if w.isNand then fesNand w s addr len type else s
    else onlyStatus s (-1)
  | .queryInfo tag => if tag = 0x8101 then sendInfo w s 8 0 else s
  | .unknown => onlyStatus s (-1)

/-- The result of `dram_data_recv_finish` for a type of data. A partition table is checked, the
    flash erased, and the table written. -/
def recvFinishErr (w : World) (s : St) (dataType : Nat) : Int :=
  if dataType = 0x7f01 then
    if w.result s.tick 0 ≠ 0 then w.result s.tick 0
    else if w.result s.tick 1 ≠ 0 then -1
    else w.result s.tick 2
  else if dataType = 0x7f02 then
    if recvMemSize < s.trans.toBeRecvedSize then -1 else w.result s.tick 0
  else if dataType = 0x7f03 then w.result s.tick 0
  else if dataType = 0x7f04 ∨ dataType = 0x7f06 ∨ dataType = 0x7f07 then s.trans.lastErr
  else if dataType = 0x7f05 then -1
  else 0

/-- `dram_data_recv_finish`. The first three types work on the storage; the erase flag, the supply
    and the list of addresses are not kept here. The rest is plain data. -/
def dramDataRecvFinish (w : World) (s : St) (dataType : Nat) : St :=
  let t := { s.trans with lastErr := recvFinishErr w s dataType, toBeRecvedSize := 0 }
  if dataType = 0x7f01 ∨ dataType = 0x7f02 ∨ dataType = 0x7f03 then (s.setTrans t).affect w
  else if dataType = 0x7f04 ∨ dataType = 0x7f05 ∨ dataType = 0x7f06 ∨ dataType = 0x7f07 ∨
      dataType = 0x7ff0 ∧ w.hasUbifs then
    s.setTrans t
  else
    (dmaStore s (.ram s.trans.dramTransBuffer) s.trans.recvSize
      (memAt s s.trans.actRecvBuffer)).setTrans t

/-- The two commands that write all pages of the queue first. -/
def Cmd.flushes : Cmd → Bool
  | .verifyValue => true
  | .flashSetOff => true
  | _ => false

/-- The end of `SUNXI_USB_EFEX_SETUP_NEW`. -/
def afterCmd (s : St) : Int × St :=
  if s.csw ≠ 0 then (-1, { s with rxReady := false, status := .idle })
  else
    match s.trans.appNextStatus with
    | .sendData => (0, { s with status := .sendDataNew })
    | .receiveData =>
      (if s.trans.recvSize ≠ 0 then 0 else -1,
        { s with status := .receiveDataNew, writeEnable := false })
    | .status => (0, { s with status := .status })
    | .exit => (0, { s with status := .exit })
    | .unset => (-1, { s with rxReady := false, status := .idle })

/-- The 8-bit status of a result. -/
def cswOf (lastErr : Int) : Nat := (lastErr % 256).toNat

/-- `SUNXI_USB_EFEX_SETUP_NEW`. A page that is lost here sets a local flag, which this call does not
    look at any more. -/
def setupNew (w : World) (s : St) : Int × St :=
  let s := { s with log := s.log ++ [Event.cmd s.req.cmd] }
  let s := if s.req.cmd.flushes then s.setDev w (efexQueueWriteAllPage w.queue s.dev).2 else s
  let s := opCmd w s s.req.cmd
  afterCmd { s with csw := cswOf s.trans.lastErr }

/-- The data of a transfer that is complete goes to the memory or into the queue. -/
def takeData (w : World) (s : St) : St :=
  if s.trans.type &&& dramMask ≠ 0 then
    if s.trans.type &&& 0x10000 ≠ 0 then dramDataRecvFinish w s (s.trans.type &&& 0x7fff) else s
  else
    let (ret, d) := efexSaveBuffToQueue w.queue s.dev s.trans.flashStart s.trans.flashSectors
      (memAt s s.trans.actRecvBuffer)
    let s := s.setDev w d
    if ret ≠ 0 then s.setTrans { s.trans with lastErr := -1 } else s

/-- `SUNXI_USB_EFEX_RECEIVE_DATA_NEW`. While the transfer goes on, one page of the queue is written.
    The flag for a lost page is a local variable here too. -/
def receiveDataNew (w : World) (s : St) (timeout : Bool) : Int × St :=
  if timeout then (0, { s with status := .fel })
  else if !s.writeEnable then (0, s.setDev w (efexQueueWriteOnePage w.queue s.dev).2)
  else
    let bytes := read (memAt s s.trans.actRecvBuffer) 0 s.trans.recvSize
    let s := takeData w { s with log := s.log ++ [.got bytes] }
    (0, { s with csw := cswOf s.trans.lastErr, status := .status })

/-- `sunxi_efex_state_loop`. Every call starts with a new flag for lost pages, so in the states
    `status` and `exit` it is 0. -/
def stateLoop (w : World) (s : St) (timeout : Bool) : Int × St :=
  match s.status with
  | .idle =>
    (if (s.nextAction = 1 ∨ 4 < s.nextAction) ∧ s.suspend then 3 else 0,
      if s.rxReady then { s with status := .setup } else s)
  | .setup =>
    if s.req.valid then (0, { s with status := .setupNew })
    else (-1, { s with rxReady := false, status := .idle })
  | .setupNew => setupNew w s
  | .sendDataNew =>
    let bytes := read (memAt s s.trans.actSendBuffer) 0 s.trans.sendSize
    (0, if s.trans.sendSize ≠ 0 then
      { s with status := .status, rxReady := false, log := s.log ++ [.data bytes] }
    else { s with status := .status })
  | .receiveDataNew => receiveDataNew w s timeout
  | .status => (0, { s with status := .idle, rxReady := false, log := s.log ++ [.status s.csw] })
  | .exit => (s.nextAction, { s with rxReady := false, log := s.log ++ [.status s.csw] })
  | .fel => (0, s)

/-- An interrupt. -/
inductive Irq where
  | request (r : Request)
  | dma (data : Mem)
  | reset
  | suspend

/-- What an interrupt does. A request is taken when there is none. -/
def irq (s : St) : Irq → St
  | .request r => if s.rxReady then s else { s with rxReady := true, req := r }
  | .dma data =>
    { dmaStore s s.trans.actRecvBuffer s.trans.recvSize data with writeEnable := true }
  | .reset =>
    { s with
      rxReady := false
      writeEnable := false
      status := .idle
      trans := { s.trans with toBeRecvedSize := 0 } }
  | .suspend => { s with suspend := true }

/-- The interrupts before a call, and whether the call sees a timeout. -/
structure Turn where
  irqs : List Irq
  timeout : Bool

/-- Interrupts and one turn of the main loop. -/
def turn (w : World) (s : St) (t : Turn) : Unit × St :=
  if s.left ≠ none then ((), s)
  else
    match stateLoop w (t.irqs.foldl irq s) t.timeout with
    | (ret, s) =>
      ((), { s with tick := s.tick + 1, left := if ret ≠ 0 then some ret else none })

/-- The variables after `sunxi_efex_init`. -/
def St.init (b : Board) (memory : Nat → Mem) (flash : Disk) (ram : Mem) : St where
  status := .idle
  rxReady := false
  req := ⟨false, .unknown⟩
  writeEnable := false
  trans := ⟨0, .recv 0, 0, 0, .send, 0, 0, 0, 0, 0, .unset⟩
  csw := 0
  nextAction := 0
  suspend := false
  unseqCount := none
  recvBuffer := fun _ => 0
  sendBuffer := fun _ => 0
  ram := ram
  dev := ⟨bufQueueInit b memory, flash, 0⟩
  left := none
  tick := 0
  log := []

end Brandy.Efex
