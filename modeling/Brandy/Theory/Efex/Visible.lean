import Brandy.Theory.Efex.Reported
import Brandy.Theory.EfexQueue

/-!
# When Downloads Are Visible

Downloads wait in the queue, and only two commands flush it. A command that reads the flash does
not, and neither does the one that leaves the loop. So the host reads back what it has sent only
when the queue happens to be empty.

## Main definitions

* `latest`, `downloaded`: What the downloads of a log have for a sector, and for a flash.
* `Orderly`: The condition on a turn.
* `Visible`: The invariant.

## Theorems

* `turn_visible`: What one turn keeps.
* `upload_latest`: An upload in an orderly run has the latest data.
-/

namespace Brandy.Efex

open Memory Sectors EfexQueue Simulation List

/-- The sector that a command asks data for. -/
def Cmd.target : Cmd → Option Nat
  | .down addr _ type => if hasTag type dramMask then none else some addr
  | _ => none

/-- The sector that data is awaited for, and the downloads so far. -/
def seenStep (st : Option Nat × List (Nat × List UInt8)) : Event →
    Option Nat × List (Nat × List UInt8)
  | .cmd c => (c.target, st.2)
  | .got bytes =>
    match st.1 with
    | some addr => (none, st.2 ++ [(addr, bytes)])
    | none => st
  | _ => st

/-- The sector that data is awaited for, and the downloads in a log. -/
def seen (log : List Event) : Option Nat × List (Nat × List UInt8) := log.foldl seenStep (none, [])

/-- The downloads for the flash in a log. -/
def downs (log : List Event) : List (Nat × List UInt8) := (seen log).2

/-- What the downloads have for a sector: the data of the last one that covers it. -/
def latest (ds : List (Nat × List UInt8)) (s : Nat) : Option (List UInt8) :=
  ds.foldl (fun r d => if distance d.1 s * 512 < d.2.length then
    some ((d.2.drop (distance d.1 s * 512)).take 512) else r) none

/-- A flash after some downloads. -/
def downloaded (flash : Disk) (ds : List (Nat × List UInt8)) : Disk :=
  ds.foldl (fun f d => put f d.1 d.2) flash

theorem seen_append (log : List Event) (e : Event) : seen (log ++ [e]) = seenStep (seen log) e := by
  unfold seen
  rw [foldl_append, foldl_cons, foldl_nil]

theorem downloaded_eq_latest (flash : Disk) (ds : List (Nat × List UInt8)) {s : Nat}
    (hs : s < 2 ^ 32) {sector : List UInt8} (h : latest ds s = some sector) :
    downloaded flash ds s = sector := by
  -- generalised over what the downloads before have left
  have hfold : ∀ (ds : List (Nat × List UInt8)) (f : Disk) (r : Option (List UInt8)),
      (∀ x, r = some x → f s = x) → ∀ x, ds.foldl (fun r d =>
        if distance d.1 s * 512 < d.2.length then
          some ((d.2.drop (distance d.1 s * 512)).take 512) else r) r = some x →
        ds.foldl (fun f d => put f d.1 d.2) f s = x := by
    intro ds
    induction ds with
    | nil => exact fun f r hr => hr
    | cons d ds ih =>
      intro f r hr
      rw [foldl_cons, foldl_cons]
      refine ih _ _ fun x hx => ?_
      split_ifs at hx with hcover
      · rw [put_of_lt hs hcover]
        exact Option.some.inj hx
      · rw [put_of_le (Nat.not_lt.mp hcover)]
        exact hr x hx
  exact hfold ds flash none (fun x hx => nomatch hx) sector h

/-- The type of an upload from the flash. -/
def FlashUp (type : Nat) : Prop :=
  hasTag type dramMask = false ∧ hasTag type 0x8001 = false ∧ hasTag type 0x8002 = false

/-- The bytes are the ones of a disk from a sector on. -/
def BytesOf (disk : Disk) (addr len : Nat) (bytes : List UInt8) : Prop :=
  bytes.length = len ∧
    ∀ i < len, bytes.getD i 0 = (disk ((addr + i / 512) % 2 ^ 32)).getD (i % 512) 0

section

variable {w : World} {s : St}

theorem affect_dev (h : ∀ disk, w.effect s.tick disk = disk) : (s.affect w).dev = s.dev := by
  unfold St.affect
  rw [h]

/-- The command goes on with what the command before has left. -/
def Stale (w : World) : Cmd → Prop
  | .spinand _ _ _ => w.hasSpinand = true ∧ w.isNand = false
  | .nand _ _ _ => w.hasNand = true ∧ w.isNand = false
  | .queryInfo tag => tag ≠ 0x8101
  | _ => False

/-- The condition on a command. Data for the flash comes in whole sectors that fit the queue. The
    flash is read, and the loop is left, when the queue is empty. -/
def OrderlyCmd (w : World) (s : St) : Cmd → Prop
  | .down _ len type => hasTag type dramMask = false →
      type &&& dramMask = 0 ∧ 512 ∣ len ∧ len + 511 < 2 ^ 32 ∧
        len ≤ s.dev.queue.maxLen * (s.dev.queue.pageSize / 512) * 512
  | .up addr len type => FlashUp type →
      s.dev.queue.currentLen = 0 ∧ len + 511 < 2 ^ 32 ∧ ¬ (addr = 0 ∧ sectorsOf len = 0x80)
  | .toolMode mode nextMode =>
    (toolModeAction w mode nextMode).2 = .exit → s.dev.queue.currentLen = 0
  | .pmu _ type => type &&& dramMask ≠ 0
  | .unseqmemWrite _ _ type => type &&& dramMask ≠ 0
  | c => Stale w c → s.trans.appNextStatus ≠ .receiveData ∧ s.trans.appNextStatus ≠ .exit

/-- The data that is awaited is for the flash, and the transfer data says where it goes. -/
structure Awaits (s : St) (addr : Nat) : Prop where
  type : s.trans.type &&& dramMask = 0
  start : s.trans.flashStart = addr
  size : s.trans.recvSize = s.trans.flashSectors * 512
  fits : s.trans.flashSectors ≤ s.dev.queue.maxLen * (s.dev.queue.pageSize / 512)

theorem land_ne_zero_of_hasTag {type : Nat} (h : hasTag type dramMask = true) :
    type &&& dramMask ≠ 0 := by
  have heq : type &&& dramMask = dramMask := of_decide_eq_true h
  rw [heq]
  decide

variable {addr : Nat} {len type : Nat}

theorem fesUp_next : (fesUp w s addr len type).trans.appNextStatus = .sendData := by
  unfold fesUp upBoot upFlash
  dsimp only
  repeat' split
  all_goals rfl

/-- A command that asks for flash data has said where it goes, and one that leaves the loop finds
    the queue empty. -/
theorem opCmd_next {c : Cmd} (hc : OrderlyCmd w s c) :
    ((opCmd w s c).trans.appNextStatus = .receiveData →
      c.target = none ∧ (opCmd w s c).trans.type &&& dramMask ≠ 0 ∨
        ∃ addr, c.target = some addr ∧ Awaits (opCmd w s c) addr) ∧
      ((opCmd w s c).trans.appNextStatus = .exit → s.dev.queue.currentLen = 0) := by
  have hstale : s.trans.appNextStatus ≠ .receiveData ∧ s.trans.appNextStatus ≠ .exit →
      (s.trans.appNextStatus = .receiveData →
        c.target = none ∧ s.trans.type &&& dramMask ≠ 0 ∨
          ∃ addr, c.target = some addr ∧ Awaits s addr) ∧
      (s.trans.appNextStatus = .exit → s.dev.queue.currentLen = 0) :=
    fun h => ⟨fun h' => absurd h' h.1, fun h' => absurd h' h.2⟩
  cases c with
  | trans addr len dou =>
    change ((fesTrans s addr len dou).trans.appNextStatus = _ →
      _ ∧ (fesTrans s addr len dou).trans.type &&& dramMask ≠ 0 ∨ _) ∧
      ((fesTrans s addr len dou).trans.appNextStatus = _ → _)
    unfold fesTrans
    split
    · exact ⟨nofun, nofun⟩
    · split
      · exact ⟨nofun, nofun⟩
      · exact ⟨fun _ => .inl ⟨rfl, show dramMask &&& dramMask ≠ 0 by decide⟩, nofun⟩
  | down addr len type =>
    change (_ → _ ∧ (fesDown s addr len type).trans.type &&& dramMask ≠ 0 ∨
      ∃ a, _ ∧ Awaits (fesDown s addr len type) a) ∧
      ((fesDown s addr len type).trans.appNextStatus = _ → _)
    unfold fesDown
    split_ifs with htag
    · exact ⟨fun _ => .inl ⟨if_pos htag, land_ne_zero_of_hasTag htag⟩, nofun⟩
    rcases hc (Bool.not_eq_true _ ▸ htag) with ⟨hland, ⟨k, rfl⟩, hsmall, hfits⟩
    refine ⟨fun _ => .inr ⟨addr, if_neg htag, hland, rfl, ?_, ?_⟩, nofun⟩
    all_goals
      have hsectors : sectorsOf (512 * k) = k := by
        unfold sectorsOf
        omega
    · change 512 * k = sectorsOf (512 * k) * 512
      rw [hsectors, mul_comm]
    · change sectorsOf (512 * k) ≤ _
      rw [hsectors]
      rw [mul_comm 512 k] at hfits
      exact Nat.le_of_mul_le_mul_right hfits (by decide)
  | up addr len type =>
    rw [show (opCmd w s (.up addr len type)).trans.appNextStatus = .sendData from fesUp_next]
    exact ⟨nofun, nofun⟩
  | toolMode mode nextMode =>
    refine ⟨fun hnext => ?_, hc⟩
    exfalso
    change (toolModeAction w mode nextMode).2 = _ at hnext
    unfold toolModeAction at hnext
    dsimp only at hnext
    repeat' split at hnext
    all_goals cases hnext
  | pmu size type => exact ⟨fun _ => .inl ⟨rfl, hc⟩, nofun⟩
  | unseqmemWrite size count type => exact ⟨fun _ => .inl ⟨rfl, hc⟩, nofun⟩
  | unseqmemRead size type =>
    unfold opCmd
    dsimp only
    split <;> exact ⟨nofun, nofun⟩
  | spinand | nand =>
    unfold opCmd
    dsimp only
    split
    · split
      · exact ⟨nofun, nofun⟩
      · rename_i hhas hnand
        exact hstale (hc ⟨hhas, Bool.not_eq_true _ ▸ hnand⟩)
    · exact ⟨nofun, nofun⟩
  | queryInfo tag =>
    unfold opCmd
    dsimp only
    split
    · exact ⟨nofun, nofun⟩
    · exact hstale (hc ‹_›)
  | _ => exact ⟨nofun, nofun⟩

theorem opCmd_up (hread : w.readOk s.tick = true) (htype : FlashUp type) (hlen : len + 511 < 2 ^ 32)
    (htable : ¬ (addr = 0 ∧ sectorsOf len = 0x80)) :
    (opCmd w s (.up addr len type)).trans.actSendBuffer = .send ∧
      (opCmd w s (.up addr len type)).trans.sendSize = len ∧
      (opCmd w s (.up addr len type)).trans.lastErr = 0 ∧
      BytesOf s.dev.flash addr len (read (opCmd w s (.up addr len type)).sendBuffer 0 len) := by
  rcases htype with ⟨hram, hboot0, hboot1⟩
  change (fesUp w s addr len type).trans.actSendBuffer = _ ∧
    (fesUp w s addr len type).trans.sendSize = _ ∧ (fesUp w s addr len type).trans.lastErr = _ ∧
    BytesOf _ _ _ (read (fesUp w s addr len type).sendBuffer 0 len)
  unfold fesUp upFlash
  rw [hram, hboot0, hboot1]
  rw [if_neg Bool.false_ne_true, if_neg Bool.false_ne_true, if_neg Bool.false_ne_true,
    if_neg htable, if_pos hread]
  refine ⟨rfl, rfl, rfl, length_read .., fun i hi => ?_⟩
  have hsectors : len ≤ sectorsOf len * 512 := by
    unfold sectorsOf
    omega
  rw [getD_read _ _ _ _ hi, zero_add]
  dsimp only
  rw [overlay_of_mem ⟨by omega, by omega⟩]
  unfold flashBytes
  rw [Int.toNat_natCast]

theorem Awaits.congr {s' : St} (h : Awaits s addr) (htrans : s'.trans = s.trans)
    (hsize : SameSize s.dev.queue s'.dev.queue) : Awaits s' addr where
  type := by rw [htrans, h.type]
  start := by rw [htrans, h.start]
  size := by rw [htrans, h.size]
  fits := by
    rw [htrans, hsize.maxLen, hsize.pageSize]
    exact h.fits

/-- The invariant. `flash` is the flash in the beginning. -/
structure Visible (flash : Disk) (s : St) : Prop where
  ring : Ring s.dev.queue
  content : flushed s.dev = downloaded flash (downs s.log)
  recvBuffer : s.trans.actRecvBuffer ≠ .send
  receive : s.status = .receiveDataNew →
    (seen s.log).1 = none ∧ s.trans.type &&& dramMask ≠ 0 ∨
      ∃ addr, (seen s.log).1 = some addr ∧ Awaits s addr
  exit : s.status = .exit → s.dev.queue.currentLen = 0

variable {flash : Disk}

theorem Visible.congr {s' : St} (h : Visible flash s) (hdev : s'.dev = s.dev)
    (hlog : s'.log = s.log) (htrans : s'.trans = s.trans) (hstatus : s'.status = s.status) :
    Visible flash s' := by
  rcases h with ⟨hring, hcontent, hrecv, hreceive, hexit⟩
  rw [← hdev] at hring hcontent hexit
  rw [← hlog] at hcontent hreceive
  rw [← htrans] at hrecv hreceive
  rw [← hstatus] at hreceive hexit
  refine ⟨hring, hcontent, hrecv, fun hst => (hreceive hst).imp_right ?_, hexit⟩
  rintro ⟨addr, hseen, hawaits⟩
  exact ⟨addr, hseen, hawaits.congr htrans (hdev ▸ .refl _)⟩

theorem visible_of_status (hring : Ring s.dev.queue)
    (hcontent : flushed s.dev = downloaded flash (downs s.log))
    (hrecv : s.trans.actRecvBuffer ≠ .send)
    (hstatus : ¬ (s.status = .receiveDataNew ∨ s.status = .exit)) : Visible flash s :=
  ⟨hring, hcontent, hrecv, fun hst => absurd (.inl hst) hstatus,
    fun hst => absurd (.inr hst) hstatus⟩

theorem dmaStore_same (s : St) {n : Nat} {data : Mem} {loc : Loc} (hloc : loc ≠ .send) :
    (dmaStore s loc n data).dev = s.dev ∧ (dmaStore s loc n data).log = s.log ∧
      (dmaStore s loc n data).trans = s.trans ∧ (dmaStore s loc n data).status = s.status ∧
      (dmaStore s loc n data).sendBuffer = s.sendBuffer := by
  cases loc with
  | send => exact absurd rfl hloc
  | recv offset => exact ⟨rfl, rfl, rfl, rfl, rfl⟩
  | ram offset => exact ⟨rfl, rfl, rfl, rfl, rfl⟩

theorem irq_visible (h : Visible flash s) (i : Irq) : Visible flash (irq s i) := by
  cases i with
  | request r =>
    unfold irq
    dsimp only
    split
    · exact h
    · exact h.congr rfl rfl rfl rfl
  | dma data =>
    rcases dmaStore_same s h.recvBuffer with
      ⟨hdev, hlog, htrans, hstatus, -⟩
    exact h.congr hdev hlog htrans hstatus
  | reset =>
    exact visible_of_status h.ring h.content h.recvBuffer nofun
  | suspend => exact h.congr rfl rfl rfl rfl

theorem irqs_visible (is : List Irq) : ∀ {s : St}, Visible flash s →
    Visible flash (is.foldl irq s) := by
  induction is with
  | nil => exact fun h => h
  | cons i is ih => exact fun h => ih (irq_visible h i)

theorem irqs_send {is : List Irq} {s : St} (hrecv : s.trans.actRecvBuffer ≠ .send)
    (hreset : ∀ i ∈ is, i.isReset = false) :
    (is.foldl irq s).trans = s.trans ∧ (is.foldl irq s).sendBuffer = s.sendBuffer := by
  induction is generalizing s with
  | nil => exact ⟨rfl, rfl⟩
  | cons i is ih =>
    have hone : (irq s i).trans = s.trans ∧ (irq s i).sendBuffer = s.sendBuffer := by
      cases i with
      | request r =>
        unfold irq
        dsimp only
        split <;> exact ⟨rfl, rfl⟩
      | dma data =>
        rcases dmaStore_same s hrecv with
          ⟨-, -, htrans, -, hsend⟩
        exact ⟨htrans, hsend⟩
      | reset => exact Bool.noConfusion (hreset .reset mem_cons_self)
      | suspend => exact ⟨rfl, rfl⟩
    rcases ih (s := irq s i) (by rw [hone.1]; exact hrecv)
      fun j hj => hreset j (mem_cons_of_mem _ hj) with ⟨htrans, hsend⟩
    exact ⟨htrans.trans hone.1, hsend.trans hone.2⟩

theorem downs_append {log : List Event} (e : Event) (he : ∀ bytes, e ≠ .got bytes) :
    downs (log ++ [e]) = downs log := by
  unfold downs
  rw [seen_append]
  cases e with
  | got bytes => exact absurd rfl (he bytes)
  | _ => rfl

/-- The state in which the command is carried out: the queue may have been flushed. -/
def beforeCmd (w : World) (s : St) : St :=
  let s := { s with log := s.log ++ [Event.cmd s.req.cmd] }
  if s.req.cmd.flushes then s.setDev w (efexQueueWriteAllPage w.queue s.dev).2 else s

theorem setupNew_eq : setupNew w s =
    afterCmd { opCmd w (beforeCmd w s) s.req.cmd with
      csw := cswOf (opCmd w (beforeCmd w s) s.req.cmd).trans.lastErr } := by
  have hreq : (beforeCmd w s).req = s.req := by
    unfold beforeCmd
    dsimp only
    split <;> rfl
  change afterCmd { opCmd w (beforeCmd w s) (beforeCmd w s).req.cmd with
    csw := cswOf (opCmd w (beforeCmd w s) (beforeCmd w s).req.cmd).trans.lastErr } = _
  rw [hreq]

theorem takeData_ram (heffect : ∀ disk, w.effect s.tick disk = disk)
    (htype : s.trans.type &&& dramMask ≠ 0) :
    (takeData w s).dev = s.dev ∧ (takeData w s).log = s.log ∧
      (takeData w s).trans.actRecvBuffer = s.trans.actRecvBuffer := by
  unfold takeData
  rw [if_pos htype]
  split
  · unfold dramDataRecvFinish
    split
    · exact ⟨affect_dev heffect, rfl, rfl⟩
    · split <;> exact ⟨rfl, rfl, rfl⟩
  · exact ⟨rfl, rfl, rfl⟩

/-- A turn is orderly when its command is, and when the functions of the sprite leave the flash
    alone. -/
structure Orderly (w : World) (s : St) (t : Turn) : Prop where
  cmd : (atCall s t).status = .setupNew → OrderlyCmd w (atCall s t) (atCall s t).req.cmd
  effect : ∀ disk, w.effect (atCall s t).tick disk = disk

section

variable (hok : ∀ n, w.queue.writeOk n = true)
include hok

theorem beforeCmd_spec (h : Visible flash s) (hc : OrderlyCmd w s s.req.cmd) :
    Ring (beforeCmd w s).dev.queue ∧
      flushed (beforeCmd w s).dev = downloaded flash (downs s.log) ∧
      (beforeCmd w s).log = s.log ++ [.cmd s.req.cmd] ∧ (beforeCmd w s).trans = s.trans ∧
      (beforeCmd w s).tick = s.tick ∧ OrderlyCmd w (beforeCmd w s) s.req.cmd := by
  unfold beforeCmd
  dsimp only
  split_ifs with hflush
  · rcases writeAll_spec hok h.ring with ⟨⟨hret, hring, -, hflushed⟩, -⟩
    refine ⟨hring, hflushed.trans h.content, ?_, rfl, rfl, ?_⟩
    · unfold St.setDev
      rw [lostEvents_clean (writeAll_clean hret), append_nil]
    · cases hcmd : s.req.cmd with
      | verifyValue => exact fun hstale => absurd hstale id
      | flashSetOff => exact fun hstale => absurd hstale id
      | _ =>
        rw [hcmd] at hflush
        cases hflush
  · exact ⟨h.ring, h.content, rfl, rfl, rfl, hc⟩

theorem setupNew_visible (heffect : ∀ disk, w.effect s.tick disk = disk) (h : Visible flash s)
    (hc : OrderlyCmd w s s.req.cmd) : Visible flash (setupNew w s).2 := by
  rcases beforeCmd_spec hok h hc with ⟨hring, hcontent, hlog, htrans, htick, hc'⟩
  rw [setupNew_eq]
  generalize beforeCmd w s = s1 at *
  have hhandled := opCmd_handled w s1 s.req.cmd
  have hdev : (opCmd w s1 s.req.cmd).dev = s1.dev := hhandled.dev (by rw [htick]; exact heffect)
  have hlog' : (opCmd w s1 s.req.cmd).log = s.log ++ [.cmd s.req.cmd] := hhandled.log.trans hlog
  have hseen : (seen (opCmd w s1 s.req.cmd).log).1 = s.req.cmd.target := by
    rw [hlog', seen_append]
    rfl
  have hrecv : (opCmd w s1 s.req.cmd).trans.actRecvBuffer ≠ .send := by
    rcases hhandled.recvBuffer with hsame | hnew
    · rw [hsame, htrans]
      exact h.recvBuffer
    · exact hnew
  rcases opCmd_next hc' with ⟨hreceive, hexit⟩
  have hring' : Ring (opCmd w s1 s.req.cmd).dev.queue := by rwa [hdev]
  have hcontent' : flushed (opCmd w s1 s.req.cmd).dev =
      downloaded flash (downs (opCmd w s1 s.req.cmd).log) := by
    rw [hdev, hlog', downs_append (.cmd _) nofun]
    exact hcontent
  rw [← hdev] at hexit
  generalize opCmd w s1 s.req.cmd = s2 at *
  unfold afterCmd
  split
  · exact visible_of_status hring' hcontent' hrecv nofun
  cases hnext : s2.trans.appNextStatus with
  | unset => exact visible_of_status hring' hcontent' hrecv nofun
  | sendData => exact visible_of_status hring' hcontent' hrecv nofun
  | status => exact visible_of_status hring' hcontent' hrecv nofun
  | exit =>
    exact ⟨hring', hcontent', hrecv, nofun, fun _ => hexit hnext⟩
  | receiveData =>
    refine ⟨hring', hcontent', hrecv, fun _ => ?_, nofun⟩
    rw [hseen]
    rcases hreceive hnext with hram | ⟨addr, htarget, hawaits⟩
    · exact .inl hram
    · exact .inr ⟨addr, htarget, hawaits.congr rfl (.refl _)⟩

theorem takeData_flash (hring : Ring s.dev.queue) (h : Awaits s addr) :
    Ring (takeData w s).dev.queue ∧ (takeData w s).log = s.log ∧
      (takeData w s).trans = s.trans ∧
      flushed (takeData w s).dev =
        put (flushed s.dev) addr (read (memAt s s.trans.actRecvBuffer) 0 s.trans.recvSize) := by
  rcases save_spec hok hring h.fits with
    ⟨hret, hring', -, hflushed⟩
  have hclean := save_clean hret
  unfold takeData
  rw [if_neg (not_not.mpr h.type)]
  dsimp only
  generalize efexSaveBuffToQueue w.queue s.dev s.trans.flashStart s.trans.flashSectors
    (memAt s s.trans.actRecvBuffer) = r at *
  rw [if_neg (not_not.mpr hret)]
  refine ⟨hring', ?_, rfl, ?_⟩
  · unfold St.setDev
    rw [lostEvents_clean hclean, append_nil]
  · rw [h.size, ← h.start]
    exact hflushed

theorem receiveDataNew_visible {timeout : Bool} (heffect : ∀ disk, w.effect s.tick disk = disk)
    (h : Visible flash s) (hstatus : s.status = .receiveDataNew) :
    Visible flash (receiveDataNew w s timeout).2 := by
  unfold receiveDataNew
  split_ifs
  · exact visible_of_status h.ring h.content h.recvBuffer nofun
  · -- one page is written while the device waits
    rcases writeOne_spec hok h.ring with ⟨⟨hret, hring, hsize, hflushed⟩, -⟩
    have hlog : (s.setDev w (efexQueueWriteOnePage w.queue s.dev).2).log = s.log := by
      unfold St.setDev
      rw [lostEvents_clean (writeOne_clean hret), append_nil]
    refine ⟨hring, ?_, h.recvBuffer, fun _ => ?_, fun hst => ?_⟩
    · rw [hlog]
      exact hflushed.trans h.content
    · rw [hlog]
      rcases h.receive hstatus with hram | ⟨addr, hseen, hawaits⟩
      · exact .inl hram
      · exact .inr ⟨addr, hseen, hawaits.congr rfl hsize⟩
    · exact absurd (hstatus.symm.trans hst) Status.noConfusion
  · let s' : St := { s with log := s.log ++
      [.got (read (memAt s s.trans.actRecvBuffer) 0 s.trans.recvSize)] }
    rcases h.receive hstatus with ⟨hnone, htype⟩ | ⟨addr, hseen, hawaits⟩
    · rcases takeData_ram (s := s') heffect htype with ⟨hdev, hlog, hrecv⟩
      refine visible_of_status ?_ ?_ ?_ nofun
      · dsimp only
        rw [hdev]
        exact h.ring
      · dsimp only
        rw [hdev, hlog]
        unfold downs
        rw [seen_append]
        unfold seenStep
        rw [hnone]
        exact h.content
      · dsimp only
        rw [hrecv]
        exact h.recvBuffer
    · rcases takeData_flash (s := s') hok h.ring (hawaits.congr rfl (.refl _)) with
        ⟨hring, hlog, htrans, hflushed⟩
      refine visible_of_status hring ?_ ?_ nofun
      · dsimp only
        rw [hflushed, hlog]
        unfold downs
        rw [seen_append]
        unfold seenStep
        rw [hseen]
        unfold downloaded
        rw [foldl_append, foldl_cons, foldl_nil]
        exact congrArg (fun f => put f addr _) h.content
      · dsimp only
        rw [htrans]
        exact h.recvBuffer

theorem stateLoop_visible {timeout : Bool} (hc : s.status = .setupNew → OrderlyCmd w s s.req.cmd)
    (heffect : ∀ disk, w.effect s.tick disk = disk) (h : Visible flash s) :
    Visible flash (stateLoop w s timeout).2 := by
  unfold stateLoop
  cases hstatus : s.status with
  | idle =>
    dsimp only
    split
    · exact visible_of_status h.ring h.content h.recvBuffer nofun
    · exact h
  | setup =>
    dsimp only
    split <;>
    exact visible_of_status h.ring h.content h.recvBuffer nofun
  | setupNew => exact setupNew_visible hok heffect h (hc hstatus)
  | sendDataNew =>
    dsimp only
    split
    · refine visible_of_status h.ring ?_ h.recvBuffer nofun
      rw [downs_append (.data _) nofun]
      exact h.content
    · exact visible_of_status h.ring h.content h.recvBuffer nofun
  | receiveDataNew => exact receiveDataNew_visible hok heffect h hstatus
  | status =>
    refine visible_of_status h.ring ?_ h.recvBuffer nofun
    rw [downs_append (.status _) nofun]
    exact h.content
  | exit =>
    refine ⟨h.ring, ?_, h.recvBuffer, fun hst => ?_, fun _ => h.exit hstatus⟩
    · dsimp only
      rw [downs_append (.status _) nofun]
      exact h.content
    · exact Status.noConfusion hst
  | fel => exact h

theorem turn_visible {t : Turn} (ht : Orderly w s t) (h : Visible flash s) :
    Visible flash (turn w s t).2 := by
  by_cases hleft : s.left = none
  · rw [turn_eq hleft]
    exact (stateLoop_visible hok ht.cmd ht.effect (irqs_visible t.irqs h)).congr rfl rfl rfl rfl
  · rw [turn_of_left hleft]
    exact h

end

theorem setupNew_up (hcmd : s.req.cmd = .up addr len type) (hread : w.readOk s.tick = true)
    (htype : FlashUp type) (hlen : len + 511 < 2 ^ 32)
    (htable : ¬ (addr = 0 ∧ sectorsOf len = 0x80)) :
    (setupNew w s).1 = 0 ∧ (setupNew w s).2.status = .sendDataNew ∧
      (setupNew w s).2.log = s.log ++ [.cmd (.up addr len type)] ∧
      (setupNew w s).2.trans.actSendBuffer = .send ∧ (setupNew w s).2.trans.sendSize = len ∧
      BytesOf s.dev.flash addr len (read (setupNew w s).2.sendBuffer 0 len) := by
  have hbefore : beforeCmd w s = { s with log := s.log ++ [.cmd (.up addr len type)] } := by
    unfold beforeCmd
    dsimp only
    rw [hcmd]
    exact if_neg Bool.false_ne_true
  rw [setupNew_eq, hcmd, hbefore]
  have hkept := opCmd_handled w { s with log := s.log ++ [.cmd (.up addr len type)] }
    (.up addr len type)
  rcases opCmd_up (w := w) (s := { s with log := s.log ++ [.cmd (.up addr len type)] }) hread htype
    hlen htable with ⟨hloc, hsize, herr, hbytes⟩
  have hnext : (opCmd w { s with log := s.log ++ [.cmd (.up addr len type)] }
    (.up addr len type)).trans.appNextStatus = .sendData := fesUp_next
  generalize opCmd w { s with log := s.log ++ [.cmd (.up addr len type)] } (.up addr len type) = s2
    at *
  unfold afterCmd
  rw [herr, if_neg (show ¬ cswOf 0 ≠ 0 by decide), hnext]
  exact ⟨rfl, rfl, hkept.log, hloc, hsize, hbytes⟩

theorem turn_send {t : Turn} {len : Nat} (hleft : s.left = none) (hstatus : s.status = .sendDataNew)
    (hrecv : s.trans.actRecvBuffer ≠ .send) (hloc : s.trans.actSendBuffer = .send)
    (hsize : s.trans.sendSize = len) (hlen : len ≠ 0) (hreset : ∀ i ∈ t.irqs, i.isReset = false) :
    (turn w s t).2.log = s.log ++ [.data (read s.sendBuffer 0 len)] := by
  have hkept : Kept s (atCall s t) := irqs_kept t.irqs s
  have hstatus' : (atCall s t).status = .sendDataNew := (irqs_status s hreset).trans hstatus
  rcases irqs_send hrecv hreset with ⟨htrans, hbuffer⟩
  have hmem : memAt (atCall s t) (atCall s t).trans.actSendBuffer = s.sendBuffer := by
    rw [show (atCall s t).trans = s.trans from htrans, hloc]
    exact hbuffer
  rw [turn_eq hleft]
  unfold stateLoop
  rw [hstatus']
  dsimp only
  rw [hmem, show (atCall s t).trans = s.trans from htrans, hsize, if_pos hlen]
  rw [hkept.log]

/-- The turn that carries out an upload, and the next one, which sends the data. -/
theorem Visible.upload {t t' : Turn} (h : Visible flash s) (hok : ∀ n, w.queue.writeOk n = true)
    (hread : ∀ n, w.readOk n = true) (hleft : s.left = none) (ht : Orderly w s t)
    (hstatus : (atCall s t).status = .setupNew) (hcmd : (atCall s t).req.cmd = .up addr len type)
    (htype : FlashUp type) (hlen : len ≠ 0) (hreset : ∀ i ∈ t'.irqs, i.isReset = false) :
    ∃ bytes, (turn w (turn w s t).2 t').2.log = s.log ++ [.cmd (.up addr len type), .data bytes] ∧
      BytesOf (downloaded flash (downs s.log)) addr len bytes := by
  have hvisible : Visible flash (atCall s t) := irqs_visible t.irqs h
  have hkept : Kept s (atCall s t) := irqs_kept t.irqs s
  have horderly := ht.cmd hstatus
  rw [hcmd] at horderly
  rcases horderly htype with ⟨hempty, hsmall, htable⟩
  rcases setupNew_up hcmd (hread _) htype hsmall htable with
    ⟨hret, hnext, hlog, hloc, hsize, hbytes⟩
  have hloop : stateLoop w (atCall s t) t.timeout = setupNew w (atCall s t) := by
    unfold stateLoop
    rw [hstatus]
  have hrecv := (turn_visible hok ht h).recvBuffer
  have hturn := turn_eq (w := w) (t := t) hleft
  rw [hloop, if_neg (not_not.mpr hret)] at hturn
  rw [hturn] at hrecv ⊢
  refine ⟨read (setupNew w (atCall s t)).2.sendBuffer 0 len,
    Eq.trans (turn_send rfl hnext hrecv hloc hsize hlen hreset) ?_, ?_⟩
  · rw [← hkept.log]
    exact (congrArg (· ++ _) hlog).trans (append_assoc _ _ _)
  · rwa [← hkept.log, ← hvisible.content, flushed_of_empty hempty]

end

theorem init_visible (b : Board) (memory : Nat → Mem) (flash : Disk) (ram : Mem) :
    Visible flash (.init b memory flash ram) := by
  rcases bufQueueInit_ring b with ⟨hring, hempty⟩
  refine visible_of_status hring ?_ Loc.noConfusion nofun
  exact flushed_of_empty (d := ⟨bufQueueInit b memory, flash, 0⟩) hempty

/-- The state after some turns. -/
def reached (w : World) (b : Board) (memory : Nat → Mem) (flash : Disk) (ram : Mem)
    (turns : List Turn) : St :=
  after (turn w) (.init b memory flash ram) turns

/-- In a run of orderly turns in which all flash operations succeed, an upload from the flash has
    for every sector the data of the last download before. -/
theorem upload_latest (b : Board) (memory : Nat → Mem) (flash : Disk) (ram : Mem) (w : World)
    (turns : List Turn) (hok : ∀ n, w.queue.writeOk n = true) (hread : ∀ n, w.readOk n = true)
    (hrun : Along (turn w) (Orderly w) (.init b memory flash ram) turns) :
    (∀ t t' addr len type, (reached w b memory flash ram turns).left = none →
      Orderly w (reached w b memory flash ram turns) t →
      (atCall (reached w b memory flash ram turns) t).status = .setupNew →
      (atCall (reached w b memory flash ram turns) t).req.cmd = .up addr len type →
      FlashUp type → len ≠ 0 → (∀ i ∈ t'.irqs, i.isReset = false) →
      ∃ bytes, (turn w (turn w (reached w b memory flash ram turns) t).2 t').2.log =
          (reached w b memory flash ram turns).log ++ [.cmd (.up addr len type), .data bytes] ∧
        bytes.length = len ∧ ∀ i < len, ∀ sector,
          latest (downs (reached w b memory flash ram turns).log) ((addr + i / 512) % 2 ^ 32) =
            some sector → bytes.getD i 0 = sector.getD (i % 512) 0) ∧
    ((reached w b memory flash ram turns).status = .exit →
      pages (reached w b memory flash ram turns).dev.queue = []) := by
  have hvisible : Visible flash (reached w b memory flash ram turns) :=
    after_of_step (I := fun _ s => Visible flash s) (Q := fun _ => True)
      (fun _ s t h ht _ => turn_visible hok ht h) [] _ (init_visible b memory flash ram) hrun
      fun _ _ => trivial
  generalize reached w b memory flash ram turns = s at hvisible ⊢
  refine ⟨fun t t' addr len type hleft ht hstatus hcmd htype hlen hreset => ?_, fun hexit =>
    pages_eq_nil (hvisible.exit hexit)⟩
  rcases hvisible.upload hok hread hleft ht hstatus hcmd htype hlen hreset with
    ⟨bytes, hlog, hlength, hbytes⟩
  refine ⟨bytes, hlog, hlength, fun i hi sector hsector => ?_⟩
  rw [hbytes i hi, downloaded_eq_latest flash _ (Nat.mod_lt _ (by decide)) hsector]

theorem orderly_of_cmd {writeOk : Nat → Bool} {s : St} {t : Turn} {c : Cmd}
    (hcmd : (atCall s t).req.cmd = c) (h : OrderlyCmd (nandWorld writeOk) (atCall s t) c) :
    Orderly (nandWorld writeOk) s t :=
  ⟨fun _ => by rw [hcmd]; exact h, fun _ => rfl⟩

theorem orderly_of_status {writeOk : Nat → Bool} {s : St} {t : Turn}
    (h : (atCall s t).status ≠ .setupNew := by decide +kernel) : Orderly (nandWorld writeOk) s t :=
  ⟨fun hst => absurd hst h, fun _ => rfl⟩

/-- A download of one sector, and a `FEX_CMD_fes_verify_value`. The upload has come in. -/
def flushedTurns : List Turn :=
  command (.down 0 512 0) ++ [dataCame, noIrq] ++ command .verifyValue ++ [noIrq, noIrq] ++
    (command (.up 0 512 0)).take 2

/-- After the queue has been flushed the upload has the data. -/
theorem upload_latest_flushed : ∃ bytes,
    (turn (nandWorld fun _ => true) (turn (nandWorld fun _ => true)
      (reached (nandWorld fun _ => true) smallPages (fun _ _ => 0) (fun _ => []) (fun _ => 0)
        flushedTurns) noIrq).2 noIrq).2.log =
      (reached (nandWorld fun _ => true) smallPages (fun _ _ => 0) (fun _ => []) (fun _ => 0)
        flushedTurns).log ++ [.cmd (.up 0 512 0), .data bytes] ∧
      ∀ i < 512, bytes.getD i 0 = 1 := by
  have hrun : Along (turn (nandWorld fun _ => true)) (Orderly (nandWorld fun _ => true))
      fresh flushedTurns :=
    ⟨orderly_of_status, orderly_of_status,
      orderly_of_cmd (c := .down 0 512 0) (by decide +kernel)
        fun _ => ⟨by decide, by decide, by decide, by decide +kernel⟩,
      orderly_of_status, orderly_of_status, orderly_of_status, orderly_of_status,
      orderly_of_cmd (c := .verifyValue) (by decide +kernel) fun h => h.elim,
      orderly_of_status, orderly_of_status, orderly_of_status, orderly_of_status, trivial⟩
  rcases (upload_latest smallPages (fun _ _ => 0) (fun _ => []) (fun _ => 0)
    (nandWorld fun _ => true) flushedTurns (fun _ => rfl) (fun _ => rfl) hrun).1 noIrq noIrq 0 512 0
    (by decide +kernel)
    (orderly_of_cmd (c := .up 0 512 0) (by decide +kernel)
      fun _ => ⟨by decide +kernel, by decide, by decide⟩)
    (by decide +kernel) (by decide +kernel) ⟨by decide, by decide, by decide⟩ (by decide)
    (fun i hi => absurd hi not_mem_nil) with ⟨bytes, hlog, -, hbytes⟩
  refine ⟨bytes, hlog, fun i hi => ?_⟩
  have hsector : latest (downs (reached (nandWorld fun _ => true) smallPages (fun _ _ => 0)
      (fun _ => []) (fun _ => 0) flushedTurns).log) ((0 + i / 512) % 2 ^ 32) =
      some (read (fun _ => 1) 0 512) := by
    rw [Nat.div_eq_of_lt hi]
    decide +kernel
  rw [hbytes i hi _ hsector, Nat.mod_eq_of_lt hi, getD_read _ _ _ _ hi]

/-- A download of one sector, and an upload of the same sector right after it. -/
def staleTurns : List Turn :=
  command (.down 0 512 0) ++ [dataCame, noIrq] ++ command (.up 0 512 0) ++ [noIrq]

/-- A download of one sector, and the command that leaves the loop. -/
def exitTurns : List Turn :=
  command (.down 0 512 0) ++ [dataCame, noIrq] ++ command (.toolMode 8 0) ++ [noIrq]

/-- All flash operations succeed. The upload has the old content, and the loop is left while the
    download still waits. -/
theorem upload_stale :
    (reached (nandWorld fun _ => true) smallPages (fun _ _ => 0) (fun _ => []) (fun _ => 0)
      staleTurns).log =
      [.cmd (.down 0 512 0), .got (read (fun _ => 1) 0 512), .status 0, .cmd (.up 0 512 0),
        .data (read (fun _ => 0) 0 512)] ∧
      (reached (nandWorld fun _ => true) smallPages (fun _ _ => 0) (fun _ => []) (fun _ => 0)
        exitTurns).status = .exit ∧
      (reached (nandWorld fun _ => true) smallPages (fun _ _ => 0) (fun _ => []) (fun _ => 0)
        exitTurns).left = some 2 ∧
      (pages (reached (nandWorld fun _ => true) smallPages (fun _ _ => 0) (fun _ => [])
        (fun _ => 0) exitTurns).dev.queue).length = 1 := by
  refine ⟨by decide +kernel, by decide +kernel, by decide +kernel, by decide +kernel⟩

end Brandy.Efex
