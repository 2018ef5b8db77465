import Brandy.Library.Memory
import Brandy.Library.Sectors

/-!
# The Write Queue of the USB Download

A model of `buf_queue.c` and `efex_queue.c` in `drivers/sunxi_usb`. A download is cut into pages,
which wait in a circular list of nodes until there is time to write them. Pointers are node numbers,
and `next` has the links that `buf_queue_init` makes. A write that fails may have changed the flash
in any way.

## Main definitions

* `Queue`, `Dev`: The globals of the two files, and the queue with the flash.
* `bufEnqueue`, `bufDequeue`: A page is put into the queue or taken from it.
* `efexSaveBuffToQueue`, `efexQueueWriteAllPage`: The calls from outside.
-/

namespace Brandy.EfexQueue

open Memory Sectors

/-- What the initialisation depends on: the storage type, the work mode and the page size of a NAND
    flash. -/
structure Board where
  storageType : Nat
  workModeUsbDebug : Bool
  logicPageSize : Nat
  page_pos : 0 < logicPageSize
  page_dvd : 512 ∣ logicPageSize
  page_lt : logicPageSize < 2 ^ 31

/-- `buf_element_t`. -/
structure Element where
  addr : Nat
  sectorNum : Nat
  buff : Mem

/-- The globals of the two files. -/
structure Queue where
  maxLen : Nat
  pageSize : Nat
  currentLen : Nat
  head : Nat
  tail : Nat
  next : Nat → Nat
  node : Nat → Element
  element : Element

/-- The flash writes that succeed, by number, and what is left of the ones that do not. -/
structure World where
  writeOk : Nat → Bool
  torn : Nat → Disk → Disk

/-- A flash on which every write succeeds. -/
def World.good : World := ⟨fun _ => true, fun _ disk => disk⟩

/-- The queue, the flash, and the number of writes so far. -/
structure Dev where
  queue : Queue
  flash : Disk
  writes : Nat

/-- `sunxi_flash_write`, and whether it succeeds. -/
def sunxiFlashWrite (w : World) (d : Dev) (start sectors : Nat) (buf : Mem) : Bool × Dev :=
  if w.writeOk d.writes then
    (true, { d with
      flash := put d.flash start (read buf 0 (sectors * 512))
      writes := d.writes + 1 })
  else
    (false, { d with
      flash := w.torn d.writes d.flash
      writes := d.writes + 1 })

/-- `buf_queue_page_size` and `buf_queue_max_len`. -/
def queueSizes (b : Board) : Nat × Nat :=
  if b.workModeUsbDebug then (64 * 1024, 20)
  else if b.storageType = 0 then (b.logicPageSize, 80)
  else (64 * 1024, 20)

/-- The loop of `buf_queue_init` that makes `n` more nodes from number `i` on, with head and tail of
    the list so far. -/
def nodeLoop : Nat → Nat → Option (Nat × Nat) → (Nat → Nat) → Option (Nat × Nat) × (Nat → Nat)
  | 0, _, ends, next => (ends, next)
  | n + 1, i, none, next => nodeLoop n (i + 1) (some (i, i)) next
  | n + 1, i, some (head, tail), next =>
    nodeLoop n (i + 1) (some (head, i)) (Function.update next tail i)

/-- `buf_queue_init` with enough memory, and the element of `efex_queue_init`. `memory` is what the
    new pages have in them. -/
def bufQueueInit (b : Board) (memory : Nat → Mem) : Queue :=
  let (pageSize, maxLen) := queueSizes b
  match nodeLoop maxLen 0 none (fun _ => 0) with
  | (none, next) => ⟨maxLen, pageSize, 0, 0, 0, next, fun i => ⟨0, 0, memory i⟩, ⟨0, 0, memory 0⟩⟩
  | (some (head, tail), next) =>
    { maxLen := maxLen
      pageSize := pageSize
      currentLen := 0
      head := tail
      tail := tail
      next := Function.update next tail head
      node := fun i => ⟨0, 0, memory i⟩
      element := ⟨0, 0, memory maxLen⟩ }

def bufQueueFreeSize (q : Queue) : Nat := q.maxLen - q.currentLen

/-- An element copied into the memory of another one. -/
def Element.copy (dst src : Element) : Element :=
  ⟨src.addr, src.sectorNum, overlay dst.buff src.buff 0 (src.sectorNum * 512)⟩

def bufEnqueue (q : Queue) (element : Element) : Int × Queue :=
  if q.currentLen = q.maxLen then (-1, q)
  else
    let p := if q.currentLen = 0 then q.head else q.tail
    (0, { q with
      node := Function.update q.node p ((q.node p).copy element)
      tail := q.next q.tail
      currentLen := q.currentLen + 1 })

/-- `buf_dequeue` into the element of `efex_queue.c`. -/
def bufDequeue (q : Queue) : Int × Queue :=
  if q.currentLen = 0 then (-1, q)
  else
    (0, { q with
      element := q.element.copy (q.node q.head)
      head := q.next q.head
      currentLen := q.currentLen - 1 })

/-- The flash write of the element that was taken from the queue. -/
def writeElement (w : World) (d : Dev) : Bool × Dev :=
  sunxiFlashWrite w d d.queue.element.addr d.queue.element.sectorNum d.queue.element.buff

def efexQueueWriteOnePage (w : World) (d : Dev) : Int × Dev :=
  if d.queue.currentLen = 0 then (0, d)
  else
    match writeElement w { d with queue := (bufDequeue d.queue).2 } with
    | (ok, d) => (if ok then 0 else -1, d)

/-- The loop of `efex_queue_write_all_page`. There are no more turns than pages. -/
def writeAllLoop (w : World) : Nat → Dev → Int × Dev
  | 0, d => (0, d)
  | n + 1, d =>
    match bufDequeue d.queue with
    | (ret, queue) =>
      if ret ≠ 0 then (0, { d with queue := queue })
      else
        match writeElement w { d with queue := queue } with
        | (ok, d) => if ok then writeAllLoop w n d else (-1, d)

def efexQueueWriteAllPage (w : World) (d : Dev) : Int × Dev :=
  if d.queue.currentLen = 0 then (0, d) else writeAllLoop w (d.queue.currentLen + 1) d

/-- The loop of `efex_save_buff_to_queue` that makes room for `n` pages. -/
def drainLoop (w : World) : Nat → Dev → Int × Dev
  | 0, d => (0, d)
  | n + 1, d =>
    match efexQueueWriteOnePage w d with
    | (ret, d) => if ret ≠ 0 then (-1, d) else drainLoop w n d

/-- The loop of `efex_save_buff_to_queue` that cuts the buffer into pages, with the page behind the
    last full one. The sectors get fewer in every turn. -/
def saveLoop (secPerPage : Nat) (buff : Mem) : Nat → Nat → Nat → Nat → Queue → Queue
  | 0, _, _, _, q => q
  | n + 1, flashStart, flashSectors, offset, q =>
    if secPerPage < flashSectors then
      let element := ⟨flashStart, secPerPage, fun x => buff (offset * 512 + x)⟩
      saveLoop secPerPage buff n ((flashStart + secPerPage) % 2 ^ 32) (flashSectors - secPerPage)
        (offset + secPerPage) (bufEnqueue q element).2
    else if flashSectors ≠ 0 then
      (bufEnqueue q ⟨flashStart, flashSectors, fun x => buff (offset * 512 + x)⟩).2
    else q

/-- The number of pages that some sectors need, as the code computes it. -/
def requirePage (q : Queue) (flashSectors : Nat) : Nat :=
  (flashSectors + q.pageSize / 512 - 1) % 2 ^ 32 / (q.pageSize / 512)

def efexSaveBuffToQueue (w : World) (d : Dev) (flashStart flashSectors : Nat) (buff : Mem) :
    Int × Dev :=
  let require := requirePage d.queue flashSectors
  match drainLoop w (require - bufQueueFreeSize d.queue) d with
  | (ret, d) =>
    if ret ≠ 0 then (-1, d)
    else if bufQueueFreeSize d.queue < require then (-1, d)
    else
      let queue := saveLoop (d.queue.pageSize / 512) buff (flashSectors + 1) flashStart flashSectors
        0 d.queue
      (0, { d with queue := queue })

/-- One call of the queue. -/
inductive Op where
  | save (flashStart flashSectors : Nat) (buff : Mem)
  | writeOne
  | writeAll

/-- A call and its return value. -/
def opStep (w : World) (d : Dev) : Op → Int × Dev
  | .save flashStart flashSectors buff => efexSaveBuffToQueue w d flashStart flashSectors buff
  | .writeOne => efexQueueWriteOnePage w d
  | .writeAll => efexQueueWriteAllPage w d

end Brandy.EfexQueue
