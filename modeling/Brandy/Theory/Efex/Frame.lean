import Brandy.Core.Efex
import Brandy.Library.Simulation

/-!
# What a Turn Leaves Alone

The parts of the state that interrupts and commands do not touch, and the writes of the queue behind
a return value of 0.

## Main definitions

* `Clean`: All flash writes between two states of the queue have succeeded.
* `Kept`, `Handled`: What an interrupt and a command leave alone.

## Theorems

* `irqs_kept`, `opCmd_handled`: Interrupts and commands.
* `save_clean`: A buffer that is saved with the result 0.
-/

namespace Brandy.Efex

open Memory Sectors EfexQueue

/-- All flash writes between two states of the queue have succeeded. -/
structure Clean (w : EfexQueue.World) (d d' : Dev) : Prop where
  le : d.writes ≤ d'.writes
  ok : ∀ n, d.writes ≤ n → n < d'.writes → w.writeOk n = true

theorem Clean.refl (w : EfexQueue.World) (d : Dev) : Clean w d d :=
  ⟨le_rfl, fun _ hle hlt => absurd hlt (Nat.not_lt.mpr hle)⟩

theorem Clean.trans {w : EfexQueue.World} {d d' d'' : Dev} (h : Clean w d d')
    (h' : Clean w d' d'') : Clean w d d'' := by
  refine ⟨h.le.trans h'.le, fun n hle hlt => ?_⟩
  by_cases hmid : n < d'.writes
  · exact h.ok n hle hmid
  · exact h'.ok n (Nat.not_lt.mp hmid) hlt

variable {w : World}

theorem lostEvents_clean {d d' : Dev} (h : Clean w.queue d d') : lostEvents w d d' = [] := by
  unfold lostEvents
  rw [List.map_eq_nil_iff, List.filter_eq_nil_iff]
  intro n hn
  rw [List.mem_range'_1] at hn
  rw [h.ok n hn.1 (by omega)]
  decide

theorem mem_lostEvents {d d' : Dev} {e : Event} (h : e ∈ lostEvents w d d') : e = .lost := by
  rcases List.mem_map.mp h with ⟨n, -, hn⟩
  exact hn.symm

section

variable {w : EfexQueue.World} {d : Dev}

theorem writeElement_clean {q : Queue} (h : (writeElement w { d with queue := q }).1 = true) :
    Clean w d (writeElement w { d with queue := q }).2 := by
  unfold writeElement sunxiFlashWrite at h ⊢
  split_ifs at h ⊢ with hok
  refine ⟨Nat.le_succ _, fun n hle hlt => ?_⟩
  dsimp only at hlt
  rw [show n = d.writes by omega, hok]

theorem writeOne_clean (h : (efexQueueWriteOnePage w d).1 = 0) :
    Clean w d (efexQueueWriteOnePage w d).2 := by
  unfold efexQueueWriteOnePage at h ⊢
  dsimp only at h ⊢
  split_ifs at h ⊢ with _ hwrite
  · exact .refl w d
  · exact writeElement_clean hwrite
  · cases h

theorem writeAllLoop_clean (n : Nat) (h : (writeAllLoop w n d).1 = 0) :
    Clean w d (writeAllLoop w n d).2 := by
  induction n generalizing d with
  | zero => exact .refl w _
  | succ n ih =>
    unfold writeAllLoop at h ⊢
    dsimp only at h ⊢
    split_ifs at h ⊢ with _ hwrite
    · exact ⟨le_rfl, fun _ hle hlt => absurd hlt (Nat.not_lt.mpr hle)⟩
    · exact (writeElement_clean hwrite).trans (ih h)
    · cases h

theorem writeAll_clean (h : (efexQueueWriteAllPage w d).1 = 0) :
    Clean w d (efexQueueWriteAllPage w d).2 := by
  unfold efexQueueWriteAllPage at h ⊢
  split_ifs at h ⊢
  · exact .refl w d
  · exact writeAllLoop_clean _ h

theorem drainLoop_clean (n : Nat) (h : (drainLoop w n d).1 = 0) :
    Clean w d (drainLoop w n d).2 := by
  induction n generalizing d with
  | zero => exact .refl w _
  | succ n ih =>
    unfold drainLoop at h ⊢
    dsimp only at h ⊢
    split_ifs at h ⊢ with hret
    · cases h
    · exact (writeOne_clean (not_not.mp hret)).trans (ih h)

theorem save_clean {start sectors : Nat} {buff : Mem}
    (h : (efexSaveBuffToQueue w d start sectors buff).1 = 0) :
    Clean w d (efexSaveBuffToQueue w d start sectors buff).2 := by
  unfold efexSaveBuffToQueue at h ⊢
  dsimp only at h ⊢
  have hdrain := drainLoop_clean (w := w) (requirePage d.queue sectors - bufQueueFreeSize d.queue)
    (d := d)
  generalize drainLoop w (requirePage d.queue sectors - bufQueueFreeSize d.queue) d = r
    at h hdrain ⊢
  split_ifs at h ⊢ with hret
  · cases h
  · cases h
  · have hclean := hdrain (not_not.mp hret)
    exact ⟨hclean.le, hclean.ok⟩

end

/-- What an interrupt or a command leaves alone, the flash apart. -/
structure Kept (s s' : St) : Prop where
  csw : s'.csw = s.csw
  queue : s'.dev.queue = s.dev.queue
  writes : s'.dev.writes = s.dev.writes
  left : s'.left = s.left
  tick : s'.tick = s.tick
  log : s'.log = s.log

variable (s : St)

theorem Kept.refl : Kept s s := ⟨rfl, rfl, rfl, rfl, rfl, rfl⟩

theorem Kept.trans {s s' s'' : St} (h : Kept s s') (h' : Kept s' s'') : Kept s s'' where
  csw := h'.csw.trans h.csw
  queue := h'.queue.trans h.queue
  writes := h'.writes.trans h.writes
  left := h'.left.trans h.left
  tick := h'.tick.trans h.tick
  log := h'.log.trans h.log

theorem dmaStore_kept (loc : Loc) (n : Nat) (data : Mem) :
    Kept s (dmaStore s loc n data) := by
  cases loc with
  | recv offset => exact ⟨rfl, rfl, rfl, rfl, rfl, rfl⟩
  | send => exact ⟨rfl, rfl, rfl, rfl, rfl, rfl⟩
  | ram addr => exact ⟨rfl, rfl, rfl, rfl, rfl, rfl⟩

theorem dmaStore_status (loc : Loc) (n : Nat) (data : Mem) :
    (dmaStore s loc n data).status = s.status := by
  cases loc with
  | recv offset => rfl
  | send => rfl
  | ram addr => rfl

theorem irq_kept (i : Irq) : Kept s (irq s i) := by
  cases i with
  | request r =>
    unfold irq
    dsimp only
    split
    · exact .refl s
    · exact ⟨rfl, rfl, rfl, rfl, rfl, rfl⟩
  | dma data =>
    have h := dmaStore_kept s s.trans.actRecvBuffer s.trans.recvSize data
    exact ⟨h.csw, h.queue, h.writes, h.left, h.tick, h.log⟩
  | reset => exact ⟨rfl, rfl, rfl, rfl, rfl, rfl⟩
  | suspend => exact ⟨rfl, rfl, rfl, rfl, rfl, rfl⟩

theorem irqs_kept (is : List Irq) : ∀ s : St, Kept s (is.foldl irq s) := by
  induction is with
  | nil => exact fun s => .refl s
  | cons i is ih => exact fun s => (irq_kept s i).trans (ih (irq s i))

/-- The interrupt is a reset of the bus. -/
def Irq.isReset : Irq → Bool
  | .reset => true
  | _ => false

theorem irqs_status {is : List Irq} (h : ∀ i ∈ is, i.isReset = false) :
    (is.foldl irq s).status = s.status := by
  induction is generalizing s with
  | nil => rfl
  | cons i is ih =>
    have hrest := ih (irq s i) fun j hj => h j (List.mem_cons_of_mem _ hj)
    rw [List.foldl_cons, hrest]
    cases i with
    | request r =>
      unfold irq
      dsimp only
      split <;> rfl
    | dma data => exact dmaStore_status ..
    | reset => exact Bool.noConfusion (h .reset List.mem_cons_self)
    | suspend => rfl

/-- What a command can do besides: work on the flash, and choose where data is received. -/
structure Handled (w : World) (s s' : St) : Prop extends Kept s s' where
  flash : s'.dev.flash = s.dev.flash ∨ s'.dev.flash = w.effect s.tick s.dev.flash
  recvBuffer : s'.trans.actRecvBuffer = s.trans.actRecvBuffer ∨ s'.trans.actRecvBuffer ≠ .send

theorem opCmd_handled (w : World) (s : St) (c : Cmd) : Handled w s (opCmd w s c) := by
  cases c with
  | trans addr len dou =>
    change Handled w s (fesTrans s addr len dou)
    unfold fesTrans
    split
    · exact ⟨⟨rfl, rfl, rfl, rfl, rfl, rfl⟩, .inl rfl, .inl rfl⟩
    · split
      · exact ⟨⟨rfl, rfl, rfl, rfl, rfl, rfl⟩, .inl rfl, .inl rfl⟩
      · exact ⟨⟨rfl, rfl, rfl, rfl, rfl, rfl⟩, .inl rfl, .inr Loc.noConfusion⟩
  | down addr len type =>
    change Handled w s (fesDown s addr len type)
    unfold fesDown
    split <;> exact ⟨⟨rfl, rfl, rfl, rfl, rfl, rfl⟩, .inl rfl, .inr Loc.noConfusion⟩
  | up addr len type =>
    change Handled w s (fesUp w s addr len type)
    unfold fesUp upBoot upFlash
    dsimp only
    repeat' split
    all_goals exact ⟨⟨rfl, rfl, rfl, rfl, rfl, rfl⟩, .inl rfl, .inl rfl⟩
  | flashSetOn | flashSetOff | forceErase | forceEraseKey =>
    exact ⟨⟨rfl, rfl, rfl, rfl, rfl, rfl⟩, .inr rfl, .inl rfl⟩
  | unseqmemRead | spinand | queryInfo =>
    unfold opCmd
    dsimp only
    repeat' split
    all_goals exact ⟨⟨rfl, rfl, rfl, rfl, rfl, rfl⟩, .inl rfl, .inl rfl⟩
  | nand addr len type =>
    unfold opCmd
    dsimp only
    split
    · split
      · exact ⟨⟨rfl, rfl, rfl, rfl, rfl, rfl⟩, .inr rfl, .inl rfl⟩
      · exact ⟨.refl s, .inl rfl, .inl rfl⟩
    · exact ⟨⟨rfl, rfl, rfl, rfl, rfl, rfl⟩, .inl rfl, .inl rfl⟩
  | _ => exact ⟨⟨rfl, rfl, rfl, rfl, rfl, rfl⟩, .inl rfl, .inl rfl⟩

/-- A command that leaves the flash alone leaves the queue and the flash alone. -/
theorem Handled.dev {s s' : St} (h : Handled w s s')
    (heffect : ∀ disk, w.effect s.tick disk = disk) : s'.dev = s.dev := by
  have hflash : s'.dev.flash = s.dev.flash := h.flash.elim id fun h => h.trans (heffect _)
  change Dev.mk s'.dev.queue s'.dev.flash s'.dev.writes = _
  rw [h.queue, hflash, h.writes]

theorem afterCmd_kept : Kept s (afterCmd s).2 := by
  unfold afterCmd
  split
  · exact ⟨rfl, rfl, rfl, rfl, rfl, rfl⟩
  · split <;> exact ⟨rfl, rfl, rfl, rfl, rfl, rfl⟩

theorem dramDataRecvFinish_kept (w : World) (s : St) (dataType : Nat) :
    Kept s (dramDataRecvFinish w s dataType) := by
  unfold dramDataRecvFinish
  split
  · exact ⟨rfl, rfl, rfl, rfl, rfl, rfl⟩
  split
  · exact ⟨rfl, rfl, rfl, rfl, rfl, rfl⟩
  · have h := dmaStore_kept s (.ram s.trans.dramTransBuffer) s.trans.recvSize
      (memAt s s.trans.actRecvBuffer)
    exact ⟨h.csw, h.queue, h.writes, h.left, h.tick, h.log⟩

/-- The state in which a call is made. -/
def atCall (s : St) (t : Turn) : St := t.irqs.foldl irq s

theorem turn_eq {s : St} {t : Turn} (h : s.left = none) :
    (turn w s t).2 = { (stateLoop w (atCall s t) t.timeout).2 with
      tick := (stateLoop w (atCall s t) t.timeout).2.tick + 1
      left := if (stateLoop w (atCall s t) t.timeout).1 ≠ 0 then
        some (stateLoop w (atCall s t) t.timeout).1 else none } := by
  unfold turn
  rw [if_neg (not_not.mpr h)]
  rfl

theorem turn_of_left {s : St} {t : Turn} (h : s.left ≠ none) : (turn w s t).2 = s := by
  unfold turn
  rw [if_pos h]

end Brandy.Efex
