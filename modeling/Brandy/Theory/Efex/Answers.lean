import Brandy.Theory.Efex.Visible

/-!
# Answers and Their Commands

The answer to a command is data in one direction, if any, and then a status. It takes several calls,
with interrupts between them, and some commands go on with the next state of the command before.

## Main definitions

* `Phase`, `phase`: How much of an answer a log has.
* `InOrder`: The invariant.

## Theorems

* `stateLoop_answering`, `turn_inOrder`: One call, and one turn.
* `answers_in_order`: Every part of an answer comes behind its command, and only once.
-/

namespace Brandy.Efex

open EfexQueue Sectors Memory Simulation List

/-- How much of an answer there is. -/
inductive Phase where
  | complete
  | asked
  | moved
  deriving DecidableEq

/-- What an event does to the answer. A reset ends a command, so the next one may come at any time.
    A lost page does nothing. -/
def Phase.next (p : Phase) : Event → Option Phase
  | .cmd _ => some .asked
  | .lost => some p
  | .got _ => if p = .asked then some .moved else none
  | .data _ => if p = .asked then some .moved else none
  | .status _ => if p = .complete then none else some .complete

/-- The events of a log in order, or `none` when one of them is out of place. -/
def phase (log : List Event) : Option Phase := log.foldlM Phase.next .complete

theorem phase_append {log : List Event} {p : Phase} (h : phase log = some p) (es : List Event) :
    phase (log ++ es) = es.foldlM Phase.next p := by
  unfold phase at h ⊢
  rw [foldlM_append, h]
  rfl

theorem phase_status {log : List Event} {p : Phase} (h : phase log = some p) (hp : p ≠ .complete)
    (csw : Nat) : phase (log ++ [.status csw]) = some .complete := by
  rw [phase_append h]
  cases p with
  | complete => exact absurd rfl hp
  | asked => rfl
  | moved => rfl

theorem foldlM_lost {es : List Event} (h : ∀ e ∈ es, e = .lost) (p : Phase) :
    es.foldlM Phase.next p = some p := by
  induction es with
  | nil => rfl
  | cons e es ih =>
    rw [h e mem_cons_self]
    exact ih fun e he => h e (mem_cons_of_mem _ he)

/-- Data moves right after a command, and a status is due. -/
def Fits : Status → Phase → Prop
  | .sendDataNew, p => p = .asked
  | .receiveDataNew, p => p = .asked
  | .status, p => p ≠ .complete
  | .exit, p => p ≠ .complete
  | _, _ => True

theorem fits_asked (st : Status) : Fits st .asked := by
  cases st <;> simp [Fits]

/-- The state of the device fits the answer, and the loop is left with a reason. -/
structure Answering (s : St) (p : Phase) : Prop where
  log : phase s.log = some p
  status : Fits s.status p
  next : s.trans.appNextStatus = .exit → s.nextAction ≠ 0
  exit : s.status = .exit → s.nextAction ≠ 0

section

variable {w : World} {s : St} {p : Phase}

theorem irq_answering (h : Answering s p) (i : Irq) : Answering (irq s i) p := by
  cases i with
  | request r =>
    unfold irq
    dsimp only
    split
    · exact h
    · exact ⟨h.log, h.status, h.next, h.exit⟩
  | dma data =>
    have hstore : Answering (dmaStore s s.trans.actRecvBuffer s.trans.recvSize data) p := by
      unfold dmaStore
      split <;> exact ⟨h.log, h.status, h.next, h.exit⟩
    exact ⟨hstore.log, hstore.status, hstore.next, hstore.exit⟩
  | reset => exact ⟨h.log, trivial, h.next, nofun⟩
  | suspend => exact ⟨h.log, h.status, h.next, h.exit⟩

theorem irqs_answering (is : List Irq) (h : Answering s p) : Answering (is.foldl irq s) p := by
  induction is generalizing s with
  | nil => exact h
  | cons i is ih => exact ih (irq_answering h i)

theorem opCmd_exit (c : Cmd) (h : s.trans.appNextStatus = .exit → s.nextAction ≠ 0) :
    (opCmd w s c).trans.appNextStatus = .exit → (opCmd w s c).nextAction ≠ 0 := by
  cases c with
  | up addr len type =>
    rw [show (opCmd w s (.up addr len type)).trans.appNextStatus = .sendData from fesUp_next]
    exact nofun
  | toolMode mode nextMode =>
    change (toolModeAction w mode nextMode).2 = _ → (toolModeAction w mode nextMode).1 ≠ 0
    unfold toolModeAction
    dsimp only
    generalize (if nextMode = 0 then w.nextWork.getD 1 else 2) = action
    split_ifs <;> dsimp only <;> intro hexit
    · decide
    · assumption
    · decide
    · cases hexit
    · omega
  | trans | down | unseqmemRead | spinand | nand | queryInfo =>
    unfold opCmd
    try unfold fesTrans
    try unfold fesDown
    dsimp only
    repeat' split
    all_goals first | exact h | exact nofun
  | _ => exact nofun

theorem afterCmd_answering (hlog : phase s.log = some .asked)
    (h : s.trans.appNextStatus = .exit → s.nextAction ≠ 0) : Answering (afterCmd s).2 .asked := by
  unfold afterCmd
  split
  · exact ⟨hlog, fits_asked _, h, nofun⟩
  · cases hnext : s.trans.appNextStatus with
    | exit => exact ⟨hlog, fits_asked _, h, fun _ => h hnext⟩
    | _ => exact ⟨hlog, fits_asked _, h, nofun⟩

theorem setupNew_answering (h : Answering s p) : Answering (setupNew w s).2 .asked := by
  have hcmd : phase (s.log ++ [.cmd s.req.cmd]) = some .asked := phase_append h.log _
  have hbefore : phase (beforeCmd w s).log = some .asked ∧
      ((beforeCmd w s).trans.appNextStatus = .exit → (beforeCmd w s).nextAction ≠ 0) := by
    unfold beforeCmd
    dsimp only
    split
    · exact ⟨(phase_append hcmd _).trans (foldlM_lost (fun _ => mem_lostEvents) _), h.next⟩
    · exact ⟨hcmd, h.next⟩
  rw [setupNew_eq]
  refine afterCmd_answering ?_ (opCmd_exit s.req.cmd hbefore.2)
  exact (congrArg phase (opCmd_handled w (beforeCmd w s) s.req.cmd).log).trans hbefore.1

theorem takeData_next : (takeData w s).trans.appNextStatus = s.trans.appNextStatus ∧
    (takeData w s).nextAction = s.nextAction := by
  unfold takeData dramDataRecvFinish dmaStore
  dsimp only
  repeat' split
  all_goals exact ⟨rfl, rfl⟩

theorem receiveDataNew_answering (h : Answering s .asked) (timeout : Bool) :
    ∃ p, Answering (receiveDataNew w s timeout).2 p := by
  unfold receiveDataNew
  split_ifs
  · exact ⟨.asked, h.log, trivial, h.next, nofun⟩
  · refine ⟨.asked, ?_, h.status, h.next, h.exit⟩
    exact (phase_append h.log _).trans (foldlM_lost (fun _ => mem_lostEvents) _)
  · dsimp only
    have hgot : phase (s.log ++ [.got (read (memAt s s.trans.actRecvBuffer) 0 s.trans.recvSize)]) =
        some .moved := phase_append h.log _
    generalize read (memAt s s.trans.actRecvBuffer) 0 s.trans.recvSize = bytes at hgot ⊢
    rcases takeData_log (w := w) (s := { s with log := s.log ++ [.got bytes] }) with
      ⟨es, hes, hlost, -⟩
    rcases takeData_next (w := w) (s := { s with log := s.log ++ [.got bytes] }) with
      ⟨hnext, haction⟩
    refine ⟨.moved, ?_, Phase.noConfusion, fun hexit => ?_, nofun⟩
    · exact (congrArg phase hes).trans ((phase_append hgot es).trans (foldlM_lost hlost _))
    · exact haction.symm ▸ h.next (hnext.symm.trans hexit)

/-- One call. A call that ends with a status and goes on has come back to `idle`. -/
theorem stateLoop_answering (h : Answering s p) (timeout : Bool) :
    ∃ p', phase (stateLoop w s timeout).2.log = some p' ∧
      ((stateLoop w s timeout).1 = 0 → Answering (stateLoop w s timeout).2 p') := by
  have of_answering : ∀ {r : Int × St}, (∃ p', Answering r.2 p') →
      ∃ p', phase r.2.log = some p' ∧ (r.1 = 0 → Answering r.2 p') :=
    fun ⟨p', h'⟩ => ⟨p', h'.log, fun _ => h'⟩
  have hfits := h.status
  unfold stateLoop
  cases hstatus : s.status with
  | idle =>
    refine of_answering ⟨p, ?_⟩
    dsimp only
    split
    · exact ⟨h.log, trivial, h.next, nofun⟩
    · exact h
  | setup =>
    refine of_answering ⟨p, ?_⟩
    dsimp only
    split <;> exact ⟨h.log, trivial, h.next, nofun⟩
  | setupNew => exact of_answering ⟨.asked, setupNew_answering h⟩
  | sendDataNew =>
    rw [hstatus] at hfits
    obtain rfl : p = .asked := hfits
    refine of_answering ?_
    dsimp only
    split
    · exact ⟨.moved, phase_append h.log _, Phase.noConfusion, h.next, nofun⟩
    · exact ⟨.asked, h.log, fits_asked _, h.next, nofun⟩
  | receiveDataNew =>
    rw [hstatus] at hfits
    obtain rfl : p = .asked := hfits
    exact of_answering (receiveDataNew_answering h timeout)
  | status =>
    rw [hstatus] at hfits
    exact of_answering ⟨.complete, phase_status h.log hfits _, trivial, h.next, nofun⟩
  | exit =>
    rw [hstatus] at hfits
    refine ⟨.complete, phase_status h.log hfits _, fun hret => ?_⟩
    exact absurd (Int.ofNat_eq_zero.mp hret) (h.exit hstatus)
  | fel => exact of_answering ⟨p, h⟩

/-- The answers are in order, and while the loop goes on the device is in step with them. -/
def InOrder (s : St) : Prop := ∃ p, phase s.log = some p ∧ (s.left = none → Answering s p)

theorem turn_inOrder (h : InOrder s) (t : Turn) : InOrder (turn w s t).2 := by
  by_cases hleft : s.left = none
  · rcases h with ⟨p, -, hp⟩
    rcases stateLoop_answering (w := w) (irqs_answering t.irqs (hp hleft)) t.timeout with
      ⟨p', hlog, hnext⟩
    rw [turn_eq hleft]
    refine ⟨p', hlog, fun hgoes => ?_⟩
    have hret : (stateLoop w (atCall s t) t.timeout).1 = 0 := by
      by_contra hret
      exact Option.some_ne_none _ ((if_pos hret).symm.trans hgoes)
    have hstep := hnext hret
    exact ⟨hstep.log, hstep.status, hstep.next, hstep.exit⟩
  · rw [turn_of_left hleft]
    exact h

end

/-- In every run, whatever comes in between: data moves at most once behind a command, a status
    comes at most once behind a command and its data, and nothing else comes. -/
theorem answers_in_order (b : Board) (memory : Nat → Mem) (flash : Disk) (ram : Mem) (w : World)
    (turns : List Turn) : phase (after (turn w) (.init b memory flash ram) turns).log ≠ none := by
  have hrun : ∀ s, InOrder s → InOrder (after (turn w) s turns) := by
    induction turns with
    | nil => exact fun _ h => h
    | cons t turns ih => exact fun s h => ih _ (turn_inOrder h t)
  rcases hrun (.init b memory flash ram) ⟨.complete, rfl,
    fun _ => ⟨rfl, trivial, nofun, nofun⟩⟩ with ⟨p, hp, -⟩
  exact hp ▸ Option.some_ne_none p

end Brandy.Efex
