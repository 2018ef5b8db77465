import Brandy.Theory.Efex.Frame

/-!
# Which Lost Pages Are Reported

The queue is written in three places, and a page can be lost in each of them. A page that is lost
while room is made for new data sets the result of the transfer, and the status that follows says
so. In the other two places only a local variable is set, which is gone when the status is sent.

## Main definitions

* `Careful`: A turn with losses of the first kind only, and without a reset.
* `Tracked`: Every lost page has been reported, or is reported next.

## Theorems

* `turn_tracked`: What one turn keeps.
* `lost_reported`: After careful turns and one more, every lost page has been reported.
-/

namespace Brandy.Efex

open Memory Sectors EfexQueue Simulation List

/-- The reply to a `FEX_CMD_fes_flash_set_off` is complete. -/
def SetOffReplied (es : List Event) : Prop :=
  ∃ a b csw, es = a ++ .cmd .flashSetOff :: b ∧ .status csw ∈ b

/-- A status that is not 0 comes, and not after the reply to the next
    `FEX_CMD_fes_flash_set_off`. -/
def InTime (es : List Event) : Prop :=
  ∃ a csw b, es = a ++ .status csw :: b ∧ csw ≠ 0 ∧ ¬ SetOffReplied a

theorem InTime.append {es : List Event} (h : InTime es) (more : List Event) :
    InTime (es ++ more) := by
  rcases h with ⟨a, csw, b, rfl, hcsw, hreply⟩
  exact ⟨a, csw, b ++ more, by rw [append_assoc, cons_append], hcsw, hreply⟩

theorem inTime_of_lost {es : List Event} {csw : Nat} (h : ∀ e ∈ es, e = .lost) (hcsw : csw ≠ 0) :
    InTime (es ++ [.status csw]) := by
  refine ⟨es, csw, [], rfl, hcsw, ?_⟩
  rintro ⟨a, b, -, rfl, -⟩
  have hcmd := h (.cmd .flashSetOff) (mem_append_right _ mem_cons_self)
  cases hcmd

/-- No page is lost before a command or while the device waits for data, and no reset keeps a bad
    status from being sent. -/
@[mk_iff]
structure Careful (w : World) (s : St) (t : Turn) : Prop where
  flush : (atCall s t).status = .setupNew → (atCall s t).req.cmd.flushes = true →
    (efexQueueWriteAllPage w.queue (atCall s t).dev).1 = 0
  poll : (atCall s t).status = .receiveDataNew → (atCall s t).writeEnable = false →
    (efexQueueWriteOnePage w.queue (atCall s t).dev).1 = 0
  reset : s.status = .status → s.csw ≠ 0 → ∀ i ∈ t.irqs, i.isReset = false

section

variable {w : World} {s : St}

theorem setupNew_log
    (h : s.req.cmd.flushes = true → (efexQueueWriteAllPage w.queue s.dev).1 = 0) :
    (setupNew w s).2.log = s.log ++ [.cmd s.req.cmd] := by
  unfold setupNew
  rw [(afterCmd_kept _).log]
  rw [(opCmd_handled w _ _).log]
  split_ifs with hflush
  · unfold St.setDev
    rw [lostEvents_clean (writeAll_clean (h hflush)), append_nil]
  · rfl

theorem takeData_log : ∃ es, (takeData w s).log = s.log ++ es ∧ (∀ e ∈ es, e = .lost) ∧
    (es = [] ∨ (takeData w s).trans.lastErr = -1) := by
  unfold takeData
  dsimp only
  have hclean := @save_clean w.queue s.dev s.trans.flashStart s.trans.flashSectors
    (memAt s s.trans.actRecvBuffer)
  generalize efexSaveBuffToQueue w.queue s.dev s.trans.flashStart s.trans.flashSectors
    (memAt s s.trans.actRecvBuffer) = r at hclean ⊢
  split_ifs with hram hfinish hret
  · refine ⟨[], ?_, fun e he => absurd he not_mem_nil, .inl rfl⟩
    rw [append_nil]
    exact (dramDataRecvFinish_kept ..).log
  · exact ⟨[], (append_nil _).symm, fun e he => absurd he not_mem_nil, .inl rfl⟩
  · exact ⟨lostEvents w s.dev r.2, rfl, fun e he => mem_lostEvents he, .inr rfl⟩
  · refine ⟨[], ?_, fun e he => absurd he not_mem_nil, .inl rfl⟩
    unfold St.setDev
    rw [lostEvents_clean (hclean (not_not.mp hret))]

theorem stateLoop_log (timeout : Bool)
    (hflush : s.status = .setupNew → s.req.cmd.flushes = true →
      (efexQueueWriteAllPage w.queue s.dev).1 = 0)
    (hpoll : s.status = .receiveDataNew → s.writeEnable = false →
      (efexQueueWriteOnePage w.queue s.dev).1 = 0) :
    ∃ es, (stateLoop w s timeout).2.log = s.log ++ es ∧
      (.lost ∉ es ∨ (stateLoop w s timeout).1 = 0 ∧ (stateLoop w s timeout).2.status = .status ∧
        (stateLoop w s timeout).2.csw ≠ 0 ∧
        ∃ bytes lost, es = .got bytes :: lost ∧ ∀ e ∈ lost, e = .lost) := by
  have hone : ∀ {e : Event}, e ≠ .lost → .lost ∉ [e] := fun he h => he (mem_singleton.mp h).symm
  unfold stateLoop
  cases hstatus : s.status with
  | idle =>
    refine ⟨[], ?_, .inl not_mem_nil⟩
    rw [append_nil]
    dsimp only
    split <;> rfl
  | setup =>
    refine ⟨[], ?_, .inl not_mem_nil⟩
    rw [append_nil]
    dsimp only
    split <;> rfl
  | setupNew =>
    exact ⟨[.cmd s.req.cmd], setupNew_log (hflush hstatus), .inl (hone Event.noConfusion)⟩
  | sendDataNew =>
    dsimp only
    split
    · exact ⟨_, rfl, .inl (hone Event.noConfusion)⟩
    · exact ⟨[], (append_nil _).symm, .inl not_mem_nil⟩
  | receiveDataNew =>
    dsimp only
    unfold receiveDataNew
    split_ifs with htime hwait
    · exact ⟨[], (append_nil _).symm, .inl not_mem_nil⟩
    · refine ⟨[], ?_, .inl not_mem_nil⟩
      unfold St.setDev
      rw [lostEvents_clean (writeOne_clean (hpoll hstatus (by simpa using hwait)))]
    dsimp only
    rcases takeData_log (w := w) (s := { s with log := s.log ++
        [.got (read (memAt s s.trans.actRecvBuffer) 0 s.trans.recvSize)] }) with
      ⟨lost, hlog, hlost, hlast⟩
    refine ⟨.got (read (memAt s s.trans.actRecvBuffer) 0 s.trans.recvSize) :: lost, ?_, ?_⟩
    · rw [hlog, append_assoc, singleton_append]
    · rcases hlast with rfl | herr
      · exact .inl (hone Event.noConfusion)
      · refine .inr ⟨rfl, rfl, ?_, _, lost, rfl, hlost⟩
        rw [herr]
        decide
  | status => exact ⟨[.status s.csw], rfl, .inl (hone Event.noConfusion)⟩
  | exit => exact ⟨[.status s.csw], rfl, .inl (hone Event.noConfusion)⟩
  | fel => exact ⟨[], (append_nil _).symm, .inl not_mem_nil⟩

/-- Only lost pages have come since, and a status that is not 0 is sent next. -/
def Pending (s : St) (post : List Event) : Prop :=
  (∀ e ∈ post, e = .lost) ∧ s.status = .status ∧ s.csw ≠ 0 ∧ s.left = none

/-- Every lost page has been reported, or is reported next. -/
def Tracked (s : St) : Prop :=
  ∀ pre post, s.log = pre ++ .lost :: post → InTime post ∨ Pending s post

theorem Pending.turn {post : List Event} {t : Turn} (h : Pending s post) (ht : Careful w s t) :
    ∃ more, (turn w s t).2.log = s.log ++ more ∧ InTime (post ++ more) := by
  rcases h with ⟨hlost, hstatus, hcsw, hleft⟩
  have hkept := irqs_kept t.irqs s
  have hstatus' : (atCall s t).status = .status :=
    (irqs_status s (ht.reset hstatus hcsw)).trans hstatus
  refine ⟨[.status s.csw], ?_, inTime_of_lost hlost hcsw⟩
  rw [turn_eq hleft, stateLoop, hstatus']
  rw [← hkept.log, ← hkept.csw]
  rfl

theorem lost_cases {log es pre post : List Event} (h : log ++ es = pre ++ .lost :: post) :
    (∃ post', log = pre ++ .lost :: post' ∧ post = post' ++ es) ∨
      ∃ pre', es = pre' ++ .lost :: post := by
  rcases append_eq_append_iff.mp h with ⟨pre', -, hes⟩ | ⟨rest, hlog, hrest⟩
  · exact .inr ⟨pre', hes⟩
  · rcases cons_eq_append_iff.mp hrest with ⟨-, hes⟩ | ⟨post', rfl, hpost⟩
    · exact .inr ⟨[], hes⟩
    · exact .inl ⟨post', hlog, hpost⟩

theorem turn_tracked {t : Turn} (h : Tracked s) (ht : Careful w s t) : Tracked (turn w s t).2 := by
  by_cases hleft : s.left = none
  · intro pre post hlog
    have hkept := irqs_kept t.irqs s
    rcases stateLoop_log t.timeout ht.flush ht.poll with ⟨es, hes, hkind⟩
    have hturn : (turn w s t).2.log = s.log ++ es := by
      rw [turn_eq hleft, ← hkept.log]
      exact hes
    rw [hturn] at hlog
    rcases lost_cases hlog with ⟨post', hold, rfl⟩ | ⟨pre', hnew⟩
    · rcases h pre post' hold with hin | hpending
      · exact .inl (hin.append es)
      · rcases hpending.turn ht with ⟨more, hmore, hin⟩
        rw [hturn] at hmore
        rw [← append_cancel_left hmore] at hin
        exact .inl hin
    · rcases hkind with hnone | ⟨hret, hstatus, hcsw, bytes, lost, hgot, hlost⟩
      · refine absurd ?_ hnone
        rw [hnew]
        exact mem_append_right _ mem_cons_self
      · refine .inr ⟨fun e he => ?_, ?_, ?_, ?_⟩
        · -- what follows a lost page is lost too
          rw [hgot] at hnew
          rcases cons_eq_append_iff.mp hnew with ⟨-, hbad⟩ | ⟨mid, -, hmid⟩
          · cases hbad
          · refine hlost e ?_
            rw [hmid]
            exact mem_append_right _ (mem_cons_of_mem _ he)
        · rw [turn_eq hleft]
          exact hstatus
        · rw [turn_eq hleft]
          exact hcsw
        · rw [turn_eq hleft]
          exact if_neg (not_not.mpr hret)
  · rw [turn_of_left hleft]
    exact h

end

/-- A run of careful turns, then one more: every page lost in the run is reported, no later than
    with the reply to the next `FEX_CMD_fes_flash_set_off`. -/
theorem lost_reported (b : Board) (memory : Nat → Mem) (flash : Disk) (ram : Mem) (w : World)
    (turns : List Turn) (t : Turn)
    (hrun : Along (turn w) (Careful w) (.init b memory flash ram) turns)
    (hlast : Careful w (after (turn w) (.init b memory flash ram) turns) t)
    (pre post : List Event)
    (hlost : (after (turn w) (.init b memory flash ram) turns).log = pre ++ .lost :: post) :
    ∃ more, (turn w (after (turn w) (.init b memory flash ram) turns) t).2.log =
      pre ++ .lost :: (post ++ more) ∧ InTime (post ++ more) := by
  have htracked : Tracked (after (turn w) (.init b memory flash ram) turns) :=
    after_of_step (I := fun _ s => Tracked s) (Q := fun _ => True)
      (fun _ s t h ht _ => turn_tracked h ht) [] _
      (fun _ _ h => absurd h.symm (append_ne_nil_of_right_ne_nil _ (cons_ne_nil _ _))) hrun
      fun _ _ => trivial
  generalize after (turn w) (.init b memory flash ram) turns = s at htracked hlast hlost ⊢
  have hgrow : ∃ more, (turn w s t).2.log = s.log ++ more := by
    by_cases hleft : s.left = none
    · rcases stateLoop_log t.timeout hlast.flush hlast.poll with ⟨es, hes, -⟩
      refine ⟨es, ?_⟩
      rw [turn_eq hleft, ← (irqs_kept t.irqs s).log]
      exact hes
    · refine ⟨[], ?_⟩
      rw [turn_of_left hleft, append_nil]
  rcases htracked pre post hlost with hin | hpending
  · rcases hgrow with ⟨more, hmore⟩
    refine ⟨more, ?_, hin.append more⟩
    rw [hmore, hlost, append_assoc, cons_append]
  · rcases hpending.turn hlast with ⟨more, hmore, hin⟩
    refine ⟨more, ?_, hin⟩
    rw [hmore, hlost, append_assoc, cons_append]

instance (w : World) (s : St) (t : Turn) : Decidable (Careful w s t) :=
  decidable_of_iff _ (careful_iff w s t).symm

/-- A world with a NAND flash and the writes that are given; everything else succeeds. -/
def nandWorld (writeOk : Nat → Bool) : World where
  queue := ⟨writeOk, fun _ disk => disk⟩
  isNand := true
  isEmmc := false
  hasSpinand := false
  hasNand := false
  hasUbifs := false
  readOk _ := true
  phyread _ := none
  gptToMbr _ := none
  nextWork := none
  info _ _ := 0
  result _ _ := 0
  effect _ disk := disk

/-- A NAND flash with pages of one sector. -/
def smallPages : Board := ⟨0, false, 512, by decide, by decide, by decide⟩

/-- The device after its start. -/
def fresh : St := .init smallPages (fun _ _ => 0) (fun _ => []) fun _ => 0

/-- A turn without interrupts. -/
def noIrq : Turn := ⟨[], false⟩

/-- A turn in which the data of a transfer has come. -/
def dataCame : Turn := ⟨[.dma fun _ => 1], false⟩

/-- A command comes in, and is handled two turns later. -/
def command (c : Cmd) : List Turn := [⟨[.request ⟨true, c⟩], false⟩, noIrq, noIrq]

/-- A download that fills the queue, and another one for which there is no room. -/
def fullTurns : List Turn :=
  command (.down 0 (80 * 512) 0) ++ [dataCame, noIrq] ++ command (.down 80 512 0) ++ [dataCame]

/-- The page that is lost when room is made is reported. -/
theorem lost_reported_full : ∃ pre post,
    (turn (nandWorld fun _ => false)
      (after (turn (nandWorld fun _ => false)) fresh fullTurns) noIrq).2.log =
      pre ++ .lost :: post ∧ InTime post := by
  have hmem : .lost ∈ (after (turn (nandWorld fun _ => false)) fresh fullTurns).log := by
    decide +kernel
  rcases append_of_mem hmem with ⟨pre, post, hlost⟩
  rcases lost_reported smallPages (fun _ _ => 0) (fun _ => []) (fun _ => 0)
    (nandWorld fun _ => false) fullTurns noIrq
    ⟨by decide +kernel, by decide +kernel, by decide +kernel, by decide +kernel,
      by decide +kernel, by decide +kernel, by decide +kernel, by decide +kernel,
      by decide +kernel, trivial⟩
    (by decide +kernel) pre post hlost with ⟨more, hlog, hin⟩
  exact ⟨pre, post ++ more, hlog, hin⟩

/-- Two downloads of one sector each, with a turn of waiting for the data of the second. Then
    `FEX_CMD_fes_flash_set_off`. -/
def waitTurns : List Turn :=
  command (.down 0 512 0) ++ [dataCame, noIrq] ++ command (.down 1 512 0) ++
    [noIrq, dataCame, noIrq] ++ command .flashSetOff ++ [noIrq]

/-- The first flash write fails, while the device waits. Everything is answered with 0. -/
theorem lost_page_hidden :
    (after (turn (nandWorld fun n => n != 0)) fresh waitTurns).log =
      [.cmd (.down 0 512 0), .got (read (fun _ => 1) 0 512), .status 0, .cmd (.down 1 512 0)] ++
        .lost :: [.got (read (fun _ => 1) 0 512), .status 0, .cmd .flashSetOff, .status 0] ∧
      ¬ InTime [.got (read (fun _ => 1) 0 512), .status 0, .cmd .flashSetOff, .status 0] := by
  refine ⟨by decide +kernel, ?_⟩
  rintro ⟨a, csw, b, hes, hcsw, -⟩
  have hmem : .status csw ∈
      [Event.got (read (fun _ => 1) 0 512), .status 0, .cmd .flashSetOff, .status 0] := by
    rw [hes]
    exact mem_append_right _ mem_cons_self
  simp only [mem_cons, not_mem_nil, reduceCtorEq, Event.status.injEq, or_false, false_or,
    or_self] at hmem
  exact hcsw hmem

end Brandy.Efex
