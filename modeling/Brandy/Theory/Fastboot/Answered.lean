import Brandy.Theory.Fastboot.Frame
import Brandy.Theory.Fastboot.Operations

/-!
# Every Command Is Answered, Except

Most handlers send an answer on every path that returns. Three do not. `reboot-fastboot` gives up
without a word when there is no `misc` partition. `boot` makes up its answers and never sends one.
And when a sparse image cannot be written, `__flash_to_part` makes the text for the host and
returns.

## Main definitions

* `Answers`: The handler answers on every path that returns.
* `Unanswered`: The commands that are not answered.

## Theorems

* `command_answers`: The other commands.
* `settled_iff`: The loop leaves U-Boot or answers exactly for those.
-/

namespace Brandy.Fastboot

open Process Text Memory List Bool

/-- The log grew. -/
def Grows (s s' : St) : Prop := s.log <+: s'.log

instance : Std.Refl Grows where
  refl _ := prefix_rfl

instance : IsTrans St Grows where
  trans _ _ _ h h' := IsPrefix.trans h h'

variable {s s' : St}

theorem Calm.grows (h : Calm s s') : Grows s s' := by
  rcases h.log with ⟨new, hlog, -⟩
  exact ⟨new, hlog.symm⟩

variable {α : Type} {p : Handler α}

instance : Steady Grows where
  of_still h := h.toCalm.grows

/-- An answer was sent after the log was `before`. -/
def Answered (before : List Event) (s : St) : Prop :=
  ∃ response, Event.sent response ∈ s.log.drop before.length

/-- The log has not been cut since it was `before`. -/
def Since (before : List Event) (s : St) : Prop := before <+: s.log

theorem Since.grows {before : List Event} (h : Since before s) (hg : Grows s s') :
    Since before s' := IsPrefix.trans h hg

theorem Answered.grows {before : List Event} (h : Answered before s) (hg : Grows s s') :
    Answered before s' := by
  rcases h with ⟨response, hmem⟩
  rcases hg with ⟨new, hlog⟩
  refine ⟨response, ?_⟩
  rw [← hlog, drop_append]
  exact mem_append_left _ hmem

section

variable (w : World) {before : List Event}

/-- The handler answers on every path that returns. -/
def Answers {α : Type} (p : Handler α) : Prop :=
  ∀ before, Returns (Since before) p fun _ => Answered before

theorem sendStatus_answers {response : List UInt8} : Answers (sendStatus response) := by
  intro before s hs u s' hrun
  cases hrun
  rcases hs with ⟨new, hlog⟩
  refine ⟨response, ?_⟩
  change Event.sent response ∈ (s.log ++ [Event.sent response]).drop before.length
  rw [← hlog, append_assoc, drop_left]
  exact mem_append_right _ mem_cons_self

variable {β : Type} {f : α → Handler β}

theorem answers_after (hp : Moves Grows p) (hf : ∀ a, Answers (f a)) :
    Answers (p >>= f) :=
  fun before => .bind (.moved hp fun _ _ => Since.grows) fun a => hf a before

theorem answers_before (hp : Answers p) (hf : ∀ a, Moves Grows (f a)) :
    Answers (p >>= f) :=
  fun before => .bind (hp before) fun a => .moved (hf a) fun _ _ => Answered.grows

theorem answers_ite {c : Prop} [Decidable c] {q : Handler α} (hp : Answers p) (hq : Answers q) :
    Answers (if c then p else q) :=
  fun before => .ite (fun _ => hp before) fun _ => hq before

theorem answers_look {g : St → α} (hf : ∀ a, Answers (f a)) : Answers (look g >>= f) :=
  answers_after (.look g) hf

theorem fastbootReboot_answers {wordMode : Nat} : Answers (fastbootReboot wordMode) :=
  answers_before sendStatus_answers fun _ => .leave _

variable (name : List UInt8)

theorem fastbootErasePart_answers : Answers (fastbootErasePart w name) :=
  answers_after (eraseNamed_calm w) fun _ =>
    answers_ite sendStatus_answers sendStatus_answers

theorem writeStatusObject_grows (value : List UInt8) : Moves Grows (writeStatusObject w value) := by
  refine .bind (operate_calm w) fun o => .bind (.update fun s => ?_) fun _ => .pure _
  split
  · exact prefix_append _ _
  · exact prefix_rfl

theorem fastbootWriteStatusFlag_grows (name : String) :
    Moves Grows (fastbootWriteStatusFlag w name) := by
  refine .bind (succeeds_calm w) fun _ => .ite (fun _ => .pure _) fun _ => ?_
  refine .bind (writeStatusObject_grows w _) fun _ => .ite (fun _ => .pure _) fun _ => ?_
  refine .bind (fun s => (writeUnlockObject_calm w s).grows) fun _ => ?_
  exact .ite (fun _ => .pure _) fun _ => .pure _

theorem oemLockAndAnswer_answers {lockflag : Nat} : Answers (oemLockAndAnswer w lockflag) :=
  answers_after (oemOpLock_calm w _) fun _ => sendStatus_answers

theorem oemLock_answers : Answers (oemLock w) := by
  refine answers_look fun isSecure => answers_ite ?_ (oemLockAndAnswer_answers w)
  refine answers_after (oemLockWillBrickDevice_calm w) fun brick => ?_
  split
  · exact sendStatus_answers
  · exact answers_after (fastbootWriteStatusFlag_grows w _) fun _ => oemLockAndAnswer_answers w

theorem oemUnlock_answers : Answers (oemUnlock w) := by
  refine answers_look fun isSecure => answers_ite ?_ (oemLockAndAnswer_answers w)
  refine answers_after (readOemUnlockAbility_calm w) fun ability => ?_
  refine answers_ite sendStatus_answers ?_
  exact answers_after (fastbootWriteStatusFlag_grows w _) fun _ => oemLockAndAnswer_answers w

theorem oemOperation_answers (operation : List UInt8) : Answers (oemOperation w operation) := by
  refine answers_ite (oemLock_answers w) (answers_ite (oemUnlock_answers w) (answers_ite ?_ ?_))
  · exact answers_before sendStatus_answers fun _ => .leave _
  · exact sendStatus_answers

theorem downloadBoot_answers : Answers (downloadBoot w) :=
  answers_after (succeeds_calm w) fun _ => sendStatus_answers

theorem flashToMbr_answers : Answers (flashToMbr w) := by
  refine answers_after (succeeds_calm w) fun _ =>
    answers_ite sendStatus_answers (answers_after (succeeds_calm w) fun ok => ?_)
  refine answers_after (.update fun s => ?_) fun _ => sendStatus_answers
  split
  · exact prefix_rfl
  · exact prefix_rfl

theorem flashToBoot0_answers : Answers (flashToBoot0 w) :=
  answers_look fun _ => answers_ite sendStatus_answers
    (answers_after (succeeds_calm w) fun _ => downloadBoot_answers w)

theorem flashToUboot_answers : Answers (flashToUboot w) := by
  refine answers_look fun _ => answers_ite sendStatus_answers ?_
  refine answers_ite ?_ (downloadBoot_answers w)
  exact answers_after (succeeds_calm w) fun _ =>
    answers_ite sendStatus_answers (downloadBoot_answers w)

theorem flashDone_answers : Answers flashDone :=
  answers_before sendStatus_answers fun _ => .pure _

theorem flashRaw_answers (info : DiskPartition) :
    Answers (flashRaw w name info) := by
  refine answers_look fun _ => answers_ite ?_ ?_
  · exact answers_before sendStatus_answers fun _ => .pure _
  · refine answers_after (flashSectors_calm w _ _) fun _ =>
      answers_ite flashDone_answers ?_
    exact answers_before sendStatus_answers fun _ => .pure _

theorem download_answers (downloadSize : List UInt8) : Answers (download downloadSize) := by
  refine answers_after (tryToDownload_calm _) fun r => ?_
  refine answers_after (.update fun s => ?_) fun _ => sendStatus_answers
  split
  · exact prefix_rfl
  · exact prefix_rfl

theorem getVar_answers (verName : List UInt8) : Answers (getVar w verName) := by
  refine answers_look fun parts =>
    answers_ite sendStatus_answers (answers_ite sendStatus_answers ?_)
  refine answers_ite sendStatus_answers (answers_ite sendStatus_answers ?_)
  refine answers_ite sendStatus_answers (answers_ite ?_ sendStatus_answers)
  split
  · exact sendStatus_answers
  · exact sendStatus_answers

theorem continueBoot_answers : Answers (continueBoot w) := by
  refine answers_before sendStatus_answers fun _ => .bind (succeeds_calm w) fun _ => ?_
  exact .ite (fun _ => .leave _) fun _ => .pure _

theorem snapshotUpdate_answers (operation : List UInt8) : Answers (snapshotUpdate operation) :=
  answers_ite sendStatus_answers sendStatus_answers

theorem limited_answers {p : Handler Unit} (hp : Answers p) : Answers (limited w p) :=
  answers_after (sunxiFastbootStatus_calm w) fun _ =>
    answers_ite sendStatus_answers hp

/-- Nothing was recorded. -/
def Silent (s s' : St) : Prop := s'.log = s.log

instance : Std.Refl Silent where
  refl _ := rfl

instance : IsTrans St Silent where
  trans _ _ _ h h' := Eq.trans h' h

instance : Quiet Silent where
  of_log _ _ _ h := h

theorem Silent.since (h : Silent s s') : Since s.log s' :=
  ⟨[], by rw [append_nil, h]⟩

theorem setWorld_silent (s : St) {v : Sparse.World} : Silent s (s.setWorld v) := rfl

theorem Silent.not_answered (h : Silent s s') : ¬ Answered s.log s' := by
  rintro ⟨response, hmem⟩
  rw [h, drop_length] at hmem
  cases hmem

/-- U-Boot was left, or an answer was sent. -/
def Settled {α : Type} (before : List Event) : Result St Exit α → Prop
  | .ret _ s => Answered before s
  | .gone _ _ => True

theorem settled_of_answers (hp : Answers p) {s : St} (hs : Since before s) :
    Settled before (p s) := by
  cases hps : p s with
  | ret a s' => exact hp before s hs a s' hps
  | gone e s' => trivial

theorem not_settled_of_silent {a : α} {r : Result St Exit α} (hr : r = .ret a s')
    (h : Silent s s') : ¬ Settled s.log r := by
  rw [hr]
  exact h.not_answered

theorem rebootFastboot_settled_iff (s : St) :
    Settled s.log (rebootFastboot w s) ↔ partitionGetOffsetByname w s.parts (ascii "misc") ≠ 0 := by
  unfold rebootFastboot
  rw [bind_run, look_run, ret_bind]
  constructor
  · intro hsettled hmisc
    rw [if_pos hmisc] at hsettled
    exact not_settled_of_silent pure_run rfl hsettled
  · intro hmisc
    rw [if_neg hmisc]
    refine settled_of_answers ?_ prefix_rfl
    refine answers_after (sunxiFlashRead_calm w) fun _ => ?_
    exact answers_after (sunxiFlashWrite_calm w) fun _ =>
      fastbootReboot_answers

/-- There is no kernel image in the buffer, or it does not take over. -/
def BootGivesUp (s : St) : Prop :=
  (mkbootimagePageSize < s.allDownloadBytes ∧
      read s.mem (transferBuffer + mkbootimagePageSize) 4 = ihMagic) →
    (w.outcome s.ops).power = true ∧ (w.outcome s.ops).ok = false

theorem boot_settled_iff (s : St) : Settled s.log (boot w s) ↔ ¬ BootGivesUp w s := by
  unfold boot BootGivesUp
  rw [bind_run, look_run, ret_bind, bind_run, look_run, ret_bind]
  split_ifs with himage
  · rw [bind_run]
    by_cases hpower : (w.outcome s.ops).power = true
    · rw [succeeds_power w hpower, ret_bind]
      split_ifs with hok
      · refine iff_of_true trivial fun hgive => ?_
        rw [(hgive himage).2] at hok
        cases hok
      · refine iff_of_false (not_settled_of_silent pure_run rfl) fun hgive => hgive fun _ => ?_
        exact ⟨hpower, eq_false_of_not_eq_true hok⟩
    · rw [succeeds_lost w hpower]
      exact iff_of_true trivial fun hgive => hpower (hgive himage).1
  · refine iff_of_false (not_settled_of_silent pure_run rfl) fun hgive => hgive fun h => ?_
    exact absurd h himage

/-- The state with the header of a sparse image accepted for a partition. -/
def St.probed (s : St) (start : Nat) : St :=
  s.setStatics (Sparse.unsparseProbe s.mem transferBuffer start s.statics).2

/-- What the decoder makes of the downloaded data. -/
def sparseResult (s : St) : Int × Sparse.World :=
  Sparse.unsparseDirectWrite (fun i => (w.outcome i).power && (w.outcome i).ok) s.world
    transferBuffer s.tryToRecv

/-- The data is a sparse image for a partition, and the decoder gives up on it before power does. -/
def SparseFails (name : List UInt8) (s : St) : Prop :=
  ∃ info, partitionGetInfo w s.parts name = some info ∧
    (Sparse.unsparseProbe s.mem transferBuffer info.start s.statics).1 = 1 ∧
    (sparseResult w (s.probed info.start)).1 ≠ 0 ∧
    ¬ (s.ops < (sparseResult w (s.probed info.start)).2.writes ∧
      (w.outcome ((sparseResult w (s.probed info.start)).2.writes - 1)).power = false)

theorem flashSparse_settled_iff (s : St) : Settled s.log (flashSparse w s) ↔
    ¬ ((sparseResult w s).1 ≠ 0 ∧ ¬ (s.ops < (sparseResult w s).2.writes ∧
      (w.outcome ((sparseResult w s).2.writes - 1)).power = false)) := by
  have hdecode : unsparseWrite w s.tryToRecv s = decoded w (sparseResult w s) s := by
    rfl
  unfold flashSparse
  rw [bind_run, look_run, ret_bind, bind_run, hdecode]
  generalize sparseResult w s = r
  unfold decoded
  split_ifs with hpower
  · exact iff_of_true trivial fun h => h.2 hpower
  rw [ret_bind]
  split_ifs with hret
  · exact iff_of_false (not_settled_of_silent pure_run (setWorld_silent s))
      fun h => h ⟨hret, hpower⟩
  · have hdone : Settled s.log (flashDone (s.setWorld r.2)) :=
      settled_of_answers flashDone_answers (setWorld_silent s).since
    exact iff_of_true hdone fun h => hret h.1

theorem flashToPart_settled_iff (s : St) :
    Settled s.log (flashToPart w name s) ↔ ¬ SparseFails w name s := by
  unfold flashToPart
  rw [bind_run, look_run, ret_bind]
  cases hinfo : partitionGetInfo w s.parts name with
  | none =>
    refine iff_of_true (settled_of_answers ?_ prefix_rfl) ?_
    · dsimp only
      split
      · exact answers_before sendStatus_answers fun _ => .pure _
      · exact answers_after (.update fun _ => prefix_rfl) fun _ => flashDone_answers
    · rintro ⟨info, hsome, -⟩
      rw [hinfo] at hsome
      cases hsome
  | some info =>
    have hprobe : probe info.start s =
      .ret (Sparse.unsparseProbe s.mem transferBuffer info.start s.statics).1
        (s.probed info.start) := by unfold probe St.probed; rfl
    have hlog : s.log = (s.probed info.start).log := rfl
    dsimp only
    rw [bind_run, hprobe, ret_bind, hlog]
    split_ifs with hformat
    · have hsparse := flashSparse_settled_iff w (s.probed info.start)
      refine Iff.trans hsparse (not_congr ⟨fun h => ⟨info, hinfo, hformat, h⟩, ?_⟩)
      rintro ⟨info', hsome, -, hfail⟩
      rw [hinfo] at hsome
      cases hsome
      exact hfail
    · refine iff_of_true (settled_of_answers (flashRaw_answers w name info) prefix_rfl) ?_
      rintro ⟨info', hsome, hformat', -⟩
      rw [hinfo] at hsome
      cases hsome
      exact hformat hformat'

/-- The names that stand for boot files, with a handler of their own. -/
def bootFile (name : List UInt8) : Bool :=
  (w.configUboot && (startsWith name "u-boot" || startsWith name "toc1")) ||
    (w.configBoot0 && (startsWith name "boot0" || startsWith name "toc0")) ||
    (w.configMbr && startsWith name "mbr")

theorem flash_settled_iff (s : St) :
    Settled s.log (flash w name s) ↔ ¬ (bootFile w name = false ∧ SparseFails w name s) := by
  unfold flash bootFile
  split_ifs with huboot hboot0 hmbr
  · rw [huboot]
    exact iff_of_true (settled_of_answers (flashToUboot_answers w) prefix_rfl) (by simp)
  · rw [hboot0, Bool.or_true]
    exact iff_of_true (settled_of_answers (flashToBoot0_answers w) prefix_rfl) (by simp)
  · rw [hmbr, Bool.or_true]
    exact iff_of_true (settled_of_answers (flashToMbr_answers w) prefix_rfl) (by simp)
  rw [eq_false_of_not_eq_true huboot, eq_false_of_not_eq_true hboot0, eq_false_of_not_eq_true hmbr]
  have hpart := flashToPart_settled_iff w name s
  have hignore : Settled s.log ((flashToPart w name >>= fun _ => pure ()) s) ↔
      Settled s.log (flashToPart w name s) := by
    rw [bind_run]
    cases flashToPart w name s with
    | ret a s' => exact Iff.rfl
    | gone e s' => exact Iff.rfl
  exact hignore.trans (hpart.trans (by simp))

theorem limited_settled_iff (p : Handler Unit) (s : St) :
    Settled s.log (limited w p s) ↔
      ∀ v s₁, sunxiFastbootStatus w s = .ret v s₁ → v ≠ 0 → Settled s₁.log (p s₁) := by
  unfold limited
  have hsilent : Silent s _ := sunxiFastbootStatus_calm w s
  rw [bind_run]
  cases hrun : sunxiFastbootStatus w s with
  | gone e s₁ =>
    refine iff_of_true trivial fun v s₂ h => ?_
    cases h
  | ret v s₁ =>
    rw [hrun] at hsilent
    have hlog : s₁.log = s.log := hsilent
    rw [ret_bind, ← hlog]
    split_ifs with hv
    · refine iff_of_true (settled_of_answers sendStatus_answers prefix_rfl)
        fun v' s₂ h hv' => ?_
      cases h
      exact absurd hv hv'
    · refine ⟨fun hp v' s₂ h _ => ?_, fun h => h v s₁ rfl hv⟩
      cases h
      exact hp

variable {buffer : List UInt8}

theorem command_flash (h : startsWith buffer "flash:" = true) :
    command w buffer = limited w (flash w (cstr (buffer.drop 6))) := by
  unfold command
  rw [if_neg (not_startsWith h), if_neg (not_startsWith h), if_neg (not_startsWith h),
    if_neg (not_startsWith h), if_pos h]

theorem command_boot (h : startsWith buffer "boot" = true) :
    command w buffer = limited w (boot w) := by
  unfold command
  rw [if_neg (not_startsWith h), if_neg (not_startsWith h), if_neg (not_startsWith h),
    if_neg (not_startsWith h), if_neg (not_startsWith h), if_neg (not_startsWith h), if_pos h]

theorem command_answers (hreboot : ¬ startsWith buffer "reboot-fastboot" = true)
    (hflash : ¬ startsWith buffer "flash:" = true) (hboot : ¬ startsWith buffer "boot" = true) :
    Answers (command w buffer) := by
  unfold command
  rw [if_neg hreboot, if_neg hflash, if_neg hboot]
  refine answers_ite fastbootReboot_answers (answers_ite fastbootReboot_answers ?_)
  refine answers_ite (limited_answers w (fastbootErasePart_answers w _)) ?_
  refine answers_ite (limited_answers w (download_answers _)) ?_
  refine answers_ite (limited_answers w (getVar_answers w _)) ?_
  refine answers_ite (oemOperation_answers w _) (answers_ite (continueBoot_answers w) ?_)
  exact answers_ite (snapshotUpdate_answers _) sendStatus_answers

/-- The commands that are not answered. -/
def Unanswered (s : St) : Prop :=
  (startsWith s.rxReqBuffer "reboot-fastboot" = true ∧
      partitionGetOffsetByname w s.parts (ascii "misc") = 0) ∨
    ∃ v s₁, sunxiFastbootStatus w s.taken = .ret v s₁ ∧ v ≠ 0 ∧
      ((startsWith s.rxReqBuffer "boot" = true ∧ BootGivesUp w s₁) ∨
        (startsWith s.rxReqBuffer "flash:" = true ∧
          bootFile w (cstr (s.rxReqBuffer.drop 6)) = false ∧
          SparseFails w (cstr (s.rxReqBuffer.drop 6)) s₁))

/-- In the state `SUNXI_USB_FASTBOOT_SETUP` the loop leaves U-Boot or sends an answer exactly when
    the command is not of the three kinds without one. -/
theorem settled_iff (s : St) (hsetup : s.status = .setup) :
    Settled s.log (stateLoop w s) ↔ ¬ Unanswered w s := by
  have hrun : stateLoop w s = command w s.rxReqBuffer s.taken := by
    unfold stateLoop
    rw [bind_run, look_run, ret_bind, hsetup]
    rfl
  have hlog : s.log = s.taken.log := rfl
  rw [hrun, hlog]
  by_cases hreboot : startsWith s.rxReqBuffer "reboot-fastboot" = true
  · rw [command, if_neg (not_startsWith hreboot), if_pos hreboot, rebootFastboot_settled_iff]
    refine not_congr ⟨fun h => .inl ⟨hreboot, h⟩, ?_⟩
    rintro (⟨-, h⟩ | ⟨v, s₁, -, -, ⟨hboot, -⟩ | ⟨hflash, -⟩⟩)
    · exact h
    · exact absurd hboot (not_startsWith hreboot)
    · exact absurd hflash (not_startsWith hreboot)
  by_cases hflash : startsWith s.rxReqBuffer "flash:" = true
  · rw [command_flash w hflash, limited_settled_iff]
    constructor
    · rintro hall (⟨h, -⟩ | ⟨v, s₁, hs₁, hv, ⟨hboot, -⟩ | ⟨-, hfail⟩⟩)
      · exact hreboot h
      · exact not_startsWith hflash (by decide) hboot
      · exact (flash_settled_iff w _ s₁).mp (hall v s₁ hs₁ hv) hfail
    · intro h v s₁ hs₁ hv
      refine (flash_settled_iff w _ s₁).mpr fun hfail => h (.inr ⟨v, s₁, hs₁, hv, .inr ?_⟩)
      exact ⟨hflash, hfail⟩
  by_cases hboot : startsWith s.rxReqBuffer "boot" = true
  · rw [command_boot w hboot, limited_settled_iff]
    constructor
    · rintro hall (⟨h, -⟩ | ⟨v, s₁, hs₁, hv, ⟨-, hfail⟩ | ⟨h, -⟩⟩)
      · exact hreboot h
      · exact (boot_settled_iff w s₁).mp (hall v s₁ hs₁ hv) hfail
      · exact hflash h
    · intro h v s₁ hs₁ hv
      refine (boot_settled_iff w s₁).mpr fun hfail => h (.inr ⟨v, s₁, hs₁, hv, .inl ?_⟩)
      exact ⟨hboot, hfail⟩
  · refine iff_of_true (settled_of_answers (command_answers w hreboot hflash hboot) prefix_rfl) ?_
    rintro (⟨h, -⟩ | ⟨v, s₁, -, -, ⟨h, -⟩ | ⟨h, -⟩⟩)
    · exact hreboot h
    · exact hboot h
    · exact hflash h

end

/-- A board with a command in its buffer. The board is not secure, so nothing is locked. -/
def commandBoard (buffer : List UInt8) (mem : Mem) (tryToRecv : Nat) : St :=
  { lockedBoard lockParts with
    status := .setup
    rxReadyForData := true
    rxReqBuffer := buffer
    securemode := 0
    mem := mem
    tryToRecv := tryToRecv
    allDownloadBytes := tryToRecv }

/-- An unknown command is answered. -/
theorem settled_iff_unknown :
    ¬ Unanswered (plainWorld fun _ => fine) (commandBoard (ascii "hello") (fun _ => 0) 0) := by
  refine (settled_iff (plainWorld fun _ => fine) (commandBoard (ascii "hello") (fun _ => 0) 0)
    rfl).mp ⟨ascii "FAIL", ?_⟩
  decide +kernel

/-- A sparse header and the header of a chunk of an unknown type. -/
def brokenSparse : List UInt8 :=
  [0x3a, 0xff, 0x26, 0xed, 1, 0, 0, 0, 28, 0, 12, 0, 0, 16, 0, 0, 0, 0, 0, 0, 1, 0, 0,
    0, 0, 0, 0, 0, 0xff, 0xff, 0, 0, 1, 0, 0, 0, 12, 0, 0, 0]

/-- The loop is back in its idle state, and nothing is in the log. -/
def quietly : Result St Exit Unit → Bool
  | .ret _ s => s.status = .idle && s.log = []
  | .gone _ _ => false

theorem ret_of_quietly {r : Result St Exit Unit} (h : quietly r = true) :
    ∃ s', r = .ret () s' ∧ s'.status = .idle ∧ s'.log = [] := by
  cases r with
  | ret u s' =>
    simp only [quietly, and_eq_true, decide_eq_true_eq] at h
    exact ⟨s', rfl, h.1, h.2⟩
  | gone e s' => cases h

/-- Every operation succeeds, and the loop returns to its idle state without a word, after each of
    the three commands. -/
theorem silent_commands :
    (∃ s', stateLoop (plainWorld fun _ => fine)
        (commandBoard (ascii "reboot-fastboot") (fun _ => 0) 0) = .ret () s' ∧
      s'.status = .idle ∧ s'.log = []) ∧
    (∃ s', stateLoop (plainWorld fun _ => fine) (commandBoard (ascii "boot") (fun _ => 0) 0) =
        .ret () s' ∧ s'.status = .idle ∧ s'.log = []) ∧
    ∃ s', stateLoop (plainWorld fun _ => fine)
        (commandBoard (ascii "flash:UDISK") (store (fun _ => 0) transferBuffer brokenSparse) 40) =
        .ret () s' ∧ s'.status = .idle ∧ s'.log = [] :=
  ⟨ret_of_quietly (by decide +kernel), ret_of_quietly (by decide +kernel),
    ret_of_quietly (by decide +kernel)⟩

end Brandy.Fastboot
