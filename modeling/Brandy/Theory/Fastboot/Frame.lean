import Brandy.Core.Fastboot

/-!
# What the Handlers Leave Alone

All but two of the handlers never write `fastboot_status_flag`. The relations that say so are
reflexive and transitive, so they are proved along the structure of a handler from the operations it
is made of.

## Main definitions

* `Calm`, `Still`: The flag, or both objects in the secure storage, are left alone.
* `Steady`: A relation that may be followed along the handlers.

## Theorems

* `oemErasePart_calm`, `oemLockAndAnswer_calm`: The longest of the handlers.
-/

namespace Brandy.Fastboot

open Process Text

/-- The flag in the secure storage is left alone. -/
structure Calm (s s' : St) : Prop where
  securemode : s'.securemode = s.securemode
  statusFlag : s'.statusFlag = s.statusFlag
  log : ∃ new, s'.log = s.log ++ new ∧ ∀ v, Event.flag v ∉ new

theorem Calm.of_log {s s' : St} (hmode : s'.securemode = s.securemode)
    (hflag : s'.statusFlag = s.statusFlag) (hlog : s'.log = s.log) : Calm s s' :=
  ⟨hmode, hflag, [], by rw [hlog, List.append_nil], fun _ => List.not_mem_nil⟩

instance : Std.Refl Calm where
  refl _ := Calm.of_log rfl rfl rfl

instance : IsTrans St Calm where
  trans s₁ s₂ s₃ h₁₂ h₂₃ := by
    rcases h₁₂.log with ⟨new₁, hlog₁, hnew₁⟩
    rcases h₂₃.log with ⟨new₂, hlog₂, hnew₂⟩
    refine ⟨h₂₃.securemode.trans h₁₂.securemode, h₂₃.statusFlag.trans h₁₂.statusFlag,
      new₁ ++ new₂, ?_, fun v hv => ?_⟩
    · rw [hlog₂, hlog₁, List.append_assoc]
    · exact (List.mem_append.mp hv).elim (hnew₁ v) (hnew₂ v)

/-- Both objects in the secure storage are left alone. -/
structure Still (s s' : St) : Prop extends Calm s s' where
  deviceUnlock : s'.deviceUnlock = s.deviceUnlock

/-- A relation that allows all that shows neither in the log nor in the secure storage. -/
class Quiet (R : St → St → Prop) : Prop extends Std.Refl R, IsTrans St R where
  of_log : ∀ {s s'}, s'.securemode = s.securemode → s'.statusFlag = s.statusFlag →
    s'.deviceUnlock = s.deviceUnlock → s'.log = s.log → R s s'

/-- A relation that may be followed along the handlers. -/
class Steady (R : St → St → Prop) : Prop extends Std.Refl R, IsTrans St R where
  of_still : ∀ {s s'}, Still s s' → R s s'

instance : Steady Calm where
  of_still := Still.toCalm

instance {R : St → St → Prop} [Steady R] : Quiet R where
  of_log hmode hflag hunlock hlog := Steady.of_still ⟨Calm.of_log hmode hflag hlog, hunlock⟩

section

variable (w : World) {R : St → St → Prop} [Quiet R]

theorem operate_calm : Moves R (operate w) := by
  intro s
  unfold operate
  split <;> exact Quiet.of_log rfl rfl rfl rfl

theorem succeeds_calm : Moves R (succeeds w) :=
  .bind (operate_calm w) fun _ => .pure _

theorem setLockflag_calm {flag : Nat} : Moves R (setLockflag flag) :=
  .update fun _ => Quiet.of_log rfl rfl rfl rfl

theorem sunxiFlashRead_calm {start : Nat} : Moves R (sunxiFlashRead w start) :=
  .bind (operate_calm w) fun _ => .bind (.look _) fun _ => .pure _

theorem sunxiFlashWrite_calm {start n : Nat} {src : Nat → UInt8} :
    Moves R (sunxiFlashWrite w start n src) := by
  refine .bind (operate_calm w) fun o => .bind (.update fun s => ?_) fun _ => .pure _
  split <;> exact Quiet.of_log rfl rfl rfl rfl

theorem fastbootStatusRead_calm : Moves R (fastbootStatusRead w) := by
  refine .bind (succeeds_calm w) fun init => .ite (fun _ => .pure _) fun _ => ?_
  refine .bind (succeeds_calm w) fun _ => .bind (succeeds_calm w) fun ok =>
    .bind (.look _) fun v => ?_
  split
  · refine .ite (fun _ => ?_) fun _ => .ite (fun _ => ?_) fun _ => .pure _
    · exact .bind setLockflag_calm fun _ => .pure _
    · exact .bind setLockflag_calm fun _ => .pure _
  · exact .bind setLockflag_calm fun _ => .pure _

theorem sunxiFastbootStatus_calm : Moves R (sunxiFastbootStatus w) :=
  .bind (.look _) fun _ => .ite (fun _ => fastbootStatusRead_calm w) fun _ => .pure _

end

section

variable (w : World) {R : St → St → Prop} [Steady R]

theorem writeUnlockObject_calm {value : List UInt8} : Moves Calm (writeUnlockObject w value) := by
  refine .bind (operate_calm w) fun o => .bind (.update fun s => ?_) fun _ => .pure _
  split
  · exact Calm.of_log rfl rfl rfl
  · exact Calm.of_log rfl rfl rfl

theorem record_calm {e : Event} (he : ∀ v, e ≠ .flag v) : Moves R (record e) :=
  .update fun _ => Steady.of_still
    ⟨⟨rfl, rfl, [e], rfl, fun v hv => he v (List.mem_singleton.mp hv).symm⟩, rfl⟩

theorem sendStatus_calm {response : List UInt8} : Moves R (sendStatus response) :=
  record_calm nofun

theorem readOemUnlockAbility_calm : Moves R (readOemUnlockAbility w) := by
  refine .bind (.look _) fun parts => ?_
  split
  · exact .pure _
  · refine .ite (fun _ => .pure _) fun _ => .bind (sunxiFlashRead_calm w) fun r => ?_
    refine .ite (fun _ => ?_) fun _ => .pure _
    exact .bind (record_calm nofun) fun _ => .pure _

theorem eraseBlocks_calm (count start : Nat) : Moves R (eraseBlocks w count start) := by
  induction count generalizing start with
  | zero => exact .pure _
  | succ count ih =>
    exact .bind (sunxiFlashWrite_calm w) fun _ => .ite (fun _ => ih _) fun _ => .pure _

theorem eraseSectors_calm (start unerasedSectors : Nat) :
    Moves R (eraseSectors w start unerasedSectors) := by
  refine .bind (eraseBlocks_calm w _ _) fun done => .ite (fun _ => .pure _) fun _ => ?_
  refine .ite (fun _ => ?_) fun _ => .pure _
  exact .bind (sunxiFlashWrite_calm w) fun _ => .pure _

theorem eraseNamed_calm {name : List UInt8} {limited : Bool} :
    Moves R (eraseNamed w name limited) := by
  refine .bind (succeeds_calm w) fun addr => .ite (fun _ => .pure _) fun _ => ?_
  refine .bind (.look _) fun parts => ?_
  split
  · exact .pure _
  · exact .ite (fun _ => .pure _) fun _ => eraseSectors_calm w _ _

theorem oemErasePart_calm : Moves R (oemErasePart w) := by
  refine .bind (eraseNamed_calm w) fun _ => .ite (fun _ => .pure _) fun _ => ?_
  refine .bind (eraseNamed_calm w) fun _ => .ite (fun _ => .pure _) fun _ => ?_
  exact .bind (record_calm nofun) fun _ => .pure _

theorem oemLockWillBrickDevice_calm : Moves R (oemLockWillBrickDevice w) :=
  .ite (fun _ => .bind (succeeds_calm w) fun _ => .pure _) fun _ => .pure _

theorem oemOpLock_calm (requestFlag : Nat) : Moves R (oemOpLock w requestFlag) := by
  refine .bind (.look _) fun lockflag => .ite (fun _ => ?_) fun _ =>
    .ite (fun _ => ?_) fun _ => .pure _
  all_goals
    refine .ite (fun _ => .pure _) fun _ => .bind (oemErasePart_calm w) fun _ => ?_
    exact .ite (fun _ => .bind setLockflag_calm fun _ => .pure _) fun _ => .pure _

theorem oemLockAndAnswer_calm {lockflag : Nat} : Moves R (oemLockAndAnswer w lockflag) :=
  .bind (oemOpLock_calm w _) fun _ => sendStatus_calm

theorem flashBlocks_calm (count start : Nat) (addr : Int) :
    Moves R (flashBlocks w count start addr) := by
  induction count generalizing start addr with
  | zero => exact .pure _
  | succ count ih =>
    refine .bind (.look _) fun mem => .bind (sunxiFlashWrite_calm w) fun _ => ?_
    exact .ite (fun _ => ih _ _) fun _ => .pure _

theorem flashSectors_calm (start dataSectors : Nat) :
    Moves R (flashSectors w start dataSectors) := by
  refine .bind (flashBlocks_calm w _ _ _) fun _ => .ite (fun _ => .pure _) fun _ => ?_
  refine .ite (fun _ => ?_) fun _ => .pure _
  exact .bind (.look _) fun _ => sunxiFlashWrite_calm w

theorem tryToDownload_calm (downloadSize : List UInt8) : Moves R (tryToDownload downloadSize) := by
  refine .bind (.update fun _ => Quiet.of_log rfl rfl rfl rfl) fun _ =>
    .ite (fun _ => .pure _) fun _ => ?_
  exact .ite (fun _ => .pure _) fun _ => .pure _

end

end Brandy.Fastboot
