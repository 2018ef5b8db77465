import Brandy.Library.Simulation
import Brandy.Theory.Fastboot.Frame
import Brandy.Theory.Fastboot.Operations

/-!
# The Lock After a Reset

The answer to `oem lock` tells how the erase went. Whether the flag was stored is not looked at, so
a lock that is acknowledged may be gone after a reset.

An unlock is to be remembered in a second object, `device_unlock`. But both commands store the same
text in both objects, and the reader compares with `unlock`, a text that is never stored.

## Main definitions

* `FindsLock`: What a reader needs to report a lock.
* `FoundLocked`: A board that is found locked after some commands and resets.

## Theorems

* `lock_durable_iff`: When a lock that is acknowledged is found after a reset.
* `yellow_iff`: When the state `yellow` is shown.
-/

namespace Brandy.Fastboot

open Process Text Simulation

/-- An event is an answer that starts with `OKAY`. -/
def Event.okay : Event → Bool
  | .sent response => startsWith response "OKAY"
  | _ => false

/-- The command has returned with such an answer. -/
def okay (before : List Event) : Result St Exit Unit → Bool
  | .ret _ s => (s.log.drop before.length).any Event.okay
  | .gone _ _ => false

section

variable (w : World) {s s' : St}

theorem writeStatusFlag_stored {name : String} {v : Int}
    (h : fastbootWriteStatusFlag w name s = .ret v s') :
    s'.statusFlag = if stores w s.ops then some (ascii name) else s.statusFlag := by
  unfold fastbootWriteStatusFlag at h
  rw [bind_run] at h
  by_cases hpower : (w.outcome s.ops).power = true
  · rw [succeeds_power w hpower, ret_bind] at h
    by_cases hok : (w.outcome s.ops).ok = true
    · rw [hok, if_neg (by decide), bind_run] at h
      unfold writeStatusObject at h
      rw [bind_run] at h
      by_cases hpower' : (w.outcome (s.ops + 1)).power = true
      · rw [operate_power w hpower', ret_bind, bind_run, update_run, ret_bind, pure_run,
          ret_bind] at h
        have hstores : stores w s.ops =
            ((w.outcome (s.ops + 1)).ok || (w.outcome (s.ops + 1)).took) := by
          unfold stores
          rw [hpower, hok, hpower']
          rfl
        rw [hstores]
        -- what follows is about the other object
        refine (Moves.run (R := Calm) ?_ h).statusFlag.trans ?_
        · refine .ite (fun _ => .pure _) fun _ => .bind (writeUnlockObject_calm w) fun _ => ?_
          exact .ite (fun _ => .pure _) fun _ => .pure _
        · split <;> rfl
      · rw [operate_lost w hpower'] at h
        cases h
    · rw [Bool.eq_false_of_not_eq_true hok, if_pos (by decide)] at h
      cases h
      unfold stores
      rw [Bool.eq_false_of_not_eq_true hok, Bool.and_false, Bool.false_and, Bool.false_and]
      rfl
  · rw [succeeds_lost w hpower] at h
    cases h

/-- What is stored after a lock command that starts in `s`. -/
def lockStored (s : St) : Option (List UInt8) :=
  if stores w (s.ops + if w.configAvb then 1 else 0) then some (ascii "locked") else s.statusFlag

theorem storeAndLock_stored {before : List Event}
    (h : okay before ((fastbootWriteStatusFlag w "locked" >>= fun _ =>
      oemLockAndAnswer w sunxiLocked) s) = true) :
    ((fastbootWriteStatusFlag w "locked" >>= fun _ =>
      oemLockAndAnswer w sunxiLocked) s).state.statusFlag =
      if stores w s.ops then some (ascii "locked") else s.statusFlag := by
  rw [bind_run] at h ⊢
  cases hwrite : fastbootWriteStatusFlag w "locked" s with
  | ret v t =>
    have hcalm : Calm t (oemLockAndAnswer w sunxiLocked t).state := oemLockAndAnswer_calm w t
    exact hcalm.statusFlag.trans (writeStatusFlag_stored w hwrite)
  | gone e t =>
    rw [hwrite] at h
    cases h

theorem oemLock_stored (hsecure : secure s = true) (h : okay s.log (oemLock w s) = true) :
    (oemLock w s).state.statusFlag = lockStored w s := by
  unfold oemLock oemLockWillBrickDevice at h ⊢
  unfold lockStored
  rw [bind_run, look_run, ret_bind, hsecure, if_pos rfl, bind_run] at h ⊢
  by_cases havb : w.configAvb = true
  · rw [if_pos havb, bind_run] at h ⊢
    by_cases hpower : (w.outcome s.ops).power = true
    · rw [succeeds_power w hpower] at h ⊢
      by_cases hok : (w.outcome s.ops).ok = true
      · rw [ret_bind, hok] at h ⊢
        rw [if_pos havb]
        exact storeAndLock_stored w h
      -- the lock is refused, with an answer that starts with FAIL
      rw [ret_bind, Bool.eq_false_of_not_eq_true hok] at h
      change ((s.log ++ [Event.sent _]).drop s.log.length).any Event.okay = true at h
      rw [List.drop_left] at h
      exact absurd h (by decide)
    · rw [succeeds_lost w hpower] at h
      cases h
  · rw [if_neg havb] at h ⊢
    rw [if_neg havb]
    exact storeAndLock_stored w h

/-- What `sunxi_fastboot_status_read` needs to report a lock. Without a secure storage, or with a
    flag that is neither text, `gd->lockflag` stays as it was. -/
def FindsLock (s : St) : Prop :=
  (w.outcome s.ops).power = true →
    if (w.outcome s.ops).ok = true then
      (w.outcome (s.ops + 1)).power = true → (w.outcome (s.ops + 2)).power = true →
        (w.outcome (s.ops + 2)).ok = true → ∀ value, s.statusFlag = some value →
          cstr value ≠ ascii "unlocked" ∧
            (cstr value = ascii "locked" ∨ s.lockflag = sunxiLocked)
    else s.lockflag = sunxiLocked

theorem statusRead_locked_iff (s : St) :
    (∀ v s', fastbootStatusRead w s = .ret v s' → v = 0 ∧ s'.lockflag = sunxiLocked) ↔
      FindsLock w s := by
  have hlost : ∀ t : St, ∀ v s', (.gone .powerLoss t : Result St Exit Int) = .ret v s' →
      v = 0 ∧ s'.lockflag = sunxiLocked := by
    intro t v s' h
    cases h
  have hdone : ∀ (v : Int) (t : St), (∀ v' t', (.ret v t : Result St Exit Int) = .ret v' t' →
      v' = 0 ∧ t'.lockflag = sunxiLocked) ↔ v = 0 ∧ t.lockflag = sunxiLocked := by
    intro v t
    refine ⟨fun h => h v t rfl, fun h v' t' heq => ?_⟩
    cases heq
    exact h
  unfold fastbootStatusRead FindsLock
  rw [bind_run]
  by_cases hpower : (w.outcome s.ops).power = true
  · rw [succeeds_power w hpower, ret_bind]
    by_cases hok : (w.outcome s.ops).ok = true
    · rw [if_pos hok, hok, if_neg (by decide), bind_run]
      by_cases hpower₁ : (w.outcome (s.ops + 1)).power = true
      · rw [succeeds_power w (by exact hpower₁), ret_bind, bind_run]
        by_cases hpower₂ : (w.outcome (s.ops + 2)).power = true
        · rw [succeeds_power w (by exact hpower₂), ret_bind, bind_run, look_run, ret_bind]
          change (∀ v s', _ → _) ↔ (_ → _ → _ → (w.outcome (s.ops + 1 + 1)).ok = true → _)
          dsimp only
          generalize (w.outcome (s.ops + 1 + 1)).ok = read
          rcases read with _ | _
          · exact iff_of_true ((hdone _ _).mpr ⟨rfl, rfl⟩) fun _ _ _ h => Bool.noConfusion h
          cases hflag : s.statusFlag with
          | none =>
            exact iff_of_true ((hdone _ _).mpr ⟨rfl, rfl⟩) fun _ _ _ _ value h => by cases h
          | some value =>
            dsimp only
            by_cases hunlocked : cstr value = ascii "unlocked"
            · rw [if_pos hunlocked]
              refine iff_of_false (fun h => absurd (h _ _ rfl).1 (by decide)) fun h => ?_
              exact (h hpower hpower₁ hpower₂ rfl value rfl).1 hunlocked
            rw [if_neg hunlocked]
            by_cases hlocked : cstr value = ascii "locked"
            · rw [if_pos hlocked]
              refine iff_of_true ((hdone _ _).mpr ⟨rfl, rfl⟩) fun _ _ _ _ value' h => ?_
              cases h
              exact ⟨hunlocked, .inl hlocked⟩
            · rw [if_neg hlocked, pure_run, hdone]
              refine ⟨fun h _ _ _ _ value' heq => ?_, fun h => ⟨rfl, ?_⟩⟩
              · cases heq
                exact ⟨hunlocked, .inr h.2⟩
              · exact (h hpower hpower₁ hpower₂ rfl value rfl).2.resolve_left hlocked
        · rw [succeeds_lost w (by exact hpower₂)]
          exact iff_of_true (hlost _) fun _ _ h => absurd h hpower₂
      · rw [succeeds_lost w (by exact hpower₁)]
        exact iff_of_true (hlost _) fun _ h => absurd h hpower₁
    · rw [if_neg hok, Bool.eq_false_of_not_eq_true hok, if_pos (by decide), pure_run, hdone]
      exact ⟨fun h _ => h.2, fun h => ⟨rfl, h hpower⟩⟩
  · rw [succeeds_lost w hpower]
    exact iff_of_true (hlost _) fun h => absurd h hpower

/-- On a secure board a lock answered with `OKAY` is found after a reset exactly when the reader
    finds a lock in what is stored by then. -/
theorem lock_durable_iff (s : St) :
    (secure s = true → okay s.log (oemLock w s) = true → ∀ v s₂,
      fastbootStatusRead w (powerOn w (oemLock w s).state) = .ret v s₂ →
        v = 0 ∧ s₂.lockflag = sunxiLocked) ↔
      (secure s = true → okay s.log (oemLock w s) = true →
        FindsLock w { powerOn w (oemLock w s).state with statusFlag := lockStored w s }) := by
  refine imp_congr_right fun hsecure => imp_congr_right fun hokay => ?_
  rw [statusRead_locked_iff, ← oemLock_stored w hsecure hokay]
  rfl

/-- What `device_unlock` holds is never the text that the reader looks for. -/
def Marked (s : St) : Prop := ∀ value, s.deviceUnlock = some value → cstr value ≠ ascii "unlock"

/-- A step that leaves it so. -/
def Marks (s s' : St) : Prop := Marked s → Marked s'

instance : Steady Marks where
  refl _ := id
  trans _ _ _ h h' := h' ∘ h
  of_still h hs value hvalue := hs value (h.deviceUnlock.symm.trans hvalue)

theorem writeStatusFlag_marks {name : String} (hname : cstr (ascii name) ≠ ascii "unlock") :
    Moves Marks (fastbootWriteStatusFlag w name) := by
  refine .bind (succeeds_calm w) fun _ => .ite (fun _ => .pure _) fun _ => ?_
  refine .bind (.bind (operate_calm w) fun o => .bind (.update fun t ht => ?_) fun _ => .pure _)
    fun _ => .ite (fun _ => .pure _) fun _ => ?_
  · split <;> exact ht
  refine .bind (.bind (operate_calm w) fun o => .bind (.update fun t ht => ?_) fun _ => .pure _)
    fun _ => .ite (fun _ => .pure _) fun _ => .pure _
  split
  · intro value hvalue
    cases hvalue
    exact hname
  · exact ht

theorem oemLock_marks : Moves Marks (oemLock w) := by
  refine .bind (.look _) fun _ => .ite (fun _ => ?_) fun _ => oemLockAndAnswer_calm w
  refine .bind (oemLockWillBrickDevice_calm w) fun brick => ?_
  split
  · exact sendStatus_calm
  · exact .bind (writeStatusFlag_marks w (by decide)) fun _ => oemLockAndAnswer_calm w

theorem oemUnlock_marks : Moves Marks (oemUnlock w) := by
  refine .bind (.look _) fun _ => .ite (fun _ => ?_) fun _ => oemLockAndAnswer_calm w
  refine .bind (readOemUnlockAbility_calm w) fun ability =>
    .ite (fun _ => sendStatus_calm) fun _ => ?_
  exact .bind (writeStatusFlag_marks w (by decide)) fun _ => oemLockAndAnswer_calm w

/-- A command or a reset. -/
inductive Deed where
  | lock
  | unlock
  | reset
  deriving DecidableEq

/-- The command is answered with `OKAY`. -/
def succeeded (s : St) : Deed → Bool
  | .lock => okay s.log (oemLock w s)
  | .unlock => okay s.log (oemUnlock w s)
  | .reset => true

/-- The state after a command or a reset. -/
def deed (s : St) : Deed → Unit × St
  | .lock => ((), (oemLock w s).state)
  | .unlock => ((), (oemUnlock w s).state)
  | .reset => ((), powerOn w s)

theorem deeds_marked (ds : List Deed) (s : St) (h : Marked s) : Marked (after (deed w) s ds) := by
  induction ds generalizing s with
  | nil => exact h
  | cons d ds ih =>
    refine ih _ ?_
    cases d with
    | lock => exact oemLock_marks w s h
    | unlock => exact oemUnlock_marks w s h
    | reset => exact h

theorem setsYellow_false : Returns Marked (setsYellow w) fun yellow _ => yellow = false := by
  have hkeep : ∀ t t', Marked t → Marks t t' → Marked t' := fun _ _ ht hmarks => hmarks ht
  refine .bind (.moved (succeeds_calm w) hkeep) fun init => .ite (fun _ => .pure fun _ _ => rfl)
    fun _ => .bind (.moved (succeeds_calm w) hkeep) fun okUnlock => .bind (.look _) fun unlock => ?_
  refine .bind (Q := fun _ _ => cstr (unlock.getD []) ≠ ascii "unlock") (fun t ht _ _ _ => ?_)
    fun ok => .bind (.look _) fun value => ?_
  · cases hunlock : unlock with
    | none => decide
    | some text => exact ht.2 text (ht.1.symm.trans hunlock)
  split
  · refine .pure fun t ht => Bool.and_eq_false_imp.mpr fun _ => decide_eq_false ?_
    cases okUnlock with
    | false => exact show cstr [] ≠ ascii "unlock" by decide
    | true => exact ht.2
  · exact .pure fun _ _ => rfl

/-- Successful commands and resets from a board without flags on have left the board locked, and the
    reader sets `verifiedbootstate` to `yellow` or not. -/
structure FoundLocked (s : St) (ds : List Deed) (yellow : Bool) : Prop where
  fresh : s.statusFlag = none ∧ s.deviceUnlock = none
  isSecure : secure s = true
  success : Along (deed w) (fun s d => succeeded w s d = true) s ds
  locked : (after (deed w) s ds).statusFlag = some (ascii "locked")
  read : (setsYellow w (powerOn w (after (deed w) s ds))).value = some yellow

/-- The variable is `yellow` exactly after an unlock, exactly when there was no unlock. -/
theorem yellow_iff (s : St) (ds : List Deed) :
    (∀ yellow, FoundLocked w s ds yellow → (yellow = true ↔ Deed.unlock ∈ ds)) ↔
      ∀ yellow, FoundLocked w s ds yellow → Deed.unlock ∉ ds := by
  refine forall_congr' fun yellow => imp_congr_right fun h => ?_
  have hmarked : Marked (after (deed w) s ds) := by
    refine deeds_marked w ds s fun value hvalue => ?_
    rw [h.fresh.2] at hvalue
    cases hvalue
  have hyellow : yellow = false := by
    have hread := h.read
    rcases hrun : setsYellow w (powerOn w (after (deed w) s ds)) with ⟨y, s'⟩ | ⟨e, s'⟩
    · rw [hrun] at hread
      cases hread
      exact setsYellow_false w (powerOn w _) hmarked _ _ hrun
    · rw [hrun] at hread
      cases hread
  rw [hyellow]
  exact ⟨fun hiff hmem => Bool.noConfusion (hiff.mpr hmem), fun hno =>
    ⟨fun hfalse => Bool.noConfusion hfalse, fun hmem => absurd hmem hno⟩⟩

end

/-- An unlocked board that is secure. -/
def unlockedBoard : St :=
  { lockedBoard lockParts with lockflag := sunxiUnlocked, statusFlag := some (ascii "unlocked") }

/-- The secure storage cannot be opened to store the flag. The answer is `OKAY`, and after a reset
    the board is unlocked. -/
theorem lock_lost :
    secure unlockedBoard = true ∧
      okay unlockedBoard.log (oemLock (plainWorld (failAt 0)) unlockedBoard) = true ∧
      (fastbootStatusRead (plainWorld (failAt 0)) (powerOn (plainWorld (failAt 0))
        (oemLock (plainWorld (failAt 0)) unlockedBoard).state)).value = some (-1) := by
  exact ⟨by decide, by decide +kernel, by decide +kernel⟩

/-- The board is unlocked and locked again. The unlock is not found. -/
theorem unlock_forgotten :
    FoundLocked (plainWorld fun _ => fine) (lockedBoard lockParts) [.unlock, .lock] false :=
  ⟨⟨rfl, rfl⟩, by decide, by decide +kernel, by decide +kernel, by decide +kernel⟩

end Brandy.Fastboot
